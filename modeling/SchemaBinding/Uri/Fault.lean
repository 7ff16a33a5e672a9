/-! What can be wrong with a reference as a URL. -/
namespace SchemaBinding
namespace Uri

inductive Fault where
  | relativeWithoutBase
  | relativeToOpaqueBase
  | emptyHost
  | invalidPort
  | invalidIpv4
  | invalidIpv6
  | invalidDomainName
  | invalidHostCharacter
deriving Repr, DecidableEq

def Fault.message : Fault → String
  | .relativeWithoutBase => "relative URL without a base"
  | .relativeToOpaqueBase => "relative URL with a cannot-be-a-base base"
  | .emptyHost => "empty host"
  | .invalidPort => "invalid port number"
  | .invalidIpv4 => "invalid IPv4 address"
  | .invalidIpv6 => "invalid IPv6 address"
  | .invalidDomainName => "invalid international domain name"
  | .invalidHostCharacter => "invalid domain character"

end Uri
end SchemaBinding
