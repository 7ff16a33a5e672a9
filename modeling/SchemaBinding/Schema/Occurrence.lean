/-! How often something may occur. Compositors are flattened, so the bounds of a member take up those of
everything around it. -/
namespace SchemaBinding

/-- The largest upper bound; it stands for no bound at all. -/
def unbounded : Nat := 9223372036854775807

/-- Bounds as they are written; an absent one is 1. -/
structure Occurrence where
  min : Option Nat := none
  max : Option Nat := none
deriving Repr, DecidableEq, Inhabited

/-- The upper bound of something that occurs up to `b` times in something that occurs up to `a` times. -/
def multiplyBounds (a b : Nat) : Nat :=
  if unbounded ≤ a ∨ unbounded ≤ b then unbounded else min (a * b) unbounded

/-- What the compositors around a particle amount to. -/
structure Surroundings where
  /-- Whether the particle can be left out, whatever its own bounds are. -/
  optional : Bool := false
  max : Nat := 1
deriving Repr, DecidableEq, Inhabited

namespace Surroundings

/-- Inside one more compositor, which may be a choice. -/
def nest (s : Surroundings) (choice : Bool) (own : Occurrence) : Surroundings where
  optional := s.optional || choice || own.min = some 0
  max := multiplyBounds s.max (own.max.getD 1)

def apply (s : Surroundings) (own : Occurrence) : Occurrence where
  min := if s.optional then some 0 else own.min
  max := if 1 < s.max then some (multiplyBounds (own.max.getD 1) s.max) else own.max

end Surroundings
end SchemaBinding
