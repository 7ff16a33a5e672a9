import SchemaBinding.Failure

/-! Bounds on the documents of a run: the size of each, and how far apart the first and the last of a
chain of references may be. -/
namespace SchemaBinding

structure Limits where
  maxDocumentSize : Nat := 100 * 1024 * 1024
  maxIncludeDepth : Nat := 100
deriving Repr, DecidableEq, Inhabited

namespace Limits

def strict : Limits := { maxDocumentSize := 10 * 1024 * 1024, maxIncludeDepth := 20 }

def permissive : Limits := { maxDocumentSize := 1024 * 1024 * 1024, maxIncludeDepth := 1000 }

def checkDocumentSize (l : Limits) (size : Nat) : Except Failure Unit :=
  if l.maxDocumentSize < size then .error (.limitExceeded (.documentSize size l.maxDocumentSize))
  else .ok ()

def checkIncludeDepth (l : Limits) (depth : Nat) : Except Failure Unit :=
  if l.maxIncludeDepth < depth then .error (.limitExceeded (.includeDepth depth l.maxIncludeDepth))
  else .ok ()

theorem checkDocumentSize_eq_ok_iff {l : Limits} {size : Nat} :
    l.checkDocumentSize size = .ok () ↔ size ≤ l.maxDocumentSize := by
  unfold checkDocumentSize
  split <;> simp <;> omega

/-- The nesting levels left for a document at `depth`, its own level included. -/
def levelsLeft (l : Limits) (depth : Nat) : Nat := l.maxIncludeDepth + 1 - depth

end Limits
end SchemaBinding
