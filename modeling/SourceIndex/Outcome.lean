/-!
# Outcomes

An operation ends well, fails for a reason that is told, or crashes half-way.  A
crash is an outcome of its own, because what had been done before it stays done.
-/

namespace SourceIndex

/-- What comes of an operation that can fail, or crash half-way. -/
inductive Outcome (ε α : Type) where
  | done (value : α)
  | failed (fault : ε)
  | crashed
  deriving DecidableEq, Repr

end SourceIndex
