/-!
# Pagination

Dialects spell pagination in different ways; all of them come down to how many rows to skip and how many to return.  Either
number is written in the text or bound later through a parameter.
-/
namespace SelectRouting

namespace Limit

inductive Value where
  | literal (count : Nat)
  /-- The ordinal of a parameter. -/
  | parameter (ordinal : Nat)
  deriving DecidableEq

namespace Value

def literal? : Value → Option Nat
  | .literal n => some n
  | .parameter _ => none

def parameter? : Value → Option Nat
  | .literal _ => none
  | .parameter i => some i

end Value

end Limit

structure Limit where
  /-- Rows to skip. -/
  offset : Option Limit.Value
  /-- Rows to return. -/
  rowCount : Option Limit.Value
  /-- The dialect writes the offset in front of the row count. -/
  offsetFirst : Bool
  deriving DecidableEq

namespace Limit

def empty (offsetFirst : Bool) : Limit :=
  ⟨none, none, offsetFirst⟩

/-- What is missing is taken from the other limit; what is there stays. -/
def merge (a b : Limit) : Limit :=
  ⟨a.offset <|> b.offset, a.rowCount <|> b.rowCount, a.offsetFirst || b.offsetFirst⟩

end Limit

end SelectRouting
