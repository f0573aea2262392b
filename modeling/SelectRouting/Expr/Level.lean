import SelectRouting.Expr
/-!
# Binding levels of operators

Seven levels, from the loosest to the tightest.  An operator that stands behind its operand has a strength on either side;
the right one is the greater, so that operators of one level group to the left, and levels do not overlap.
-/
namespace SelectRouting

inductive Level where
  | or
  | and
  /-- `NOT` in front of its operand. -/
  | not
  /-- Comparisons, `LIKE`, `IS NULL`, `IN` and `BETWEEN`. -/
  | comparison
  | additive
  | multiplicative
  /-- The minus sign, and `PRIOR`, in front of an operand. -/
  | negation
  deriving DecidableEq

namespace Level

def rank : Level → Nat
  | or => 1
  | and => 2
  | not => 3
  | comparison => 4
  | additive => 5
  | multiplicative => 6
  | negation => 7

def leftStrength (l : Level) : Nat :=
  2 * l.rank - 1

def rightStrength (l : Level) : Nat :=
  2 * l.rank

end Level

def BinaryOp.level : BinaryOp → Level
  | .or => .or
  | .and => .and
  | .eq | .notEq | .lt | .ltEq | .gt | .gtEq | .like => .comparison
  | .add | .sub | .concat => .additive
  | .mul | .div | .mod => .multiplicative

def UnaryOp.level : UnaryOp → Level
  | .neg => .negation
  | .not => .not

end SelectRouting
