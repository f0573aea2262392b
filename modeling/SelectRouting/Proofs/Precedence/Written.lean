import SelectRouting.Grammar.Expression
import SelectRouting.Proofs.Condition
import SelectRouting.Proofs.Trace.Run
/-!
# How an expression is written

The tokens that an expression is written with, one constructor for each way to write a node (`Written`), and what its
operators ask of their operands: a left operand binds as tightly as its operator or ends without an operand of its own, a
right one binds tighter or is a `NOT` (`Grouped`).
-/
namespace SelectRouting

/-! ## Words -/

/-- The kind of the token that a constant is written as. -/
def Literal.kind : Literal → Token.Kind
  | .integer n => .integer n
  | .float x => .float x
  | .string s => .string s
  | .boolean true => .keyword .trueLiteral
  | .boolean false => .keyword .falseLiteral
  | .null => .keyword .null

def BinaryOp.kind : BinaryOp → Token.Kind
  | .or => .keyword .or
  | .and => .keyword .and
  | .eq => .eq
  | .notEq => .notEq
  | .lt => .lt
  | .ltEq => .ltEq
  | .gt => .gt
  | .gtEq => .gtEq
  | .like => .keyword .like
  | .add => .plus
  | .sub => .minus
  | .concat => .concat
  | .mul => .star
  | .div => .slash
  | .mod => .percent

def UnaryOp.kind : UnaryOp → Token.Kind
  | .neg => .minus
  | .not => .keyword .not

theorem Level.rank_pos (l : Level) : 0 < l.rank := by
  cases l <;> decide

/-- The keywords that are read as functions, under their names in upper case. -/
def Keyword.isAggregate : Keyword → Bool
  | .count | .sum | .avg | .min | .max => true
  | _ => false

/-- The name of the function that a token calls. -/
def Token.functionName? (t : Token) : Option String :=
  match t.kind with
  | .keyword k => if k.isAggregate then some k.text else t.name?
  | _ => t.name?

/-- What calls a function is its name or the word of an aggregate. -/
theorem Token.name_or_aggregate_of_functionName? {t : Token} {name : String} (h : t.functionName? = some name) :
    t.name? = some name ∨ ∃ k, t.kind = .keyword k ∧ k.isAggregate = true ∧ k.text = name := by
  unfold functionName? at h
  split at h
  · next k hk =>
    split at h
    · next haggregate => exact .inr ⟨k, hk, haggregate, Option.some.inj h⟩
    · exact .inl h
  · exact .inl h

/-! ## Tokens of an expression -/

/-- A keyword that is there or not. -/
inductive Token.Marking (k : Keyword) : Bool → List Token → Prop where
  | absent : Marking k false []
  | present {t : Token} (word : t.kind = .keyword k) : Marking k true [t]

namespace Expr

open Token (Marking)

mutual

/-- The tokens of an expression.  The flag says whether an operand may be marked `PRIOR`. -/
inductive Written (prior : Bool) : Expr → List Token → Prop where
  | literal {v : Literal} {t : Token} (word : t.kind = v.kind) : Written prior (.literal v) [t]
  | column {name : String} {span : Span} {t : Token} (named : t.name? = some name) :
    Written prior (.column none name span) [t]
  | qualified {owner name : String} {span : Span} {o dot t : Token} (owned : o.name? = some owner)
    (point : dot.kind = .dot) (named : t.name? = some name) : Written prior (.column (some owner) name span) [o, dot, t]
  | placeholder {ordinal : Nat} {span : Span} {t : Token} (mark : t.kind = .question) :
    Written prior (.placeholder ordinal span) [t]
  | star {t : Token} (mark : t.kind = .star) : Written prior (.wildcard none) [t]
  | qualifiedStar {owner : String} {o dot t : Token} (owned : o.name? = some owner) (point : dot.kind = .dot)
    (mark : t.kind = .star) : Written prior (.wildcard (some owner)) [o, dot, t]
  | paren {e : Expr} {l r : Token} {ts : List Token} (opening : l.kind = .leftParen) (inner : Written prior e ts)
    (closing : r.kind = .rightParen) : Written prior (.paren e) (l :: ts ++ [r])
  | unary {op : UnaryOp} {e : Expr} {t : Token} {ts : List Token} (word : t.kind = op.kind)
    (operand : Written prior e ts) : Written prior (.unary op e) (t :: ts)
  | binary {op : BinaryOp} {left right : Expr} {t : Token} {ts us : List Token} (first : Written prior left ts)
    (word : t.kind = op.kind) (second : Written prior right us) : Written prior (.binary op left right) (ts ++ t :: us)
  | notLike {left right : Expr} {n t : Token} {ts us : List Token} (first : Written prior left ts)
    (negation : n.kind = .keyword .not) (word : t.kind = .keyword .like) (second : Written prior right us) :
    Written prior (.unary .not (.binary .like left right)) (ts ++ n :: t :: us)
  | call {name : String} {distinct : Bool} {args : List Expr} {f l r : Token} {ds ts : List Token}
    (named : f.functionName? = some name) (opening : l.kind = .leftParen) (marked : Marking .distinct distinct ds)
    (arguments : WrittenList prior args ts) (closing : r.kind = .rightParen) :
    Written prior (.call name distinct args) (f :: l :: (ds ++ (ts ++ [r])))
  | isNull {tested : Expr} {negated : Bool} {t null : Token} {ts ns : List Token} (first : Written prior tested ts)
    (word : t.kind = .keyword .is) (marked : Marking .not negated ns) (behind : null.kind = .keyword .null) :
    Written prior (.isNull tested negated) (ts ++ t :: (ns ++ [null]))
  | within {tested : Expr} {members : List Expr} {negated : Bool} {t l r : Token} {ts ns us : List Token}
    (first : Written prior tested ts) (marked : Marking .not negated ns) (word : t.kind = .keyword .in)
    (opening : l.kind = .leftParen) (listed : WrittenList prior members us) (closing : r.kind = .rightParen) :
    Written prior (.within tested members negated) (ts ++ (ns ++ t :: l :: (us ++ [r])))
  | between {tested low high : Expr} {negated : Bool} {t a : Token} {ts ns us vs : List Token}
    (first : Written prior tested ts) (marked : Marking .not negated ns) (word : t.kind = .keyword .between)
    (lower : Written prior low us) (conjunction : a.kind = .keyword .and) (upper : Written prior high vs) :
    Written prior (.between tested low high negated) (ts ++ (ns ++ t :: (us ++ a :: vs)))
  | case {operand : Option Expr} {branches : List (Expr × Expr)} {otherwise : Option Expr} {c e : Token}
    {ts us vs : List Token} (word : c.kind = .keyword .case) (compared : WrittenOptional prior operand ts)
    (branched : WrittenBranches prior branches us) (last : WrittenElse prior otherwise vs)
    (closing : e.kind = .keyword .end) : Written prior (.case operand branches otherwise) (c :: (ts ++ (us ++ (vs ++ [e]))))
  | marked {e : Expr} {t : Token} {ts : List Token} (allowed : prior = true) (word : t.kind = .keyword .prior)
    (operand : Written prior e ts) : Written prior e (t :: ts)

/-- Expressions with commas between them. -/
inductive WrittenList (prior : Bool) : List Expr → List Token → Prop where
  | nil : WrittenList prior [] []
  | single {e : Expr} {ts : List Token} (only : Written prior e ts) : WrittenList prior [e] ts
  | cons {e : Expr} {es : List Expr} {t : Token} {ts us : List Token} (first : Written prior e ts)
    (comma : t.kind = .comma) (filled : es ≠ []) (rest : WrittenList prior es us) :
    WrittenList prior (e :: es) (ts ++ t :: us)

/-- An expression that is there or not. -/
inductive WrittenOptional (prior : Bool) : Option Expr → List Token → Prop where
  | absent : WrittenOptional prior none []
  | present {e : Expr} {ts : List Token} (inner : Written prior e ts) : WrittenOptional prior (some e) ts

/-- The branches of a `CASE`. -/
inductive WrittenBranches (prior : Bool) : List (Expr × Expr) → List Token → Prop where
  | nil : WrittenBranches prior [] []
  | cons {condition value : Expr} {bs : List (Expr × Expr)} {w t : Token} {ts us vs : List Token}
    (word : w.kind = .keyword .when) (tested : Written prior condition ts) (word' : t.kind = .keyword .then)
    (valued : Written prior value us) (rest : WrittenBranches prior bs vs) :
    WrittenBranches prior ((condition, value) :: bs) (w :: (ts ++ t :: (us ++ vs)))

/-- The end of a `CASE`. -/
inductive WrittenElse (prior : Bool) : Option Expr → List Token → Prop where
  | absent : WrittenElse prior none []
  | present {e : Expr} {t : Token} {ts : List Token} (word : t.kind = .keyword .else) (inner : Written prior e ts) :
    WrittenElse prior (some e) (t :: ts)

end

/-! ## Operands -/

/-- How tightly the topmost operator binds.  A `NOT` over a `LIKE` may be one comparison, and what has no operator binds
tightest. -/
def rank : Expr → Nat
  | .binary op _ _ => op.level.rank
  | .unary .not (.binary .like _ _) => Level.comparison.rank
  | .unary op _ => op.level.rank
  | .isNull .. | .within .. | .between .. => Level.comparison.rank
  | .literal _ | .column .. | .call .. | .case .. | .paren _ | .placeholder .. | .wildcard _ => Level.negation.rank + 1

theorem level_le_rank_unary (op : UnaryOp) (e : Expr) : op.level.rank ≤ (unary op e).rank := by
  unfold rank
  split
  case h_2 h =>
    cases h
    decide
  case h_3 h =>
    cases h
    exact Nat.le_refl _
  all_goals contradiction

/-- A test that ends without an operand on its right. -/
def Closed : Expr → Prop
  | .isNull .. | .within .. => True
  | _ => False

def Negation : Expr → Prop
  | .unary .not _ => True
  | _ => False

/-- What may stand on the left of an operator. -/
def FitsLeft (l : Level) (e : Expr) : Prop :=
  l.rank ≤ e.rank ∨ e.Closed

/-- What may stand on the right of an operator. -/
def FitsRight (l : Level) (e : Expr) : Prop :=
  l.rank < e.rank ∨ e.Negation

/-- The operands of the topmost operator fit. -/
def OperandsFit : Expr → Prop
  | .binary op left right => left.FitsLeft op.level ∧ right.FitsRight op.level
  | .isNull tested _ | .within tested _ _ => tested.FitsLeft .comparison
  | .between tested low high _ => tested.FitsLeft .comparison ∧ low.FitsRight .comparison ∧ high.FitsRight .comparison
  | _ => True

/-- All operands fit. -/
def Grouped (e : Expr) : Prop :=
  ∀ n ∈ e.nodes, n.OperandsFit

theorem grouped_of_children {e : Expr} (he : e.OperandsFit) (hchildren : ∀ c ∈ e.children, c.Grouped) : e.Grouped :=
  forall_mem_nodes he hchildren

end Expr

end SelectRouting
