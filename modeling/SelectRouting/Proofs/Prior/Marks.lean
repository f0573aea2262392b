import Mathlib.Data.List.Chain
import SelectRouting.Proofs.Precedence.Written
import SelectRouting.Proofs.Token.Order
/-!
# Marks

The marks among some tokens are the words `PRIOR`.  What an expression is written with opens with an operand, with any number
of marks in front of it (`Expr.Written.opens`).  It has no `SELECT` (`Expr.Written.ne_select`), and no marks at all where they
are not allowed (`Expr.Written.unmarked`).
-/
namespace SelectRouting

namespace Token

/-- The token is `PRIOR`. -/
def isPrior (t : Token) : Bool :=
  t.kind = .keyword .prior

theorem isPrior_iff {t : Token} : t.isPrior = true ↔ t.kind = .keyword .prior :=
  decide_eq_true_iff

theorem not_isPrior {t : Token} (h : t.kind ≠ .keyword .prior) : t.isPrior = false :=
  decide_eq_false h

/-! ## Without the marks -/

/-- Some tokens without the marks among them. -/
def unmark (ts : List Token) : List Token :=
  ts.filter fun t => !t.isPrior

/-- There is no mark among some tokens. -/
def Unmarked (ts : List Token) : Prop :=
  ∀ t ∈ ts, t.kind ≠ .keyword .prior

/-- No mark stands directly in front of a star. -/
def Unstarred (ts : List Token) : Prop :=
  ts.IsChain fun t u => t.kind = .keyword .prior → u.kind ≠ .star

section
variable {t : Token} {ts us : List Token}

@[simp] theorem unmark_nil : unmark [] = [] := rfl

theorem unmark_mark (h : t.kind = .keyword .prior) : unmark (t :: ts) = unmark ts := by
  rw [unmark, List.filter_cons_of_neg (by rw [isPrior_iff.2 h]; decide), ← unmark]

theorem unmark_cons (h : t.kind ≠ .keyword .prior) : unmark (t :: ts) = t :: unmark ts := by
  rw [unmark, List.filter_cons_of_pos (by rw [not_isPrior h]; rfl), ← unmark]

theorem unmark_append : unmark (ts ++ us) = unmark ts ++ unmark us :=
  List.filter_append ts us

theorem Unstarred.split (h : Unstarred (ts ++ us)) : Unstarred ts ∧ Unstarred us :=
  ⟨h.left_of_append, h.right_of_append⟩

theorem Unstarred.behind (h : Unstarred (t :: ts)) : Unstarred ts :=
  h.tail

/-- What is complete stays so without its marks. -/
theorem Complete.unmark (hne : us ≠ []) (h : Complete (ts ++ us)) : Complete (Token.unmark ts ++ us) := by
  induction ts with
  | nil => exact h
  | cons t ts ih =>
    rcases h with ⟨-, hnil⟩ | ⟨hk, h⟩
    · exact absurd (List.append_eq_nil_iff.1 hnil).2 hne
    · by_cases hprior : t.kind = .keyword .prior
      · rw [unmark_mark hprior]
        exact ih h
      · rw [unmark_cons hprior]
        exact .inr ⟨hk, ih h⟩

end

theorem Kind.keyword_ne {k : Keyword} (h : k ≠ .prior) : Kind.keyword k ≠ .keyword .prior ∧ Kind.keyword k ≠ .eof := by
  simp [h]

/-! ## Where an operand opens -/

/-- A kind that is looked for where an operand may stand, and that no operand begins with. -/
def Kind.awaited : Kind → Bool
  | .rightParen | .keyword .select | .keyword .distinct | .keyword .when | .keyword .prior => true
  | _ => false

theorem ne_of_not_awaited {k : Kind} (h : k.awaited = false) : k ≠ .keyword .select ∧ k ≠ .keyword .prior := by
  constructor
  all_goals
    rintro rfl
    cases h

theorem ne_prior {k : Kind} (h : k.awaited = false) : k ≠ .keyword .prior :=
  (ne_of_not_awaited h).2

/-- There is no query among some tokens, and a mark only where marks are allowed. -/
def Expressed (prior : Bool) (ts : List Token) : Prop :=
  ∀ t ∈ ts, t.kind ≠ .keyword .select ∧ (t.kind = .keyword .prior → prior = true)

section
variable {prior : Bool} {t : Token} {ts us : List Token}

@[simp] theorem expressed_nil : Expressed prior [] := nofun

@[simp] theorem expressed_cons : Expressed prior (t :: ts) ↔
    (t.kind ≠ .keyword .select ∧ (t.kind = .keyword .prior → prior = true)) ∧ Expressed prior ts :=
  List.forall_mem_cons

@[simp] theorem expressed_append : Expressed prior (ts ++ us) ↔ Expressed prior ts ∧ Expressed prior us :=
  List.forall_mem_append

end

/-- An operand opens some tokens, with any number of marks in front of it. -/
inductive Opens : List Token → Prop where
  | operand {t : Token} {ts : List Token} (first : t.kind.awaited = false) : Opens (t :: ts)
  | marked {t : Token} {ts : List Token} (mark : t.kind = .keyword .prior) (behind : Opens ts) : Opens (t :: ts)

namespace Opens

variable {t : Token} {ts us : List Token}

theorem append (h : Opens ts) : Opens (ts ++ us) := by
  induction h with
  | operand first => exact .operand first
  | marked mark _ ih => exact .marked mark ih

/-- Behind a mark the first token that is left begins the operand, and is no star. -/
theorem first_behind (h : Opens ts) (ht : t.kind = .keyword .prior) (hun : Unstarred (t :: ts)) :
    ∃ x us, unmark ts = x :: us ∧ x.kind.awaited = false ∧ x.kind ≠ .star := by
  induction h generalizing t with
  | @operand x us first => exact ⟨x, _, unmark_cons (ne_prior first), first, (List.isChain_cons_cons.1 hun).1 ht⟩
  | marked mark behind ih =>
    rw [unmark_mark mark]
    exact ih mark hun.behind

/-- The first token that is left begins the operand. -/
theorem first (h : Opens ts) : ∃ x us, unmark ts = x :: us ∧ x.kind.awaited = false := by
  induction h with
  | @operand x us first => exact ⟨x, _, unmark_cons (ne_prior first), first⟩
  | marked mark behind ih =>
    rw [unmark_mark mark]
    exact ih

end Opens

/-! ## Words -/

variable {t : Token}

theorem not_awaited_of_name? {name : String} (h : t.name? = some name) : t.kind.awaited = false := by
  rcases name?_eq_some.1 h with hk | ⟨k, hk, hreserved, -⟩
  · rw [hk]
    rfl
  · rw [hk]
    cases k <;> first | rfl | cases hreserved

theorem not_awaited_of_functionName? {name : String} (h : t.functionName? = some name) : t.kind.awaited = false := by
  rcases name_or_aggregate_of_functionName? h with hname | ⟨k, hk, haggregate, -⟩
  · exact not_awaited_of_name? hname
  · rw [hk]
    cases k <;> first | rfl | cases haggregate

end Token

theorem Literal.not_awaited (v : Literal) : v.kind.awaited = false := by
  cases v with
  | boolean b => cases b <;> rfl
  | _ => rfl

theorem UnaryOp.not_awaited (op : UnaryOp) : op.kind.awaited = false := by
  cases op <;> rfl

theorem BinaryOp.not_awaited (op : BinaryOp) : op.kind.awaited = false := by
  cases op <;> rfl

/-! ## What an expression is written with -/

namespace Expr

open Token (Expressed Marking Opens Unmarked ne_of_not_awaited)

/-- What an expression is written with opens with an operand. -/
theorem Written.opens {allowed : Bool} : ∀ {e : Expr} {ts : List Token}, Written allowed e ts → Opens ts
  | _, _, .literal word => .operand (word ▸ Literal.not_awaited _)
  | _, _, .column named => .operand (Token.not_awaited_of_name? named)
  | _, _, .qualified owned _ _ => .operand (Token.not_awaited_of_name? owned)
  | _, _, .placeholder mark => .operand (mark ▸ rfl)
  | _, _, .star mark => .operand (mark ▸ rfl)
  | _, _, .qualifiedStar owned _ _ => .operand (Token.not_awaited_of_name? owned)
  | _, _, .paren opening _ _ => .operand (opening ▸ rfl)
  | _, _, .unary word _ => .operand (word ▸ UnaryOp.not_awaited _)
  | _, _, .binary first _ _ => first.opens.append
  | _, _, .notLike first _ _ _ => first.opens.append
  | _, _, .call named _ _ _ _ => .operand (Token.not_awaited_of_functionName? named)
  | _, _, .isNull first _ _ _ => first.opens.append
  | _, _, .within first _ _ _ _ _ => first.opens.append
  | _, _, .between first _ _ _ _ _ => first.opens.append
  | _, _, .case word _ _ _ _ => .operand (word ▸ rfl)
  | _, _, .marked _ word operand => .marked word operand.opens

theorem expressed_marking {prior b : Bool} {k : Keyword} {ts : List Token} (h : Marking k b ts) (hselect : k ≠ .select)
    (hprior : k ≠ .prior) : Expressed prior ts := by
  cases h with
  | absent => exact Token.expressed_nil
  | present word => simp [word, hselect, hprior]

section
variable {prior : Bool}

mutual

/-- An expression is written without a `SELECT`, and without marks where they are not allowed. -/
theorem Written.expressed : ∀ {e : Expr} {ts : List Token}, Written prior e ts → Expressed prior ts
  | _, _, .literal word => by simp [word, ne_of_not_awaited (Literal.not_awaited _)]
  | _, _, .column named => by simp [ne_of_not_awaited (Token.not_awaited_of_name? named)]
  | _, _, .qualified owned point named => by
    simp [point, ne_of_not_awaited (Token.not_awaited_of_name? owned),
      ne_of_not_awaited (Token.not_awaited_of_name? named)]
  | _, _, .placeholder mark => by simp [mark]
  | _, _, .star mark => by simp [mark]
  | _, _, .qualifiedStar owned point mark => by
    simp [point, mark, ne_of_not_awaited (Token.not_awaited_of_name? owned)]
  | _, _, .paren opening inner closing => by simp [opening, closing, inner.expressed]
  | _, _, .unary word operand => by
    simp [word, ne_of_not_awaited (UnaryOp.not_awaited _), operand.expressed]
  | _, _, .binary first word second => by
    simp [word, ne_of_not_awaited (BinaryOp.not_awaited _), first.expressed, second.expressed]
  | _, _, .notLike first negation word second => by simp [negation, word, first.expressed, second.expressed]
  | _, _, .call named opening word listed closing => by
    simp [opening, closing, ne_of_not_awaited (Token.not_awaited_of_functionName? named),
      expressed_marking word nofun nofun, listed.expressed]
  | _, _, .isNull first word negation behind => by
    simp [word, behind, first.expressed, expressed_marking negation nofun nofun]
  | _, _, .within first negation word opening listed closing => by
    simp [word, opening, closing, first.expressed, expressed_marking negation nofun nofun, listed.expressed]
  | _, _, .between first negation word lower conjunction upper => by
    simp [word, conjunction, first.expressed, expressed_marking negation nofun nofun, lower.expressed, upper.expressed]
  | _, _, .case word compared branched last closing => by
    simp [word, closing, compared.expressed, branched.expressed, last.expressed]
  | _, _, .marked allowed word operand => Token.expressed_cons.2 ⟨⟨by simp [word], fun _ => allowed⟩, operand.expressed⟩

theorem WrittenList.expressed : ∀ {es : List Expr} {ts : List Token}, WrittenList prior es ts → Expressed prior ts
  | _, _, .nil => Token.expressed_nil
  | _, _, .single only => only.expressed
  | _, _, .cons first comma _ rest => by simp [comma, first.expressed, rest.expressed]

theorem WrittenOptional.expressed : ∀ {e : Option Expr} {ts : List Token}, WrittenOptional prior e ts → Expressed prior ts
  | _, _, .absent => Token.expressed_nil
  | _, _, .present inner => inner.expressed

theorem WrittenBranches.expressed : ∀ {bs : List (Expr × Expr)} {ts : List Token},
    WrittenBranches prior bs ts → Expressed prior ts
  | _, _, .nil => Token.expressed_nil
  | _, _, .cons word tested word' valued rest => by
    simp [word, word', tested.expressed, valued.expressed, rest.expressed]

theorem WrittenElse.expressed : ∀ {e : Option Expr} {ts : List Token}, WrittenElse prior e ts → Expressed prior ts
  | _, _, .absent => Token.expressed_nil
  | _, _, .present word inner => by simp [word, inner.expressed]

end

end

/-- Where marks are not allowed there are none. -/
theorem Written.unmarked {e : Expr} {ts : List Token} (h : Written false e ts) : Unmarked ts :=
  fun t ht hk => nomatch (h.expressed t ht).2 hk

/-- No expression has a query in it. -/
theorem Written.ne_select {prior : Bool} {e : Expr} {ts : List Token} (h : Written prior e ts) :
    ∀ t ∈ ts, t.kind ≠ .keyword .select :=
  fun t ht => (h.expressed t ht).1

end Expr

end SelectRouting
