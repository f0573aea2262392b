import SelectRouting.Dialect
import SelectRouting.Proofs.Token.Closing
/-!
# Walks through parentheses

A parser walks through the tokens of a text and goes up and down with the parentheses.  Most tokens may stand at any
depth (`Kind.common`); those that open or end a part of the statement stand outside of all parentheses, unless in a
region that a dialect does not look into.  Main statements: what a walk leaves outside of all parentheses is common
(`Walk.common_of_mem_outside`), so it adds nothing to the landmarks of a text (`Marked.of_walk`), and a region that is
closed is a walk (`Cursor.walk_leaveRegion`).
-/
namespace SelectRouting

namespace Token

/-! ## Kinds -/

namespace Kind

/-- Of a token that can stand in every clause.  The others are the parentheses, the end of a statement, the words
between two statements, and the words that open a statement or its pagination. -/
def common : Kind → Bool
  | .leftParen | .rightParen | .semicolon | .eof | .error _ => false
  | .keyword .select | .keyword .union | .keyword .intersect | .keyword .except | .keyword .minus => false
  | .keyword .top | .keyword .offset | .keyword .fetch => false
  | _ => true

/-- Neither a parenthesis nor the end of the input. -/
def level : Kind → Bool
  | .leftParen | .rightParen | .eof => false
  | _ => true

theorem level_of_common {k : Kind} (h : k.common = true) : k.level = true := by
  cases k <;> first | rfl | cases h

/-- A word that can be a name is common. -/
theorem common_of_not_reserved {k : Keyword} (h : k.reserved = false) : (keyword k).common = true := by
  cases k <;> first | rfl | cases h

end Kind

/-! ## Outside of all parentheses -/

/-- The tokens outside of all parentheses, from a depth on. -/
def outsideFrom : Nat → List Token → List Token
  | _, [] => []
  | n, t :: ts =>
    match t.kind, n with
    | .leftParen, n => outsideFrom (n + 1) ts
    | .rightParen, n => outsideFrom (n - 1) ts
    | _, 0 => t :: outsideFrom 0 ts
    | _, n + 1 => outsideFrom (n + 1) ts

section
variable {t : Token}

theorem outsideFrom_opening (h : t.kind = .leftParen) (n : Nat) (ts : List Token) :
    outsideFrom n (t :: ts) = outsideFrom (n + 1) ts := by
  simp [outsideFrom, h]

theorem outsideFrom_closing (h : t.kind = .rightParen) (n : Nat) (ts : List Token) :
    outsideFrom (n + 1) (t :: ts) = outsideFrom n ts := by
  simp [outsideFrom, h]

theorem outsideFrom_zero (h : t.kind.level = true) (ts : List Token) :
    outsideFrom 0 (t :: ts) = t :: outsideFrom 0 ts := by
  conv => lhs; unfold outsideFrom
  split <;> simp_all [Kind.level]

theorem outsideFrom_succ (h : t.kind.level = true) (n : Nat) (ts : List Token) :
    outsideFrom (n + 1) (t :: ts) = outsideFrom (n + 1) ts := by
  conv => lhs; unfold outsideFrom
  split <;> simp_all [Kind.level]

end

/-- The tokens of a text that stand outside of all parentheses. -/
def outside (source : String) : List Token :=
  outsideFrom 0 (lex source)

/-- A word stands in a text outside of all parentheses. -/
def Stands (source : String) (k : Keyword) : Prop :=
  ∃ t ∈ outside source, t.kind = .keyword k

/-! ## Walks -/

/-- What a dialect passes at a depth: common tokens, and in a region that it does not look into any others. -/
def Passable (d : Dialect) (n : Nat) (t : Token) : Prop :=
  t.kind.common = true ∨ (d ≠ .generic ∧ 0 < n ∧ t.kind.level = true)

theorem Passable.level {d : Dialect} {n : Nat} {t : Token} (h : Passable d n t) : t.kind.level = true := by
  rcases h with h | ⟨-, -, h⟩
  · exact Kind.level_of_common h
  · exact h

/-- Some tokens lead from one depth of parentheses to another. -/
inductive Walk (d : Dialect) : Nat → List Token → Nat → Prop where
  | nil {n : Nat} : Walk d n [] n
  | pass {n m : Nat} {t : Token} {ts : List Token} (head : Passable d n t) (tail : Walk d n ts m) : Walk d n (t :: ts) m
  | opening {n m : Nat} {t : Token} {ts : List Token} (head : t.kind = .leftParen) (tail : Walk d (n + 1) ts m) :
    Walk d n (t :: ts) m
  | closing {n m : Nat} {t : Token} {ts : List Token} (head : t.kind = .rightParen) (tail : Walk d n ts m) :
    Walk d (n + 1) (t :: ts) m

namespace Walk

variable {d : Dialect} {n m k : Nat} {ts us : List Token}

theorem append (h : Walk d n ts m) (h' : Walk d m us k) : Walk d n (ts ++ us) k := by
  induction h with
  | nil => exact h'
  | pass head _ ih => exact .pass head (ih h')
  | opening head _ ih => exact .opening head (ih h')
  | closing head _ ih => exact .closing head (ih h')

theorem outside_append (h : Walk d n ts m) (us : List Token) :
    outsideFrom n (ts ++ us) = outsideFrom n ts ++ outsideFrom m us := by
  induction h with
  | nil => rfl
  | @pass n m t ts head _ ih =>
    cases n with
    | zero => rw [List.cons_append, outsideFrom_zero head.level, outsideFrom_zero head.level, ih, List.cons_append]
    | succ n => rw [List.cons_append, outsideFrom_succ head.level, outsideFrom_succ head.level, ih]
  | opening head _ ih => rw [List.cons_append, outsideFrom_opening head, outsideFrom_opening head, ih]
  | closing head _ ih => rw [List.cons_append, outsideFrom_closing head, outsideFrom_closing head, ih]

/-- Outside of all parentheses there are only common tokens. -/
theorem common_of_mem_outside (h : Walk d n ts m) : ∀ t ∈ outsideFrom n ts, t.kind.common = true := by
  induction h with
  | nil => exact fun _ h => absurd h List.not_mem_nil
  | @pass n m t ts head _ ih =>
    cases n with
    | zero =>
      have hcommon : t.kind.common = true := by
        rcases head with h | ⟨-, h, -⟩
        · exact h
        · exact absurd h (Nat.lt_irrefl 0)
      rw [outsideFrom_zero head.level]
      exact List.forall_mem_cons.2 ⟨hcommon, ih⟩
    | succ n =>
      rw [outsideFrom_succ head.level]
      exact ih
  | opening head _ ih =>
    rw [outsideFrom_opening head]
    exact ih
  | closing head _ ih =>
    rw [outsideFrom_closing head]
    exact ih

/-- A walk that looks into every region passes common tokens and parentheses. -/
theorem common_of_mem {t : Token} (h : Walk .generic n ts m) (ht : t ∈ ts) :
    t.kind.common = true ∨ t.kind = .leftParen ∨ t.kind = .rightParen := by
  induction h with
  | nil => exact absurd ht List.not_mem_nil
  | pass head _ ih =>
    rcases List.mem_cons.1 ht with rfl | ht
    · rcases head with hcommon | ⟨hd, -⟩
      · exact .inl hcommon
      · exact absurd rfl hd
    · exact ih ht
  | opening head _ ih =>
    rcases List.mem_cons.1 ht with rfl | ht
    · exact .inr (.inl head)
    · exact ih ht
  | closing head _ ih =>
    rcases List.mem_cons.1 ht with rfl | ht
    · exact .inr (.inr head)
    · exact ih ht

theorem ne_of_mem {t : Token} {k : Kind} (h : Walk .generic n ts m) (ht : t ∈ ts) (hcommon : k.common = false)
    (hl : k ≠ .leftParen) (hr : k ≠ .rightParen) : t.kind ≠ k := by
  rintro rfl
  rcases h.common_of_mem ht with h | h | h
  · exact absurd (hcommon.symm.trans h) Bool.false_ne_true
  · exact hl h
  · exact hr h

end Walk

/-! ## Landmarks -/

/-- The word that a kind is, if it is not a common one. -/
def Kind.landmark? : Kind → Option Keyword
  | .keyword k => if (keyword k).common then none else some k
  | _ => none

theorem Kind.landmark?_of_common {k : Kind} (h : k.common = true) : k.landmark? = none := by
  unfold landmark?
  split
  · rw [if_pos h]
  · rfl

/-- The words outside of all parentheses that open a statement or its pagination, or stand between two statements. -/
def landmarks (ts : List Token) : List Keyword :=
  (outsideFrom 0 ts).filterMap (·.kind.landmark?)

theorem stands_iff {source : String} {k : Keyword} (hk : (Kind.keyword k).common = false) :
    Stands source k ↔ k ∈ landmarks (lex source) := by
  unfold Stands outside landmarks
  rw [List.mem_filterMap]
  constructor
  · rintro ⟨t, ht, hkind⟩
    refine ⟨t, ht, ?_⟩
    simp [hkind, Kind.landmark?, hk]
  · rintro ⟨t, ht, hmark⟩
    refine ⟨t, ht, ?_⟩
    unfold Kind.landmark? at hmark
    split at hmark
    · next hkind =>
      split at hmark
      · cases hmark
      · rw [hkind, Option.some.inj hmark]
    · cases hmark

/-- Tokens with the given landmarks, whatever follows them; behind them all parentheses are closed. -/
def Marked (ts : List Token) (ks : List Keyword) : Prop :=
  ∀ us, landmarks (ts ++ us) = ks ++ landmarks us

namespace Marked

variable {d : Dialect} {ts us : List Token} {ks ls : List Keyword}

theorem nil : Marked [] [] :=
  fun _ => rfl

theorem append (h : Marked ts ks) (h' : Marked us ls) : Marked (ts ++ us) (ks ++ ls) := by
  intro vs
  rw [List.append_assoc, h, h', List.append_assoc]

/-- A walk from outside to outside passes no landmark. -/
theorem of_walk (h : Walk d 0 ts 0) : Marked ts [] := by
  intro us
  have hnone : (outsideFrom 0 ts).filterMap (·.kind.landmark?) = [] :=
    List.filterMap_eq_nil_iff.2 fun t ht => Kind.landmark?_of_common (h.common_of_mem_outside t ht)
  rw [landmarks, h.outside_append, List.filterMap_append, hnone]
  rfl

theorem keyword {t : Token} {k : Keyword} (hk : t.kind = .keyword k) (hcommon : (Kind.keyword k).common = false)
    (h : Marked ts ks) : Marked (t :: ts) (k :: ks) := by
  intro us
  have hlevel : t.kind.level = true := by rw [hk]; rfl
  have hmark : t.kind.landmark? = some k := by simp [hk, Kind.landmark?, hcommon]
  rw [List.cons_append, landmarks, outsideFrom_zero hlevel, List.filterMap_cons, hmark]
  exact congrArg (k :: ·) (h us)

end Marked

end Token

/-! ## Regions -/

namespace Cursor

open Token (Walk)

variable {d : Dialect}

/-- Up to the parenthesis that closes a region, the tokens lead to the depth of what is around it. -/
theorem Inside.walk (hd : d ≠ .generic) (n : Nat) {depth : Nat} {region : List Token} (h : Inside depth region)
    {close : Token} (hclose : close.kind = .rightParen) : Walk d (n + depth + 1) (region ++ [close]) n := by
  induction h with
  | nil => exact .closing hclose .nil
  | opening head _ ih => exact .opening head ih
  | closing head _ ih => exact .closing head ih
  | @pass depth t _ left right inner _ ih =>
    have hlevel : t.kind.level = true := by
      unfold Token.Kind.level
      split <;> first | contradiction | rfl
    exact .pass (.inr ⟨hd, Nat.succ_pos _, hlevel⟩) ih

/-- Behind a region that is closed, the tokens lead to the depth of what is around it. -/
theorem walk_leaveRegion (hd : d ≠ .generic) (n : Nat) {c : Cursor} (hc : Token.Complete c.tokens) {close : Token}
    (h : c.leaveRegion.1 = some close) :
    ∃ region, c.tokens = region ++ c.leaveRegion.2.tokens ∧ Walk d (n + 1) region n := by
  rcases (leaveRegion_cases hc).2 with ⟨region, close, -, hclose, hinside, hts⟩ | ⟨hnone, -⟩
  · refine ⟨region ++ [close], ?_, hinside.walk hd n hclose⟩
    rw [List.append_assoc]
    exact hts
  · cases hnone.symm.trans h

end Cursor

end SelectRouting
