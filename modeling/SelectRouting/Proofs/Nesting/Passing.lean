import SelectRouting.Proofs.Nesting.Walk
import SelectRouting.Proofs.Trace.Step
/-!
# Parsers that walk

What a parser passes when it ends with a value (`Passes`).  Nearly all parsers walk from one depth of parentheses to
another and leave alone what a statement records of its pagination (`Walks`); there is a rule for each of the steps
that parsers are made of, and one for the loop over items with commas between them (`Walks.commaSeparated`).
-/
namespace SelectRouting

/-! ## The record of the pagination -/

namespace Edit

/-- The number that an edit of the row count replaces. -/
def rowCount? : Edit → Option Nat
  | .rowCount _ v => some v
  | _ => none

/-- The number that an edit of the offset replaces. -/
def offset? : Edit → Option Nat
  | .offset _ v => some v
  | _ => none

section
variable {β : Type} {f : Edit → Option β} {e : Edit} {es : List Edit}

theorem filterMap_insert_of_nil (h : es.filterMap f = []) : (insert e es).filterMap f = (f e).toList := by
  have hperm := (insert_perm e es).filterMap f
  rw [List.filterMap_cons, h] at hperm
  cases hf : f e with
  | none =>
    rw [hf] at hperm
    exact hperm.eq_nil
  | some b =>
    rw [hf] at hperm
    exact List.perm_singleton.1 hperm

end

end Edit

namespace Statement

/-- What a statement records of its pagination: the limit, and the numbers of its edits. -/
structure Pagination where
  limit : Option Limit
  rowCounts : List Nat
  offsets : List Nat

def pagination (s : Statement) : Pagination :=
  ⟨s.limit, s.edits.filterMap Edit.rowCount?, s.edits.filterMap Edit.offset?⟩

theorem pagination_addEdit_table (s : Statement) (start : Nat) (written : String) :
    (s.addEdit (.table start written)).pagination = s.pagination := by
  rw [pagination, addEdit, Edit.filterMap_insert_of_none rfl, Edit.filterMap_insert_of_none rfl]
  rfl

end Statement

namespace Grammar

open Token (Walk)

variable {d : Dialect} {s : State} {α β : Type}

/-! ## Passing tokens -/

/-- With a value, a parser has passed some tokens, and `Q` holds of them and of the state behind them. -/
def Passes (s : State) (p : Parser α) (Q : α → List Token → State → Prop) : Prop :=
  Token.Complete s.cursor.tokens → ∀ a s', p s = .ok a s' → ∃ ts, s.cursor.tokens = ts ++ s'.cursor.tokens ∧ Q a ts s'

namespace Passes

variable {p : Parser α} {f : α → Parser β} {Q : α → List Token → State → Prop} {R : β → List Token → State → Prop}

theorem mono {Q' : α → List Token → State → Prop} (h : Passes s p Q) (hQ : ∀ a ts s', Q a ts s' → Q' a ts s') :
    Passes s p Q' := by
  intro hs a s' hr
  obtain ⟨ts, hts, hq⟩ := h hs a s' hr
  exact ⟨ts, hts, hQ a ts s' hq⟩

/-- What is passed stands in front of what is left. -/
theorem withTokens (h : Passes s p Q) :
    Passes s p fun a ts s' => Q a ts s' ∧ s.cursor.tokens = ts ++ s'.cursor.tokens := by
  intro hs a s' hr
  obtain ⟨ts, hts, hq⟩ := h hs a s' hr
  exact ⟨ts, hts, hq, hts⟩

theorem pure {a : α} (h : Q a [] s) : Passes s (Pure.pure a) Q := by
  intro _ b s' hr
  cases hr
  exact ⟨[], rfl, h⟩

theorem bind (hp : Passes s p Q) (hf : ∀ a ts s', Q a ts s' → Passes s' (f a) fun b us => R b (ts ++ us)) :
    Passes s (p >>= f) R := by
  intro hs b s'' h
  rw [bind_apply] at h
  cases hr : p s with
  | error e s' =>
    rw [hr] at h
    cases h
  | ok a s' =>
    rw [hr] at h
    obtain ⟨ts, hts, hq⟩ := hp hs a s' hr
    obtain ⟨us, hus, hr⟩ := hf a ts s' hq (.of_append (List.cons_ne_nil _ _) (hts ▸ hs)) b s'' h
    exact ⟨ts ++ us, by rw [hts, hus, List.append_assoc], hr⟩

theorem fail {cause : ParseError.Cause} {span : Span} : Passes s (Grammar.fail cause span) Q :=
  fun _ _ _ hr => nomatch hr

theorem unexpected {expected : String} : Passes s (Grammar.unexpected expected) Q :=
  fun _ _ _ hr => nomatch hr

theorem unsupported {construct : String} : Passes s (Grammar.unsupported construct) Q :=
  fun _ _ _ hr => nomatch hr

theorem inspect_bind {look? : State → α} (h : Passes s (f (look? s)) R) : Passes s (inspect look? >>= f) R :=
  h

theorem look_bind {look? : Cursor → α} (h : Passes s (f (look? s.cursor)) R) : Passes s (look look? >>= f) R :=
  h

/-- Passing a token in front of a parser. -/
theorem step (hk : s.cursor.kind ≠ .eof) (h : Passes s.advanced p fun a ts => Q a (s.cursor.current :: ts))
    (hs : Token.Complete s.cursor.tokens) (a : α) (s' : State) (hr : p s.advanced = .ok a s') :
    ∃ ts, s.cursor.tokens = ts ++ s'.cursor.tokens ∧ Q a ts s' := by
  obtain ⟨ts, hts, hq⟩ := h (Cursor.complete_advance hs) a s' hr
  refine ⟨s.cursor.current :: ts, ?_, hq⟩
  rw [Cursor.tokens_advance hs hk, List.cons_append]
  exact congrArg _ hts

theorem advance_bind {g : Unit → Parser β} (hk : s.cursor.kind ≠ .eof)
    (h : Passes s.advanced (g ()) fun b ts => R b (s.cursor.current :: ts)) : Passes s (advance >>= g) R :=
  step hk h

theorem skipWhen_bind {test : Cursor → Bool} {g : Bool → Parser β} (hk : test s.cursor = true → s.cursor.kind ≠ .eof)
    (htrue : test s.cursor = true → Passes s.advanced (g true) fun b ts => R b (s.cursor.current :: ts))
    (hfalse : test s.cursor = false → Passes s (g false) R) : Passes s (skipWhen test >>= g) R := by
  rw [Grammar.skipWhen_bind]
  refine look_bind ?_
  cases ht : test s.cursor with
  | false => exact hfalse ht
  | true => exact advance_bind (hk ht) (htrue ht)

theorem skip_bind {k : Token.Kind} {g : Bool → Parser β} (hk : k.Bare) (hne : k ≠ .eof)
    (htrue : s.cursor.kind = k → Passes s.advanced (g true) fun b ts => R b (s.cursor.current :: ts))
    (hfalse : Passes s (g false) R) : Passes s (skip k >>= g) R :=
  skipWhen_bind (fun h => Token.Kind.eq_of_alike h hk ▸ hne) (fun h => htrue (Token.Kind.eq_of_alike h hk))
    fun _ => hfalse

theorem skipKeyword_bind {k : Keyword} {g : Bool → Parser β}
    (htrue : s.cursor.kind = .keyword k → Passes s.advanced (g true) fun b ts => R b (s.cursor.current :: ts))
    (hfalse : s.cursor.kind ≠ .keyword k → Passes s (g false) R) : Passes s (skipKeyword k >>= g) R := by
  refine skipWhen_bind (fun h => Cursor.kind_of_atKeyword h ▸ nofun) (fun h => htrue (Cursor.kind_of_atKeyword h))
    fun h => hfalse fun hk => ?_
  rw [Cursor.atKeyword, Cursor.keyword?, hk] at h
  simp [Token.Kind.keyword?] at h

theorem skipAny_bind {ks : List Keyword} {g : Bool → Parser β}
    (htrue : (∃ k ∈ ks, s.cursor.kind = .keyword k) →
      Passes s.advanced (g true) fun b ts => R b (s.cursor.current :: ts))
    (hfalse : Passes s (g false) R) : Passes s (skipAny ks >>= g) R := by
  refine skipWhen_bind (fun h => ?_) (fun h => htrue (Cursor.exists_kind_of_atAny h)) fun _ => hfalse
  obtain ⟨k, -, hk⟩ := Cursor.exists_kind_of_atAny h
  exact hk ▸ nofun

theorem modify {put : Statement → Statement} {T : Unit → List Token → State → Prop}
    (h : T () [] { s with statement := put s.statement }) : Passes s (modifyStatement put) T := by
  intro _ a s' hr
  cases hr
  exact ⟨[], rfl, h⟩

theorem unexpected_bind {expected : String} : Passes s (Grammar.unexpected expected >>= f) R :=
  (unexpected (Q := fun _ _ _ => False)).bind fun _ _ _ h => h.elim

theorem expect_bind {k : Token.Kind} {g : Span → Parser β} (hk : k.Bare) (hne : k ≠ .eof)
    (h : s.cursor.kind = k → Passes s.advanced (g s.cursor.span) fun b ts => R b (s.cursor.current :: ts)) :
    Passes s (expect k >>= g) R := by
  unfold expect
  rw [bind_assoc]
  refine look_bind ?_
  rw [bind_assoc]
  exact skip_bind hk hne h unexpected_bind

theorem expectKeyword_bind {k : Keyword} {g : Span → Parser β}
    (h : s.cursor.kind = .keyword k →
      Passes s.advanced (g s.cursor.span) fun b ts => R b (s.cursor.current :: ts)) :
    Passes s (expectKeyword k >>= g) R := by
  unfold expectKeyword
  rw [bind_assoc]
  refine look_bind ?_
  rw [bind_assoc]
  exact skipKeyword_bind h fun _ => unexpected_bind

theorem expectName_bind {g : String → Parser β} (h : ∀ name, s.cursor.name? = some name →
    Passes s.advanced (g name) fun b ts => R b (s.cursor.current :: ts)) : Passes s (expectName >>= g) R := by
  intro hs b s' hr
  rw [bind_apply] at hr
  cases hn : s.cursor.name? with
  | none =>
    rw [expectName_of_none hn] at hr
    cases hr
  | some name =>
    rw [expectName_of_some hn] at hr
    exact step (Cursor.ordinary_of_name? hn).2 (h name hn) hs b s' hr

end Passes

/-! ## Walking -/

/-- From a state, a parser walks from one depth to another and leaves the pagination alone. -/
def WalksAt (d : Dialect) (s : State) (n : Nat) (p : Parser α) (m : Nat) : Prop :=
  Passes s p fun _ ts s' => Walk d n ts m ∧ s'.statement.pagination = s.statement.pagination

/-- From every state. -/
def Walks (d : Dialect) (n : Nat) (p : Parser α) (m : Nat) : Prop :=
  ∀ s, WalksAt d s n p m

variable {n m k : Nat} {p : Parser α} {f : α → Parser β}

/-- A walk that begins with the current token. -/
theorem walk_current {kind : Token.Kind} {ts : List Token} (hk : s.cursor.kind = kind) (hcommon : kind.common = true)
    (tail : Walk d n ts m) : Walk d n (s.cursor.current :: ts) m := by
  subst hk
  exact .pass (.inl hcommon) tail

theorem WalksAt.bind (hp : WalksAt d s n p m) (hf : ∀ a, Walks d m (f a) k) : WalksAt d s n (p >>= f) k :=
  Passes.bind hp fun a _ s' h => (hf a s').mono fun _ _ _ h' => ⟨h.1.append h'.1, h'.2.trans h.2⟩

theorem WalksAt.advance_bind {g : Unit → Parser β} (hk : s.cursor.kind.common = true) (hg : Walks d n (g ()) m) :
    WalksAt d s n (advance >>= g) m := by
  have hne : s.cursor.kind ≠ .eof := fun h => by
    rw [h] at hk
    cases hk
  exact Passes.advance_bind hne ((hg s.advanced).mono fun _ _ _ h => ⟨walk_current rfl hk h.1, h.2⟩)

theorem WalksAt.opening_bind {g : Unit → Parser β} (hk : s.cursor.kind = .leftParen) (hg : Walks d (n + 1) (g ()) m) :
    WalksAt d s n (advance >>= g) m :=
  Passes.advance_bind (by rw [hk]; exact nofun) ((hg s.advanced).mono fun _ _ _ h => ⟨.opening hk h.1, h.2⟩)

namespace Walks

theorem pure {a : α} : Walks d n (Pure.pure a) n :=
  fun _ => .pure ⟨.nil, rfl⟩

theorem bind (hp : Walks d n p m) (hf : ∀ a, Walks d m (f a) k) : Walks d n (p >>= f) k :=
  fun s => (hp s).bind hf

theorem unexpected {expected : String} : Walks d n (Grammar.unexpected expected : Parser α) m :=
  fun _ => .unexpected

theorem unsupported {construct : String} : Walks d n (Grammar.unsupported construct : Parser α) m :=
  fun _ => .unsupported

theorem look {look? : Cursor → α} : Walks d n (Grammar.look look?) n :=
  fun _ => .look_bind (.pure ⟨.nil, rfl⟩)

theorem look_bind {look? : Cursor → α} (hf : ∀ a, Walks d n (f a) m) : Walks d n (Grammar.look look? >>= f) m :=
  fun s => .look_bind (hf _ s)

theorem inspect_bind {look? : State → α} (hf : ∀ a, Walks d n (f a) m) : Walks d n (inspect look? >>= f) m :=
  fun s => .inspect_bind (hf _ s)

/-- Either way of a test. -/
theorem branch {test : Parser Bool} {x y : Parser β} (ht : Walks d n test n) (hx : Walks d n x m)
    (hy : Walks d n y m) : Walks d n (test >>= fun b => if b then x else y) m := by
  refine bind ht fun b => ?_
  cases b with
  | true => exact hx
  | false => exact hy

/-- A test for an opening parenthesis leads to the next depth. -/
theorem branchOpening {x y : Parser β} (hx : Walks d (n + 1) x m) (hy : Walks d n y m) :
    Walks d n (Grammar.skip .leftParen >>= fun b => if b then x else y) m :=
  fun s => .skip_bind trivial nofun (fun hk => (hx s.advanced).mono fun _ _ _ h => ⟨.opening hk h.1, h.2⟩) (hy s)

theorem skip {k : Token.Kind} (hk : k.Bare) (hcommon : k.common = true) : Walks d n (Grammar.skip k) n := by
  intro s
  rw [← bind_pure (Grammar.skip k)]
  have hne : k ≠ .eof := fun h => by rw [h] at hcommon; cases hcommon
  exact .skip_bind hk hne (fun h => .pure ⟨walk_current h hcommon .nil, rfl⟩) (.pure ⟨.nil, rfl⟩)

theorem skipKeyword {k : Keyword} (hk : (Token.Kind.keyword k).common = true) :
    Walks d n (Grammar.skipKeyword k) n := by
  intro s
  rw [← bind_pure (Grammar.skipKeyword k)]
  exact .skipKeyword_bind (fun h => .pure ⟨walk_current h hk .nil, rfl⟩) fun _ => .pure ⟨.nil, rfl⟩

theorem skipAny {ks : List Keyword} (hks : ∀ k ∈ ks, (Token.Kind.keyword k).common = true) :
    Walks d n (Grammar.skipAny ks) n := by
  intro s
  rw [← bind_pure (Grammar.skipAny ks)]
  refine .skipAny_bind (fun h => ?_) (.pure ⟨.nil, rfl⟩)
  obtain ⟨k, hmem, hk⟩ := h
  exact .pure ⟨walk_current hk (hks k hmem) .nil, rfl⟩

theorem opening : Walks d n (expect .leftParen) (n + 1) := by
  intro s
  rw [← bind_pure (expect .leftParen)]
  exact .expect_bind trivial nofun fun h => .pure ⟨.opening h .nil, rfl⟩

theorem closing : Walks d (n + 1) (expect .rightParen) n := by
  intro s
  rw [← bind_pure (expect .rightParen)]
  exact .expect_bind trivial nofun fun h => .pure ⟨.closing h .nil, rfl⟩

theorem expectKeyword {k : Keyword} (hk : (Token.Kind.keyword k).common = true) :
    Walks d n (Grammar.expectKeyword k) n := by
  intro s
  rw [← bind_pure (Grammar.expectKeyword k)]
  exact .expectKeyword_bind fun h => .pure ⟨walk_current h hk .nil, rfl⟩

theorem common_of_name? {name : String} (h : s.cursor.name? = some name) : s.cursor.kind.common = true := by
  rw [Cursor.kind]
  rcases Token.name?_eq_some.1 h with hk | ⟨k, hk, hreserved, -⟩
  · rw [hk]
    rfl
  · rw [hk]
    exact Token.Kind.common_of_not_reserved hreserved

theorem common_of_keyword? {k : Keyword} (h : s.cursor.keyword? = some k) (hk : (Token.Kind.keyword k).common = true) :
    s.cursor.kind.common = true := by
  rw [Cursor.kind_of_atKeyword (decide_eq_true h)]
  exact hk

theorem expectInteger {v : Int} : Walks d n (expect (.integer v)) n := by
  have hcommon : ∀ k : Token.Kind, k.alike (.integer v) = true → k.common = true := by
    intro k hk
    cases k <;> first | rfl | simp [Token.Kind.alike] at hk
  refine fun s => .look_bind (.skipWhen_bind (fun hk heof => ?_) (fun hk => ?_) fun _ => .unexpected)
  · have hcommon := hcommon s.cursor.kind hk
    rw [heof] at hcommon
    cases hcommon
  · exact .pure ⟨walk_current rfl (hcommon _ hk) .nil, rfl⟩

theorem expectName : Walks d n Grammar.expectName n := by
  refine fun s => .look_bind ?_
  split
  · next name hname => exact WalksAt.advance_bind (common_of_name? hname) pure
  · exact .unexpected

/-- A region is a walk back to where it starts. -/
theorem region (hd : d ≠ .generic) : Walks d n skipRegion n := by
  refine bind opening fun span s hs a s' hr => ?_
  rw [look_bind_apply, moveCursor_bind_apply] at hr
  cases hclose : s.cursor.leaveRegion.1 with
  | none =>
    rw [hclose] at hr
    cases hr
  | some close =>
    rw [hclose] at hr
    cases hr
    obtain ⟨ts, hts, hwalk⟩ := Cursor.walk_leaveRegion hd n hs hclose
    exact ⟨ts, hts, hwalk, rfl⟩

/-! ### Changing the statement -/

theorem modify {put : Statement → Statement} (hput : ∀ s, (put s).pagination = s.pagination) :
    Walks d n (modifyStatement put) n :=
  fun s => .modify ⟨.nil, hput s.statement⟩

theorem claimParameter : Walks d n Grammar.claimParameter n :=
  inspect_bind fun _ => bind (modify fun _ => rfl) fun _ => pure

theorem recordTable {rule : Rule} {name : String} {t : Token} : Walks d n (recordTable rule name t) n := by
  unfold Grammar.recordTable
  split
  · exact modify fun s => s.pagination_addEdit_table t.span.start t.text
  · exact pure

/-! ### Lists -/

theorem separated {item : Parser α} (hi : Walks d n item n) (rounds : Nat) :
    Walks d n (Grammar.separated item rounds) n := by
  induction rounds with
  | zero => exact bind hi fun _ => pure
  | succ rounds ih => exact bind hi fun _ => branch (skip trivial rfl) (bind ih fun _ => pure) pure

theorem commaSeparated {item : Parser α} (hi : Walks d n item n) : Walks d n (Grammar.commaSeparated item) n :=
  look_bind fun rounds => separated hi rounds

theorem eachSeparated {item : Parser Unit} (hi : Walks d n item n) : Walks d n (Grammar.eachSeparated item) n :=
  bind (commaSeparated hi) fun _ => pure

end Walks

/-- A parser that ends at the depth where it starts, whatever that is. -/
def Steady (d : Dialect) (p : Parser α) : Prop :=
  ∀ n, Walks d n p n

/-- From outside of all parentheses, a steady parser passes no landmark. -/
theorem Steady.passes (hp : Steady d p) :
    Passes s p fun _ ts s' => Token.Marked ts [] ∧ s'.statement.pagination = s.statement.pagination :=
  (hp 0 s).mono fun _ _ _ h => ⟨.of_walk h.1, h.2⟩

end Grammar

end SelectRouting
