import SelectRouting.Proofs.Prefix.Place
import SelectRouting.Proofs.Token.Balance
import SelectRouting.Proofs.Token.Order
/-!
# Constructs that are rejected whatever follows them

A percentage of rows, a numbering by partitions, an earlier state of a table and a grouping with subtotals have no answer
that can be put together from those of the shards.  Each begins with tokens of its own (`Barred`), at a place where a run
may come to: the start of a select item or of a grouping, or the end of a table factor.  A text that begins like another
as far as such a place comes there too, since nothing in front takes the words of the construct for its own; and there it
is rejected, before anything behind those words is read (`Statement.unsupported_of_barred`).
-/
namespace SelectRouting

/-! ## Places of a text -/

namespace Grammar

/-- Up to the select list of SQL Server. -/
def upToItems : Parser Unit := do
  let _ ← expectKeyword .select
  distinct .sqlServer
  topClause

/-- Up to `FROM` in Oracle. -/
def upToFrom (rule : Rule) : Parser Unit := do
  let _ ← expectKeyword .select
  distinct .oracle
  selectList .oracle rule

/-- Up to the first entry of `FROM` in Oracle. -/
def upToEntries (rule : Rule) : Parser Unit := do
  upToFrom rule
  let _ ← expectKeyword .from

/-- Up to `GROUP BY` in Oracle. -/
def upToGroup (rule : Rule) : Parser Unit := do
  upToFrom rule
  fromClause .oracle rule
  whereClause rule
  skipHierarchy rule

/-- Up to the first grouping in Oracle. -/
def upToGroupings (rule : Rule) : Parser Unit := do
  upToGroup rule
  let _ ← expectKeyword .group
  let _ ← expectKeyword .by

def storedItem (d : Dialect) (rule : Rule) : Parser Unit := do
  let item ← selectItem d rule
  modifyStatement fun s => { s with items := s.items ++ [item] }

def storedEntry (d : Dialect) (rule : Rule) : Parser Unit := do
  let entry ← tableReference d rule
  modifyStatement fun s => { s with sources := s.sources ++ [entry] }

end Grammar

section
variable (rule : Rule) (source : String) (passed : List Token)

open Grammar (ItemAt FactorAt State)

/-- The first tokens of a text, in front of a select item of SQL Server. -/
def ItemBehind : Prop :=
  ∃ s t : State, Grammar.upToItems (.ofSource source) = .ok () s ∧ ItemAt (Grammar.storedItem .sqlServer rule) s t ∧
    Token.lex source = passed ++ t.cursor.tokens

/-- The first tokens of a text, with a whole table factor of Oracle at their end. -/
def FactorBehind : Prop :=
  ∃ (s t u v : State) (table : TableRef), Grammar.upToEntries rule (.ofSource source) = .ok () s ∧
    ItemAt (Grammar.storedEntry .oracle rule) s t ∧ FactorAt rule none t u ∧
    Grammar.tableFactor .oracle rule u = .ok table v ∧ Token.lex source = passed ++ v.cursor.tokens

/-- The first tokens of a text, in front of a grouping of Oracle. -/
def GroupingBehind : Prop :=
  ∃ s t : State, Grammar.upToGroupings rule (.ofSource source) = .ok () s ∧ ItemAt (Grammar.grouping .oracle rule) s t ∧
    Token.lex source = passed ++ t.cursor.tokens

end

/-! ## Constructs -/

/-- `DISTINCT`, `ALL` or nothing. -/
inductive Quantifier : List Token → Prop where
  | none : Quantifier []
  | distinct {t : Token} (word : t.kind = .keyword .distinct) : Quantifier [t]
  | all {t : Token} (word : t.kind = .keyword .all) : Quantifier [t]

/-- A number or a parameter. -/
def Token.Counts (t : Token) : Prop :=
  t.kind = .question ∨ ∃ n, t.kind = .integer n

/-- A count of rows, with or without parentheses. -/
inductive RowCount : List Token → Prop where
  | plain {v : Token} (count : v.Counts) : RowCount [v]
  | parenthesized {l v r : Token} (opening : l.kind = .leftParen) (count : v.Counts) (closing : r.kind = .rightParen) :
    RowCount [l, v, r]

/-- The words that ask for an earlier state of a table. -/
def FlashbackWords (t t' : Token) : Prop :=
  (t.kind = .keyword .as ∧ t'.kind = .keyword .of) ∨ (t.kind = .keyword .versions ∧ t'.kind = .keyword .between)

/-- Tokens that begin with a construct no shard can compute, or come to one behind what another text begins with; and the
place of the word that is rejected.  What follows that word, or the two words that ask for an earlier state, is free. -/
inductive Barred (rule : Rule) : Dialect → List Token → Span → Prop where
  | percentage {first top percent : Token} {quantifier count rest : List Token} (start : first.kind = .keyword .select)
    (quantified : Quantifier quantifier) (limited : top.kind = .keyword .top) (counted : RowCount count)
    (word : percent.kind = .keyword .percent) :
    Barred rule .sqlServer ([first] ++ quantifier ++ [top] ++ count ++ percent :: rest) percent.span
  | partitioned {source : String} {number opening closing windowing window partition : Token}
    {passed region rest : List Token} (place : ItemBehind rule source passed)
    (numbering : number.kind = .keyword .rowNumber) (opened : opening.kind = .leftParen)
    (balanced : Token.Balanced region) (closed : closing.kind = .rightParen)
    (windowed : windowing.kind = .keyword .over) (entered : window.kind = .leftParen)
    (word : partition.kind = .keyword .partition) :
    Barred rule .sqlServer
      (passed ++ ([number, opening] ++ (region ++ [closing]) ++ [windowing, window]) ++ partition :: rest) partition.span
  | earlier {source : String} {first second : Token} {passed rest : List Token} (place : FactorBehind rule source passed)
    (words : FlashbackWords first second) : Barred rule .oracle (passed ++ first :: second :: rest) first.span
  | subtotalled {source : String} {word : Token} {passed rest : List Token} (place : GroupingBehind rule source passed)
    (kind : word.kind = .keyword .rollup ∨ word.kind = .keyword .cube ∨ word.kind = .keyword .grouping) :
    Barred rule .oracle (passed ++ word :: rest) word.span

/-! ## The same place in another text -/

namespace Token

variable {ts us : List Token}

/-- Nothing but the last token is the end of the input. -/
theorem Complete.ne_eof (h : Complete (ts ++ us)) (hus : us ≠ []) : ∀ t ∈ ts, t.kind ≠ .eof := by
  induction ts with
  | nil => exact nofun
  | cons t ts ih =>
    rcases h with ⟨-, hnil⟩ | ⟨hne, h⟩
    · exact absurd (List.append_eq_nil_iff.1 hnil).2 hus
    · intro u hu
      rcases List.mem_cons.1 hu with rfl | hu
      · exact hne
      · exact ih h u hu

/-- The integers of a text have no sign. -/
theorem nonneg_of_mem_lex {source : String} {t : Token} {n : Int} (h : t ∈ lex source) (hk : t.kind = .integer n) :
    0 ≤ n := by
  rcases exists_lexeme_of_mem_lexFrom 0 source.toList t h with he | ⟨c, rest, hkind, -⟩
  · cases hk.symm.trans he
  · rw [(lexeme_of_integer (hkind.symm.trans hk)).2]
    exact Int.natCast_nonneg _

end Token

namespace Cursor

variable {c c' : Cursor} {region : List Token} {close : Token}

theorem leaveRegion_of_balanced (hc : Token.Complete c.tokens) (h : Reaches c (region ++ [close]) c')
    (hbalanced : Token.Balanced region) (hclose : close.kind = .rightParen) : c.leaveRegion = (some close, c') := by
  have htokens : c.tokens = region ++ close :: c'.tokens := by
    rw [h.tokens, List.append_assoc]
    rfl
  refine leaveRegion_of_closing? ?_ h.source
  rw [htokens] at hc ⊢
  exact closing?_of_leads hclose (.of_balanced hbalanced) (hc.ne_eof (List.cons_ne_nil _ _))

end Cursor

namespace Grammar

open Cursor (Reaches)

section
variable {rule : Rule} {source source' : String} {passed rest : List Token} {s t u : State} {e : ParseError} {c : Cursor}
  {span : Span}

/-- A place in front of an item is behind the same tokens of another text, where the parser in front does not end there
differently. -/
theorem ItemAt.exists_moved (source' : String) {front item : Parser Unit} {marks : Cursor → Prop}
    (hfront : ∀ n n', Settles marks n n' front front) (hitem : ∀ n n', Settles nowhere n n' item item)
    (hs : front (.ofSource source) = .ok () s) (ht : ItemAt item s t) :
    ∃ ts, Reaches (.ofSource source) ts t.cursor ∧ ∀ b', Reaches (.ofSource source') ts b' → marks b' →
      ∃ s', Token.Complete s'.cursor.tokens ∧ front (.ofSource source') = .ok () s' ∧ ItemAt item s' (t.moved b') := by
  have hcomplete := State.complete_ofSource source
  obtain ⟨ts, hts, hrun⟩ := Settles.of_ok hfront hcomplete hs
  obtain ⟨us, hus, hmoved⟩ := ItemAt.moved hitem ht (hts.complete hcomplete)
  refine ⟨ts ++ us, hts.trans hus, fun b' hb' hmark => ?_⟩
  obtain ⟨b, hb, hbus⟩ := hb'.split
  have hb₀ := State.complete_ofSource source'
  obtain ⟨hitem, hend⟩ := hmoved b b' (hb.complete hb₀) hbus
  refine ⟨s.moved b, hb.complete hb₀, hrun _ b hb₀ hb ?_, hitem⟩
  rcases hend with rfl | halike
  · exact .inr (hbus.eq ▸ hmark)
  · exact .inl halike

theorem settles_upToItems {n n' : Nat} : Settles numbering n n' upToItems upToItems := by
  refine .andThen settles_expectKeyword fun _ s => .bindKept (settles_distinct s) (fun _ => settles_topClause) ?_
  intro _ t _ u h hk
  have hat : t.cursor.atKeyword .top = false := by
    refine Bool.eq_false_iff.2 fun hat => ?_
    rw [Cursor.kind_of_atKeyword hat] at hk
    rcases hk with hk | hk <;> cases hk
  have hrun : topClause t = .ok () t := bind_of_ok (skipKeyword_of_false hat) _
  rw [hrun] at h
  cases h
  rfl

theorem settles_storedItem {d : Dialect} {n n' : Nat} : Settles nowhere n n' (storedItem d rule) (storedItem d rule) :=
  .bind settles_selectItem fun _ => Settles.modify.passed

theorem settles_storedEntry {d : Dialect} {n n' : Nat} : Settles nowhere n n' (storedEntry d rule) (storedEntry d rule) :=
  .bind settles_tableReference fun _ => Settles.modify.passed

theorem settles_upToFrom {n n' : Nat} : Settles nowhere n n' (upToFrom rule) (upToFrom rule) :=
  .andThen settles_expectKeyword fun _ => .bind (settles_distinct.mono fun _ h => h.elim) fun _ => settles_selectList

theorem settles_upToEntries {n n' : Nat} : Settles anywhere n n' (upToEntries rule) (upToEntries rule) :=
  fun s => .bindKeyword (k := .from) nofun nofun (fun _ => ()) (settles_upToFrom s)

theorem settles_upToGroup {n n' : Nat} : Settles nowhere n n' (upToGroup rule) (upToGroup rule) := by
  refine .bind settles_upToFrom fun _ => .bind settles_fromClause fun _ => ?_
  exact .bind settles_whereClause fun _ => settles_skipHierarchy

theorem settles_upToGroupings {n n' : Nat} : Settles anywhere n n' (upToGroupings rule) (upToGroupings rule) := by
  have heq : upToGroupings rule = (upToGroup rule >>= fun _ => expectKeyword .group >>= fun _ => pure ()) >>= fun _ =>
      expectKeyword .by >>= fun _ => pure () := by
    simp only [upToGroupings, bind_assoc, pure_bind]
  rw [heq]
  refine .andThen (fun s => .bindKeyword (k := .group) nofun nofun (fun _ => ()) (settles_upToGroup s)) fun _ => ?_
  exact .andThen settles_expectKeyword fun _ => .pure

/-! ## Rejections -/

section
variable {α β : Type} {p : Parser α} {f : α → Parser β}

/-- In a state a parser rejects a construct with its word at a span. -/
def RejectsAt (p : Parser α) (s : State) (span : Span) : Prop :=
  ∃ construct u, p s = .error ⟨.unsupported construct, span⟩ u

namespace RejectsAt

theorem unsupported {construct : String} : RejectsAt (Grammar.unsupported construct : Parser α) s s.cursor.span :=
  ⟨construct, s, rfl⟩

theorem bind (h : RejectsAt p s span) : RejectsAt (p >>= f) s span := by
  obtain ⟨construct, u, hu⟩ := h
  exact ⟨construct, u, bind_of_error hu f⟩

theorem behind {a : α} (hp : p s = .ok a t) (h : RejectsAt (f a) t span) : RejectsAt (p >>= f) s span := by
  obtain ⟨construct, u, hu⟩ := h
  exact ⟨construct, u, (bind_of_ok hp f).trans hu⟩

theorem look {look? : Cursor → α} (h : RejectsAt (f (look? s.cursor)) s span) :
    RejectsAt (Grammar.look look? >>= f) s span :=
  h

end RejectsAt

end

/-! ### A percentage of rows -/

theorem limitValue_of_counts (hcounts : s.cursor.current.Counts)
    (hnonneg : ∀ n, s.cursor.current.kind = .integer n → 0 ≤ n) :
    ∃ v t, limitValue s = .ok v t ∧ t.cursor = s.cursor.advance := by
  unfold limitValue
  rw [look_bind_apply]
  rcases hcounts with hk | ⟨n, hk⟩
  · rw [hk]
    exact ⟨_, _, rfl, rfl⟩
  · have hliteral : literalLimit n s.cursor.current.span = advance >>= fun _ =>
        pure (.literal n.toNat, s.cursor.current.span) := if_neg (Int.not_lt.2 (hnonneg n hk))
    rw [hk]
    dsimp only
    rw [hliteral]
    exact ⟨_, _, rfl, rfl⟩

theorem topValue_of_rowCount {ts : List Token} (hs : Token.Complete s.cursor.tokens) (hreach : Reaches s.cursor ts c)
    (hcount : RowCount ts) (hnonneg : ∀ t ∈ ts, ∀ n, t.kind = .integer n → 0 ≤ n) :
    ∃ v t, topValue s = .ok v t ∧ t.cursor = c := by
  cases hcount with
  | @plain v count =>
    obtain ⟨-, hend⟩ := hreach.advance_of_cons hs
    have hcurrent := hreach.current_eq
    obtain ⟨w, t, hvalue, ht⟩ := limitValue_of_counts (hcurrent ▸ count) (hcurrent ▸ hnonneg v List.mem_cons_self)
    have hparen : s.cursor.kind.alike .leftParen = false := by
      rw [Cursor.kind, hcurrent]
      rcases count with hk | ⟨n, hk⟩ <;> rw [hk] <;> rfl
    exact ⟨w, t, (bind_of_ok (skipWhen_of_false hparen) _).trans hvalue, ht.trans hend.eq⟩
  | @parenthesized l v r opening count closing =>
    have hparen : s.cursor.kind.alike .leftParen = true := by
      rw [Cursor.kind, hreach.current_eq, opening]
      rfl
    obtain ⟨-, hinside⟩ := hreach.advance_of_cons hs
    have hs₁ := Cursor.complete_advance hs
    obtain ⟨-, hclose⟩ := hinside.advance_of_cons hs₁
    have hcurrent : s.advanced.cursor.current = v := hinside.current_eq
    obtain ⟨w, t, hvalue, ht⟩ := limitValue_of_counts (hcurrent ▸ count) (hcurrent ▸ hnonneg v (by simp))
    rw [← show t.cursor = s.cursor.advance.advance from ht] at hclose
    obtain ⟨-, hend⟩ := hclose.advance_of_cons (ht ▸ Cursor.complete_advance hs₁)
    have hright : expect .rightParen t = .ok t.cursor.span t.advanced :=
      expect_of_kind ((congrArg Token.kind hclose.current_eq).trans closing) rfl
    refine ⟨w, t.advanced, ?_, hend.eq⟩
    exact (bind_of_ok (skipWhen_of_true hparen) _).trans ((bind_of_ok hvalue _).trans (bind_of_ok hright _))

theorem topClause_rejects {ts : List Token} (hs : Token.Complete s.cursor.tokens) (htop : s.cursor.kind = .keyword .top)
    (hreach : Reaches s.cursor.advance ts c) (hcount : RowCount ts)
    (hnonneg : ∀ t ∈ ts, ∀ n, t.kind = .integer n → 0 ≤ n) (hpercent : c.kind = .keyword .percent) :
    RejectsAt topClause s c.span := by
  obtain ⟨v, t, hvalue, rfl⟩ := topValue_of_rowCount (s := s.advanced) (Cursor.complete_advance hs) hreach hcount hnonneg
  refine .behind (skipKeyword_of_true htop) (.behind hvalue (.look ?_))
  rw [Cursor.atKeyword_iff.2 hpercent]
  exact .unsupported

theorem distinct_of_quantifier {ts : List Token} (hs : Token.Complete s.cursor.tokens) (hreach : Reaches s.cursor ts c)
    (hquantifier : Quantifier ts) (hk : c.kind = .keyword .top) :
    ∃ t, distinct .sqlServer s = .ok () t ∧ t.cursor = c := by
  have hkind : ∀ t, ts = [t] → s.cursor.kind = t.kind ∧ s.cursor.advance = c := by
    rintro t rfl
    obtain ⟨-, hend⟩ := hreach.advance_of_cons hs
    exact ⟨congrArg Token.kind hreach.current_eq, hend.eq⟩
  cases hquantifier with
  | none =>
    obtain rfl := hreach.eq
    have hno : s.cursor.atAny (.distinct :: Dialect.distinctSynonyms .sqlServer) = false := by
      rw [Cursor.atAny_of_kind hk]
      rfl
    have hall : s.cursor.atKeyword .all = false := by
      rw [Cursor.atKeyword, Cursor.keyword?_of_kind hk]
      rfl
    exact ⟨s, (bind_of_ok (skipWhen_of_false hno) _).trans (bind_of_ok (skipKeyword_of_false hall) _), rfl⟩
  | @distinct t word =>
    obtain ⟨hkt, hend⟩ := hkind t rfl
    have hyes : s.cursor.atAny (.distinct :: Dialect.distinctSynonyms .sqlServer) = true := by
      rw [Cursor.atAny_of_kind (hkt.trans word)]
      rfl
    exact ⟨_, bind_of_ok (skipWhen_of_true hyes) _, hend⟩
  | @all t word =>
    obtain ⟨hkt, hend⟩ := hkind t rfl
    have hno : s.cursor.atAny (.distinct :: Dialect.distinctSynonyms .sqlServer) = false := by
      rw [Cursor.atAny_of_kind (hkt.trans word)]
      rfl
    exact ⟨_, (bind_of_ok (skipWhen_of_false hno) _).trans (bind_of_ok (skipKeyword_of_true (hkt.trans word)) _), hend⟩

/-! ### A numbering by partitions -/

theorem windowItem_rejects {number opening closing windowing window : Token} {region : List Token}
    (hs : Token.Complete s.cursor.tokens)
    (hreach : Reaches s.cursor ([number, opening] ++ (region ++ [closing]) ++ [windowing, window]) c)
    (hnumber : number.kind = .keyword .rowNumber) (hopening : opening.kind = .leftParen)
    (hbalanced : Token.Balanced region) (hclosing : closing.kind = .rightParen) (hover : windowing.kind = .keyword .over)
    (hwindow : window.kind = .leftParen) (hpartition : c.kind = .keyword .partition) :
    RejectsAt (windowItem .sqlServer rule) s c.span := by
  have hkind : ∀ {c : Cursor} {t : Token} {ts : List Token} {c' : Cursor}, Reaches c (t :: ts) c' → c.kind = t.kind :=
    fun h => congrArg Token.kind h.current_eq
  obtain ⟨-, h₁⟩ := hreach.advance_of_cons hs
  have hs₁ := Cursor.complete_advance hs
  obtain ⟨-, h₂⟩ := h₁.advance_of_cons hs₁
  have hs₂ := Cursor.complete_advance hs₁
  obtain ⟨c₃, hregion, h₃⟩ := h₂.split
  have hs₃ := hregion.complete hs₂
  obtain ⟨-, h₄⟩ := h₃.advance_of_cons hs₃
  obtain ⟨-, h₅⟩ := h₄.advance_of_cons (Cursor.complete_advance hs₃)
  obtain rfl := h₅.eq
  have hopened : expect .leftParen s.advanced = .ok s.advanced.cursor.span s.advanced.advanced :=
    expect_of_kind ((hkind h₁).trans hopening) rfl
  have hleave : s.advanced.advanced.cursor.leaveRegion = (some closing, c₃) :=
    Cursor.leaveRegion_of_balanced hs₂ hregion hbalanced hclosing
  have hskipped : skipRegion s.advanced = .ok ⟨s.advanced.cursor.span.start, closing.span.stop⟩ (s.moved c₃) := by
    rw [skipRegion_eq, bind_of_ok hopened, restOfRegion_apply, hleave]
    rfl
  have hentered : expect .leftParen (s.moved c₃).advanced =
      .ok (s.moved c₃).advanced.cursor.span (s.moved c₃).advanced.advanced :=
    expect_of_kind ((hkind h₄).trans hwindow) rfl
  refine .behind (expectKeyword_of_true ((hkind hreach).trans hnumber)) (.behind hskipped ?_)
  refine .behind (expectKeyword_of_true ((hkind h₃).trans hover)) (.behind hentered (.look ?_))
  rw [show (s.moved c₃).advanced.advanced.cursor.atKeyword .partition = true from Cursor.atKeyword_iff.2 hpartition]
  exact .unsupported

theorem storedItem_rejects (hk : s.cursor.kind = .keyword .rowNumber)
    (h : RejectsAt (windowItem .sqlServer rule) s span) :
    RejectsAt (storedItem .sqlServer rule) s span := by
  have hskip : skipAny (Dialect.skippedBeforeItem .sqlServer) s = .ok false s := by
    refine skipWhen_of_false ?_
    rw [Cursor.atAny_of_kind hk]
    rfl
  have hat : atRowNumberItem .sqlServer s = .ok true s := by
    show EStateM.Result.ok (s.cursor.atKeyword .rowNumber) s = _
    rw [Cursor.atKeyword_iff.2 hk]
  exact .bind (.behind hskip (.behind hat h))

/-! ### An earlier state -/

theorem flashback_of_words {first second : Token} (h : FlashbackWords first second) (hcurrent : c.current = first)
    (hnext : c.next = second) : flashback c := by
  have hword : ∀ {k k' : Keyword}, first.kind = .keyword k ∧ second.kind = .keyword k' →
      (c.atKeyword k && c.nextIsKeyword k') = true := by
    rintro k k' ⟨hk, hk'⟩
    rw [Cursor.atKeyword_iff.2 ((congrArg Token.kind hcurrent).trans hk), Bool.true_and, Cursor.nextIsKeyword, hnext, hk']
    exact decide_eq_true rfl
  exact h.imp hword hword

theorem rejectFlashback_rejects (h : flashback s.cursor) : RejectsAt rejectFlashback s s.cursor.span := by
  refine .look ?_
  cases hversions : s.cursor.atVersionsBetween with
  | true =>
    rw [show (s.cursor.atKeyword .versions && s.cursor.nextIsKeyword .between) = true from hversions]
    exact .unsupported
  | false =>
    have has : s.cursor.atAsOf = true := h.resolve_right (Bool.eq_false_iff.1 hversions)
    rw [show (s.cursor.atKeyword .versions && s.cursor.nextIsKeyword .between) = false from hversions]
    refine .look ?_
    rw [show (s.cursor.atKeyword .as && s.cursor.nextIsKeyword .of) = true from has]
    exact .unsupported

theorem eq_of_rejectFlashback {a : Unit} (h : rejectFlashback s = .ok a t) : t = s := by
  unfold rejectFlashback at h
  rw [look_bind_apply] at h
  split at h
  · cases h
  · rw [look_bind_apply] at h
    split at h
    · cases h
    · cases h
      rfl

/-- Behind the tokens of a factor, an earlier state of it is rejected. -/
theorem tableFactor_rejects {table : TableRef} (hs : Token.Complete s.cursor.tokens)
    (h : tableFactor .oracle rule s = .ok table t) :
    ∃ ts, Reaches s.cursor ts t.cursor ∧ ∀ b b', Token.Complete b.tokens → Reaches b ts b' → flashback b' →
      RejectsAt (tableFactor .oracle rule) (s.moved b) b'.span := by
  have hfactor : ∀ r', Settles flashback (s.cursor.rest.length + 1) (r' + 1)
      (unguardedFactor rule (tableReferenceAt .oracle rule s.cursor.rest.length))
      (unguardedFactor rule (tableReferenceAt .oracle rule r')) :=
    fun r' => settles_unguardedFactor (settles_tableReferenceAt _ _)
  have hsplit : ∀ (r : Nat) (s : State), oracleFactor rule (tableReferenceAt .oracle rule r) s =
      (unguardedFactor rule (tableReferenceAt .oracle rule r) >>= fun table =>
        rejectFlashback >>= fun _ => pure table) s :=
    fun r s => congrFun (oracleFactor_eq _) s
  have hrun : oracleFactor rule (tableReferenceAt .oracle rule s.cursor.rest.length) s = .ok table t := h
  rw [hsplit] at hrun
  obtain ⟨table', s₁, hunguarded, hrun⟩ := ok_of_bind hrun
  obtain ⟨_, s₂, hreject, hpure⟩ := ok_of_bind hrun
  cases hpure
  obtain rfl := eq_of_rejectFlashback hreject
  have hsettled := fun r' => hunguarded ▸ hfactor r' s hs (Nat.lt_succ_self _)
  obtain ⟨ts, hts, -⟩ := hsettled 0
  refine ⟨ts, hts, fun b b' hb hbts hflashback => ?_⟩
  obtain ⟨us, hus, hall⟩ := hsettled b.rest.length
  have hsecond := hall b b' hb (Nat.lt_succ_self _) (hts.unique hus ▸ hbts) (.inr hflashback)
  show RejectsAt (oracleFactor rule (tableReferenceAt .oracle rule b.rest.length)) (s.moved b) b'.span
  rw [oracleFactor_eq]
  exact .behind hsecond (.bind (rejectFlashback_rejects (s := t.moved b') hflashback))

/-! ### Subtotals -/

theorem grouping_rejects (hk : s.cursor.kind = .keyword .rollup ∨ s.cursor.kind = .keyword .cube ∨
    s.cursor.kind = .keyword .grouping) : RejectsAt (grouping .oracle rule) s s.cursor.span := by
  have hword : ∃ k, s.cursor.keyword?.filter (Dialect.unsupportedGrouping .oracle).contains = some k := by
    rcases hk with hk | hk | hk <;>
    · rw [Cursor.keyword?_of_kind hk]
      exact ⟨_, rfl⟩
  obtain ⟨k, hk⟩ := hword
  refine .look ?_
  rw [hk]
  exact .unsupported

/-! ### From the place to the whole statement -/

theorem ItemAt.rejects {item : Parser Unit} (hitem : ∀ n n', Settles nowhere n n' item item) (h : ItemAt item s t)
    (hs : Token.Complete s.cursor.tokens) (hrejects : RejectsAt item t span) :
    RejectsAt (eachSeparated item) s span := by
  obtain ⟨construct, u, hu⟩ := hrejects
  exact ⟨construct, ItemAt.fails hitem h hs hu⟩

theorem FactorAt.rejects (h : FactorAt rule none s t) (hs : Token.Complete s.cursor.tokens)
    (hrejects : RejectsAt (tableFactor .oracle rule) t span) : RejectsAt (storedEntry .oracle rule) s span := by
  obtain ⟨construct, u, hu⟩ := hrejects
  refine .bind ⟨construct, ?_⟩
  exact h.restOfEntry_fails hs hu (Nat.le_refl _) (Nat.le_refl _) (.table none "" none ⟨0, 0⟩)

theorem select_rejects_of_items (hs : upToItems s = .ok () t)
    (h : RejectsAt (eachSeparated (storedItem .sqlServer rule)) t span) : RejectsAt (select .sqlServer rule) s span := by
  obtain ⟨_, s₁, hselect, hs⟩ := ok_of_bind hs
  obtain ⟨_, s₂, hdistinct, htop⟩ := ok_of_bind hs
  exact .behind hselect (.bind (.behind hdistinct (.behind htop (.bind h))))

/-- What a statement of Oracle comes to behind its select list. -/
theorem select_rejects_of_from (hs : upToFrom rule s = .ok () t)
    (h : RejectsAt (do
      fromClause .oracle rule
      whereClause rule
      skipHierarchy rule
      groupBy .oracle rule
      havingClause rule
      skipModel
      orderBy .oracle rule
      skipForUpdate rule) t span) : RejectsAt (select .oracle rule) s span := by
  obtain ⟨_, s₁, hselect, hs⟩ := ok_of_bind hs
  obtain ⟨_, s₂, hdistinct, hlist⟩ := ok_of_bind hs
  exact .behind hselect (.bind (.behind hdistinct (.behind hlist h)))

/-- With a keyword passed, a parser was in front of it. -/
theorem kind_of_expectKeyword {k : Keyword} {span : Span} (h : expectKeyword k s = .ok span t) :
    s.cursor.kind = .keyword k ∧ t = s.advanced := by
  obtain ⟨hk, ht⟩ := (demands_expectKeyword k).of_ok h
  exact ⟨Token.Kind.eq_of_keyword? (of_decide_eq_true (test_of_placeIf hk)), ht⟩

theorem select_rejects_of_entries (hs : upToEntries rule s = .ok () t)
    (h : RejectsAt (eachSeparated (storedEntry .oracle rule)) t span) : RejectsAt (select .oracle rule) s span := by
  obtain ⟨_, s₁, hfront, hs⟩ := ok_of_bind hs
  obtain ⟨_, s₂, hfrom, hpure⟩ := ok_of_bind hs
  cases hpure
  obtain ⟨hk, rfl⟩ := kind_of_expectKeyword hfrom
  exact select_rejects_of_from hfront (.bind (.behind (skipKeyword_of_true hk) h))

theorem select_rejects_of_groupings (hs : upToGroupings rule s = .ok () t)
    (h : RejectsAt (eachSeparated (grouping .oracle rule)) t span) : RejectsAt (select .oracle rule) s span := by
  obtain ⟨_, s₄, hfront, hs⟩ := ok_of_bind hs
  obtain ⟨_, s₅, hgroup, hs⟩ := ok_of_bind hs
  obtain ⟨_, s₆, hby, hpure⟩ := ok_of_bind hs
  cases hpure
  obtain ⟨hk, rfl⟩ := kind_of_expectKeyword hgroup
  obtain ⟨_, s₁, hlist, hs⟩ := ok_of_bind hfront
  obtain ⟨_, s₂, hfrom, hs⟩ := ok_of_bind hs
  obtain ⟨_, s₃, hwhere, hhierarchy⟩ := ok_of_bind hs
  have hclause : RejectsAt (groupBy .oracle rule) s₄ span := .behind (skipKeyword_of_true hk) (.behind hby h)
  exact select_rejects_of_from hlist (.behind hfrom (.behind hwhere (.behind hhierarchy (.bind hclause))))

/-! ## Whole texts -/

theorem eq_of_reaches {passed ts : List Token} {c : Cursor} (h : Reaches (.ofSource source) ts c)
    (hlex : Token.lex source = passed ++ c.tokens) : passed = ts :=
  List.append_cancel_right (hlex.symm.trans ((Cursor.tokens_ofSource source).symm.trans h.tokens))

theorem exists_reaches_of_lex {passed rest : List Token} {t : Token} (hlex : Token.lex source = passed ++ t :: rest) :
    ∃ c, Reaches (.ofSource source) passed c ∧ c.tokens = t :: rest :=
  Cursor.exists_reaches ((Cursor.tokens_ofSource source).trans hlex) (List.cons_ne_nil _ _)

theorem rejects_percentage {first top percent : Token} {quantifier count : List Token}
    (hlex : Token.lex source = [first] ++ quantifier ++ [top] ++ count ++ percent :: rest)
    (hfirst : first.kind = .keyword .select) (hquantifier : Quantifier quantifier) (htop : top.kind = .keyword .top)
    (hcount : RowCount count) (hpercent : percent.kind = .keyword .percent) :
    RejectsAt (select .sqlServer rule) (.ofSource source) percent.span := by
  have hnonneg : ∀ t ∈ count, ∀ n, t.kind = .integer n → 0 ≤ n := fun t ht n hk =>
    Token.nonneg_of_mem_lex (by rw [hlex]; simp [ht]) hk
  have hs := State.complete_ofSource source
  obtain ⟨c, hc, htokens⟩ := exists_reaches_of_lex hlex
  obtain rfl : c.current = percent := (List.cons.inj htokens).1
  obtain ⟨c₃, hc, hbehind⟩ := hc.split
  obtain ⟨c₂, hc, hlimited⟩ := hc.split
  obtain ⟨c₁, hselect, hquantified⟩ := hc.split
  obtain ⟨-, h₁⟩ := hselect.advance_of_cons hs
  obtain rfl := h₁.eq
  have hs₂ := hquantified.complete (Cursor.complete_advance hs)
  obtain ⟨-, h₃⟩ := hlimited.advance_of_cons hs₂
  obtain rfl := h₃.eq
  have hk : c₂.kind = .keyword .top := (congrArg Token.kind hlimited.current_eq).trans htop
  obtain ⟨t, hdistinct, rfl⟩ := distinct_of_quantifier (s := (State.ofSource source).advanced)
    (Cursor.complete_advance hs) hquantified hquantifier hk
  refine .behind (expectKeyword_of_true ((congrArg Token.kind hselect.current_eq).trans hfirst)) (.bind ?_)
  exact .behind hdistinct (.bind (topClause_rejects hs₂ hk hbehind hcount hnonneg hpercent))

theorem rejects_partitioned {number opening closing windowing window partition : Token} {region : List Token}
    (hplace : ItemBehind rule source passed) (hlex : Token.lex source' =
      passed ++ ([number, opening] ++ (region ++ [closing]) ++ [windowing, window]) ++ partition :: rest)
    (hnumber : number.kind = .keyword .rowNumber) (hopening : opening.kind = .leftParen)
    (hbalanced : Token.Balanced region) (hclosing : closing.kind = .rightParen) (hover : windowing.kind = .keyword .over)
    (hwindow : window.kind = .leftParen) (hpartition : partition.kind = .keyword .partition) :
    RejectsAt (select .sqlServer rule) (.ofSource source') partition.span := by
  obtain ⟨s, t, hs, ht, hfirst⟩ := hplace
  obtain ⟨us, hus, hmoved⟩ := ht.exists_moved source' (fun _ _ => settles_upToItems)
    (fun _ _ => settles_storedItem) hs
  obtain rfl := eq_of_reaches hus hfirst
  obtain ⟨c, hc, htokens⟩ := exists_reaches_of_lex hlex
  obtain rfl : c.current = partition := (List.cons.inj htokens).1
  obtain ⟨b, hb, hbehind⟩ := hc.split
  have hk : b.kind = .keyword .rowNumber := (congrArg Token.kind hbehind.current_eq).trans hnumber
  obtain ⟨s', hs', hitems, hitem⟩ := hmoved b hb hk
  have hrejects : RejectsAt (windowItem .sqlServer rule) (t.moved b) c.span :=
    windowItem_rejects (hb.complete (State.complete_ofSource source')) hbehind hnumber hopening hbalanced hclosing hover
      hwindow hpartition
  refine select_rejects_of_items hitems (hitem.rejects (fun _ _ => settles_storedItem) hs' ?_)
  exact storedItem_rejects hk hrejects

theorem rejects_earlier {first second : Token} (hplace : FactorBehind rule source passed)
    (hlex : Token.lex source' = passed ++ first :: second :: rest) (hwords : FlashbackWords first second) :
    RejectsAt (select .oracle rule) (.ofSource source') first.span := by
  obtain ⟨s, t, u, v, table, hs, ht, hu, hv, hfirst⟩ := hplace
  obtain ⟨us, hus, hmoved⟩ := ht.exists_moved source' (fun _ _ => settles_upToEntries)
    (fun _ _ => settles_storedEntry) hs
  have ht₀ := hus.complete (State.complete_ofSource source)
  obtain ⟨vs, hvs, hinside⟩ := hu.moved ht₀
  obtain ⟨ws, hws, hfactor⟩ := tableFactor_rejects (hvs.complete ht₀) hv
  obtain rfl := eq_of_reaches (hus.trans (hvs.trans hws)) hfirst
  obtain ⟨c, hc, htokens⟩ := exists_reaches_of_lex hlex
  obtain rfl : c.current = first := (List.cons.inj htokens).1
  have hflashback : flashback c := by
    refine flashback_of_words hwords rfl ?_
    rw [Cursor.next, (List.cons.inj htokens).2]
    rfl
  obtain ⟨b₁, hb₁, hc⟩ := hc.split
  obtain ⟨b₂, hb₂, hb₃⟩ := hc.split
  have hc₁ := hb₁.complete (State.complete_ofSource source')
  -- The factor begins with a token of its own, or with the word that is rejected.
  have hfront : b₂.current = u.cursor.current ∨ b₂.kind ≠ .keyword .select := by
    cases ws with
    | cons w ws => exact .inl (hb₃.current_eq.trans hws.current_eq.symm)
    | nil =>
      rw [hb₃.eq]
      refine .inr fun hselect => ?_
      rcases kind_of_flashback hflashback with hk | hk <;> cases hk.symm.trans hselect
  obtain ⟨s', hs', hentries, hentry⟩ := hmoved b₁ hb₁ trivial
  have hrejects := hfactor b₂ c (hb₂.complete hc₁) hb₃ hflashback
  refine select_rejects_of_entries hentries (hentry.rejects (fun _ _ => settles_storedEntry) hs' ?_)
  exact (hinside b₁ b₂ hc₁ hb₂ hfront).rejects hc₁ hrejects

theorem rejects_subtotalled {word : Token} (hplace : GroupingBehind rule source passed)
    (hlex : Token.lex source' = passed ++ word :: rest)
    (hk : word.kind = .keyword .rollup ∨ word.kind = .keyword .cube ∨ word.kind = .keyword .grouping) :
    RejectsAt (select .oracle rule) (.ofSource source') word.span := by
  obtain ⟨s, t, hs, ht, hfirst⟩ := hplace
  obtain ⟨us, hus, hmoved⟩ := ht.exists_moved source' (fun _ _ => settles_upToGroupings)
    (fun _ _ => settles_grouping) hs
  obtain rfl := eq_of_reaches hus hfirst
  obtain ⟨c, hc, htokens⟩ := exists_reaches_of_lex hlex
  obtain rfl : c.current = word := (List.cons.inj htokens).1
  obtain ⟨s', hs', hgroupings, hgrouping⟩ := hmoved c hc trivial
  refine select_rejects_of_groupings hgroupings (hgrouping.rejects (fun _ _ => settles_grouping) hs' ?_)
  exact grouping_rejects hk

end

end Grammar

namespace Statement

variable {d : Dialect} {rule : Rule} {source : String} {span : Span}

/-- A text with a construct that no shard can compute is rejected at the word of the construct. -/
theorem unsupported_of_barred (h : Barred rule d (Token.lex source) span) :
    ∃ construct, parse d rule source = .error ⟨.unsupported construct, span⟩ := by
  have hrejects : Grammar.RejectsAt (Grammar.select d rule) (.ofSource source) span := by
    generalize hlex : Token.lex source = ts at h
    cases h with
    | percentage start quantified limited counted word =>
      exact Grammar.rejects_percentage hlex start quantified limited counted word
    | partitioned place numbering opened balanced closed windowed entered word =>
      exact Grammar.rejects_partitioned place hlex numbering opened balanced closed windowed entered word
    | earlier place words => exact Grammar.rejects_earlier place hlex words
    | subtotalled place kind => exact Grammar.rejects_subtotalled place hlex kind
  obtain ⟨construct, u, hu⟩ := hrejects
  exact ⟨construct, parse_of_select hu⟩

open Grammar (ItemAt FactorAt State)

/-- Where a parser stops, whether it fails or not. -/
def stateBehind {α : Type} (p : Grammar.Parser α) (s : State) : State :=
  match p s with
  | .ok _ t | .error _ t => t

def succeeds {α : Type} (p : Grammar.Parser α) (s : State) : Bool :=
  match p s with
  | .ok _ _ => true
  | .error _ _ => false

theorem exists_of_succeeds {α : Type} {p : Grammar.Parser α} {s : State} (h : succeeds p s = true) :
    ∃ a, p s = .ok a (stateBehind p s) := by
  unfold succeeds at h
  unfold stateBehind
  cases hp : p s with
  | ok a t => exact ⟨a, rfl⟩
  | error e t =>
    rw [hp] at h
    cases h

theorem barred_percentage :
    Barred .empty .sqlServer (Token.lex "SELECT DISTINCT TOP (5) PERCENT )") ⟨24, 31⟩ := by
  have hlex : Token.lex "SELECT DISTINCT TOP (5) PERCENT )" =
      [⟨.keyword .select, ⟨0, 6⟩, "SELECT"⟩] ++ [⟨.keyword .distinct, ⟨7, 15⟩, "DISTINCT"⟩] ++
        [⟨.keyword .top, ⟨16, 19⟩, "TOP"⟩] ++
        [⟨.leftParen, ⟨20, 21⟩, "("⟩, ⟨.integer 5, ⟨21, 22⟩, "5"⟩, ⟨.rightParen, ⟨22, 23⟩, ")"⟩] ++
        ⟨.keyword .percent, ⟨24, 31⟩, "PERCENT"⟩ :: [⟨.rightParen, ⟨32, 33⟩, ")"⟩, ⟨.eof, ⟨33, 33⟩, ""⟩] := by
    rw [Token.lex_of_chars _ rfl]
    decide +kernel
  rw [hlex]
  exact .percentage rfl (.distinct rfl) rfl (.parenthesized rfl (.inr ⟨5, rfl⟩) rfl) rfl

/-- Two items, a joined factor in parentheses, and two groupings. -/
def itemsText : String := "SELECT a, b FROM t"

def joinedFactorText : String := "SELECT a FROM (t x JOIN u ON a = b)"

def groupingsText : String := "SELECT a FROM t GROUP BY a, b"

theorem barred_partitioned :
    Barred .empty .sqlServer (Token.lex "SELECT a, ROW_NUMBER((1)) OVER (PARTITION") ⟨32, 41⟩ := by
  have hlex : Token.lex "SELECT a, ROW_NUMBER((1)) OVER (PARTITION" =
      (Token.lex itemsText).take 3 ++
        ([⟨.keyword .rowNumber, ⟨10, 20⟩, "ROW_NUMBER"⟩, ⟨.leftParen, ⟨20, 21⟩, "("⟩] ++
          ([⟨.leftParen, ⟨21, 22⟩, "("⟩, ⟨.integer 1, ⟨22, 23⟩, "1"⟩, ⟨.rightParen, ⟨23, 24⟩, ")"⟩] ++
            [⟨.rightParen, ⟨24, 25⟩, ")"⟩]) ++
          [⟨.keyword .over, ⟨26, 30⟩, "OVER"⟩, ⟨.leftParen, ⟨31, 32⟩, "("⟩]) ++
        ⟨.keyword .partition, ⟨32, 41⟩, "PARTITION"⟩ :: [⟨.eof, ⟨41, 41⟩, ""⟩] := by
    rw [Token.lex_of_chars _ rfl, Token.lex_of_chars itemsText rfl]
    decide +kernel
  obtain ⟨hup, hitem, hcomma, hbehind⟩ : succeeds Grammar.upToItems (.ofSource itemsText) = true ∧
      succeeds (Grammar.storedItem .sqlServer .empty) (stateBehind Grammar.upToItems (.ofSource itemsText)) = true ∧
      (stateBehind (Grammar.storedItem .sqlServer .empty)
        (stateBehind Grammar.upToItems (.ofSource itemsText))).cursor.kind = .comma ∧
      Token.lex itemsText = (Token.lex itemsText).take 3 ++ (stateBehind (Grammar.storedItem .sqlServer .empty)
        (stateBehind Grammar.upToItems (.ofSource itemsText))).advanced.cursor.tokens := by
    rw [State.ofSource_of_chars itemsText rfl, Token.lex_of_chars itemsText rfl]
    decide +kernel
  obtain ⟨_, hfront⟩ := exists_of_succeeds hup
  obtain ⟨_, hhead⟩ := exists_of_succeeds hitem
  have hplace : ItemBehind .empty itemsText ((Token.lex itemsText).take 3) :=
    ⟨_, _, hfront, .later hhead hcomma .here, hbehind⟩
  rw [hlex]
  exact .partitioned hplace rfl rfl (by decide) rfl rfl rfl rfl

theorem barred_earlier : Barred .empty .oracle (Token.lex "SELECT a FROM (t x VERSIONS BETWEEN") ⟨19, 27⟩ := by
  have hlex : Token.lex "SELECT a FROM (t x VERSIONS BETWEEN" =
      (Token.lex joinedFactorText).take 6 ++
        ⟨.keyword .versions, ⟨19, 27⟩, "VERSIONS"⟩ :: ⟨.keyword .between, ⟨28, 35⟩, "BETWEEN"⟩ ::
          [⟨.eof, ⟨35, 35⟩, ""⟩] := by
    rw [Token.lex_of_chars _ rfl, Token.lex_of_chars joinedFactorText rfl]
    decide +kernel
  obtain ⟨hup, hparen, hentry, hinner, hbehind⟩ :
      succeeds (Grammar.upToEntries .empty) (.ofSource joinedFactorText) = true ∧
      (stateBehind (Grammar.upToEntries .empty) (.ofSource joinedFactorText)).cursor.kind = .leftParen ∧
      (stateBehind (Grammar.upToEntries .empty) (.ofSource joinedFactorText)).cursor.atSubquery = false ∧
      succeeds (Grammar.tableFactor .oracle .empty)
        (stateBehind (Grammar.upToEntries .empty) (.ofSource joinedFactorText)).advanced = true ∧
      Token.lex joinedFactorText = (Token.lex joinedFactorText).take 6 ++ (stateBehind (Grammar.tableFactor .oracle .empty)
        (stateBehind (Grammar.upToEntries .empty) (.ofSource joinedFactorText)).advanced).cursor.tokens := by
    rw [State.ofSource_of_chars joinedFactorText rfl, Token.lex_of_chars joinedFactorText rfl]
    decide +kernel
  obtain ⟨_, hfront⟩ := exists_of_succeeds hup
  obtain ⟨_, hfactor⟩ := exists_of_succeeds hinner
  have hplace : FactorBehind .empty joinedFactorText ((Token.lex joinedFactorText).take 6) :=
    ⟨_, _, _, _, _, hfront, .here, .inside hparen hentry .here, hfactor, hbehind⟩
  rw [hlex]
  exact .earlier hplace (.inr ⟨rfl, rfl⟩)

theorem barred_subtotalled : Barred .empty .oracle (Token.lex "SELECT a FROM t GROUP BY a, CUBE") ⟨28, 32⟩ := by
  have hlex : Token.lex "SELECT a FROM t GROUP BY a, CUBE" =
      (Token.lex groupingsText).take 8 ++ ⟨.keyword .cube, ⟨28, 32⟩, "CUBE"⟩ :: [⟨.eof, ⟨32, 32⟩, ""⟩] := by
    rw [Token.lex_of_chars _ rfl, Token.lex_of_chars groupingsText rfl]
    decide +kernel
  obtain ⟨hup, hgrouping, hcomma, hbehind⟩ : succeeds (Grammar.upToGroupings .empty) (.ofSource groupingsText) = true ∧
      succeeds (Grammar.grouping .oracle .empty)
        (stateBehind (Grammar.upToGroupings .empty) (.ofSource groupingsText)) = true ∧
      (stateBehind (Grammar.grouping .oracle .empty)
        (stateBehind (Grammar.upToGroupings .empty) (.ofSource groupingsText))).cursor.kind = .comma ∧
      Token.lex groupingsText = (Token.lex groupingsText).take 8 ++ (stateBehind (Grammar.grouping .oracle .empty)
        (stateBehind (Grammar.upToGroupings .empty) (.ofSource groupingsText))).advanced.cursor.tokens := by
    rw [State.ofSource_of_chars groupingsText rfl, Token.lex_of_chars groupingsText rfl]
    decide +kernel
  obtain ⟨_, hfront⟩ := exists_of_succeeds hup
  obtain ⟨_, hhead⟩ := exists_of_succeeds hgrouping
  have hplace : GroupingBehind .empty groupingsText ((Token.lex groupingsText).take 8) :=
    ⟨_, _, hfront, .later hhead hcomma .here, hbehind⟩
  rw [hlex]
  exact .subtotalled hplace (.inr (.inl rfl))

/-- Each construct behind the beginning of a text that is accepted, with the text broken off behind it. -/
theorem unsupported_of_barred_each :
    (∃ construct, parse .sqlServer .empty "SELECT DISTINCT TOP (5) PERCENT )" =
      .error ⟨.unsupported construct, ⟨24, 31⟩⟩) ∧
    (∃ construct, parse .sqlServer .empty "SELECT a, ROW_NUMBER((1)) OVER (PARTITION" =
      .error ⟨.unsupported construct, ⟨32, 41⟩⟩) ∧
    (∃ construct, parse .oracle .empty "SELECT a FROM (t x VERSIONS BETWEEN" =
      .error ⟨.unsupported construct, ⟨19, 27⟩⟩) ∧
    (∃ construct, parse .oracle .empty "SELECT a FROM t GROUP BY a, CUBE" =
      .error ⟨.unsupported construct, ⟨28, 32⟩⟩) :=
  ⟨unsupported_of_barred barred_percentage, unsupported_of_barred barred_partitioned,
    unsupported_of_barred barred_earlier, unsupported_of_barred barred_subtotalled⟩

end Statement

end SelectRouting
