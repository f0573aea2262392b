import SelectRouting.Proofs.Form.Reading
import SelectRouting.Proofs.Nesting.Passing
import SelectRouting.Proofs.Outline.Basic
import SelectRouting.Proofs.Trace.Claim
import SelectRouting.Proofs.Wildcard.Reading
/-!
# Parsers that follow an outline

A parser that follows an outline passes, whenever it ends with a value, pieces that the outline derives.  It counts the
parameters of the pieces that it reads in their order, and the expressions that it gives, or puts into the statement, are
among its operands (`Collects`).  There is one rule for each way to put parsers together, and each follows the shape of the
outline; a clause that is skipped comes from the form that its parser recognizes (`Collects.skipped`).
-/
namespace SelectRouting

/-! ## The parameters of pieces -/

namespace Piece

/-- The expressions among some pieces. -/
def operands (ps : List Piece) : List Expr :=
  ps.filterMap operand?

/-- The parameters of the pieces that are read. -/
def readParameters (ps : List Piece) : List Token :=
  Token.parameters (ps.flatMap readTokens)

/-- The parameters that a piece stands for, that of a bound with the place of its token. -/
def claims : Piece → List Leaf
  | .operand e _ => e.leaves.filter (·.ordinal?.isSome)
  | .bound _ (.parameter i) t => [.placeholder i t.span]
  | _ => []

variable {ps qs : List Piece}

theorem operands_append : operands (ps ++ qs) = operands ps ++ operands qs :=
  List.filterMap_append

theorem readParameters_append : readParameters (ps ++ qs) = readParameters ps ++ readParameters qs := by
  rw [readParameters, List.flatMap_append, Token.parameters_append]
  rfl

end Piece

/-- What pieces bring to a statement: their parameters are counted in their order, and its operands are theirs or were
there before. -/
structure Statement.Takes (c : Statement) (ps : List Piece) (c' : Statement) : Prop where
  parameters : c'.parameters = c.parameters + (Piece.readParameters ps).length
  claims : ps.flatMap Piece.claims = Token.numbered c.parameters (Piece.readParameters ps)
  operands : ∀ e ∈ c'.operands, e ∈ c.operands ∨ e ∈ Piece.operands ps

namespace Statement.Takes

variable {c c' c'' : Statement} {ps qs : List Piece}

/-- A change that adds no operand and claims no parameter. -/
theorem idle (hp : c'.parameters = c.parameters) (ho : c'.operands = c.operands) : c.Takes [] c' :=
  ⟨hp, rfl, fun _ he => .inl (ho ▸ he)⟩

theorem trans (h : c.Takes ps c') (h' : c'.Takes qs c'') : c.Takes (ps ++ qs) c'' where
  parameters := by
    rw [h'.parameters, h.parameters, Piece.readParameters_append, List.length_append, Nat.add_assoc]
  claims := by
    rw [List.flatMap_append, h.claims, h'.claims, h.parameters, Piece.readParameters_append, Token.numbered_append]
  operands := by
    intro e he
    rw [Piece.operands_append, List.mem_append]
    rcases h'.operands e he with he | he
    · exact (h.operands e he).imp_right .inl
    · exact .inr (.inr he)

/-- A token that is no parameter. -/
theorem token {t : Token} (ht : t.kind ≠ .question) : c.Takes [.token t] c := by
  have hnone : Piece.readParameters [.token t] = [] := Token.parameters_eq_nil (List.forall_mem_singleton.2 ht)
  exact ⟨by rw [hnone]; rfl, by rw [hnone]; rfl, fun _ => .inl⟩

/-- What is skipped is not counted. -/
theorem skipped {ts : List Token} : c.Takes [.skipped ts] c :=
  ⟨rfl, rfl, fun _ => .inl⟩

end Statement.Takes

namespace Grammar

open Outline (Spells)
open Statement (Takes)

/-! ## Passing pieces -/

section
variable {s : State} {α β : Type} {p : Parser α} {q : α → Parser β} {Q : α → List Piece → State → Prop}
  {R : β → List Piece → State → Prop}

/-- With a value, a parser has passed some pieces and put what they bring into the statement, and `Q` holds of them and of
the state behind them. -/
def Cuts (s : State) (p : Parser α) (Q : α → List Piece → State → Prop) : Prop :=
  Passes s p fun a ts s' => ∃ ps, ps.flatMap Piece.tokens = ts ∧ s.statement.Takes ps s'.statement ∧ Q a ps s'

namespace Cuts

theorem mono {Q' : α → List Piece → State → Prop} (h : Cuts s p Q) (hQ : ∀ a ps s', Q a ps s' → Q' a ps s') :
    Cuts s p Q' := by
  refine Passes.mono h fun a ts s' => ?_
  rintro ⟨ps, hts, htakes, hq⟩
  exact ⟨ps, hts, htakes, hQ a ps s' hq⟩

theorem pure {a : α} (h : Q a [] s) : Cuts s (Pure.pure a) Q :=
  Passes.pure ⟨[], rfl, .idle rfl rfl, h⟩

theorem bind (hp : Cuts s p Q) (hq : ∀ a ps s', Q a ps s' → Cuts s' (q a) fun b qs => R b (ps ++ qs)) :
    Cuts s (p >>= q) R := by
  refine Passes.bind hp fun a ts s' => ?_
  rintro ⟨ps, rfl, htakes, h⟩
  refine Passes.mono (hq a ps s' h) fun b us s'' => ?_
  rintro ⟨qs, rfl, htakes', h'⟩
  exact ⟨ps ++ qs, List.flatMap_append, htakes.trans htakes', h'⟩

/-- A change that adds no operand and claims no parameter. -/
theorem modify {put : Statement → Statement} {T : Unit → List Piece → State → Prop}
    (hp : (put s.statement).parameters = s.statement.parameters) (ho : (put s.statement).operands = s.statement.operands)
    (h : T () [] { s with statement := put s.statement }) : Cuts s (modifyStatement put) T :=
  Passes.modify ⟨[], rfl, .idle hp ho, h⟩

/-- Another fact about what is passed. -/
theorem and_passes {T : α → List Token → State → Prop} (h : Cuts s p Q) (hp : Passes s p T) :
    Cuts s p fun a ps s' => Q a ps s' ∧ T a (ps.flatMap Piece.tokens) s' := by
  intro hs a s' hr
  obtain ⟨ts, hts, ps, rfl, htakes, hq⟩ := h hs a s' hr
  obtain ⟨us, hus, ht⟩ := hp hs a s' hr
  obtain rfl := List.append_cancel_right (hts.symm.trans hus)
  exact ⟨_, hts, ps, rfl, htakes, hq, ht⟩

/-- Behind a token that is a piece of its own. -/
theorem token (hk : s.cursor.kind ≠ .question) (h : Cuts s.advanced p fun a ps => Q a (.token s.cursor.current :: ps)) :
    Passes s.advanced p fun a ts s' => ∃ ps, ps.flatMap Piece.tokens = s.cursor.current :: ts ∧
      s.statement.Takes ps s'.statement ∧ Q a ps s' := by
  refine Passes.mono h fun a ts s' => ?_
  rintro ⟨ps, rfl, htakes, hq⟩
  exact ⟨.token s.cursor.current :: ps, rfl, Takes.trans (.token hk) htakes, hq⟩

end Cuts

end

/-! ## Following an outline -/

section
variable {d : Dialect} {o o' : Outline} {before : List Expr} {α β : Type}

/-- From every state a parser passes pieces as an outline says, and the expressions of its value are among their operands
and those from before. -/
def Collects (d : Dialect) (o : Outline) (before : List Expr) (p : Parser α) (f : α → List Expr) : Prop :=
  ∀ s, Cuts s p fun a ps _ => o.Spells d ps ∧ f a ⊆ before ++ Piece.operands ps

/-- A parser without expressions in its value. -/
abbrev Traverses (d : Dialect) (o : Outline) (p : Parser α) : Prop :=
  Collects d o [] p fun _ => []

/-- A token that a test finds at a cursor is one that an atom stands for. -/
def Spots (d : Dialect) (test : Cursor → Bool) (a : Atom) : Prop :=
  ∀ c : Cursor, test c = true → a.Fits d (.token c.current) ∧ c.kind.Ordinary

theorem spots_word {ks : List Keyword} : Spots d (·.atAny ks) (.word ks) := by
  intro c hc
  obtain ⟨k, hmem, hk⟩ := Cursor.exists_kind_of_atAny hc
  exact ⟨⟨k, hmem, hk⟩, hk ▸ Token.Kind.ordinary_keyword k⟩

theorem spots_sign {k : Token.Kind} (hk : k.Ordinary) : Spots d (·.kind.alike k) (.sign k) :=
  fun _ hc => ⟨hc, hk.of_alike hc⟩

namespace Collects

variable {p : Parser α} {q : α → Parser β} {x y : Parser β} {f : α → List Expr} {g : β → List Expr}

theorem pure {b : β} (h : g b ⊆ before) : Collects d .nothing before (Pure.pure b) g :=
  fun _ => .pure ⟨.nothing, fun _ he => List.mem_append_left _ (h he)⟩

/-- The pieces of an outline are those of another one, too. -/
theorem outline (hp : Collects d o before p f) (h : ∀ ps, o.Spells d ps → o'.Spells d ps) :
    Collects d o' before p f :=
  fun s => (hp s).mono fun _ _ _ hps => ⟨h _ hps.1, hps.2⟩

/-- A part of the value behind another one. -/
theorem bind (hp : Collects d o [] p f) (hq : ∀ a, Collects d o' (before ++ f a) (q a) g) :
    Collects d (.seq o o') before (p >>= q) g := by
  refine fun s => (hp s).bind fun a ps s' hps => (hq a s').mono fun b qs _ hqs => ⟨.seq hps.1 hqs.1, fun e he => ?_⟩
  have hfirst : ∀ e ∈ f a, e ∈ Piece.operands ps := hps.2
  rw [Piece.operands_append]
  simp only [List.mem_append]
  rcases List.mem_append.1 (hqs.2 he) with he | he
  · exact (List.mem_append.1 he).imp_right fun he => .inl (hfirst e he)
  · exact .inr (.inr he)

/-- Behind a parser without expressions. -/
theorem behind (hp : Traverses d o p) (hq : ∀ a, Collects d o' before (q a) g) :
    Collects d (.seq o o') before (p >>= q) g :=
  .bind hp fun a => (List.append_nil before).symm ▸ hq a

/-- Behind a parser that passes nothing. -/
theorem idle_bind (hp : Traverses d .nothing p) (hq : ∀ a, Collects d o before (q a) g) :
    Collects d o before (p >>= q) g :=
  (behind hp hq).outline fun _ => .of_nothing_seq

/-- A value made of another one. -/
theorem map {h : α → β} (hp : Collects d o [] p f) (hg : ∀ a, g (h a) ⊆ before ++ f a) :
    Collects d o before (p >>= fun a => Pure.pure (h a)) g := by
  refine fun s => (hp s).bind fun a ps s' hps => .pure ⟨(List.append_nil ps).symm ▸ hps.1, fun e he => ?_⟩
  rw [List.append_nil]
  exact (List.mem_append.1 (hg a he)).elim (List.mem_append_left _) fun he => List.mem_append_right _ (hps.2 he)

theorem last {b : β} (hp : Traverses d o p) (h : g b ⊆ before) :
    Collects d o before (p >>= fun _ => Pure.pure b) g :=
  hp.map fun _ => (List.append_nil before).symm ▸ h

/-- Other expressions, which are among those that are collected. -/
theorem value {f' : α → List Expr} (hp : Collects d o before p f) (h : ∀ a, f' a ⊆ f a) : Collects d o before p f' :=
  fun s => (hp s).mono fun a _ _ hps => ⟨hps.1, List.Subset.trans (h a) hps.2⟩

theorem unexpected {expected : String} : Collects d o before (Grammar.unexpected expected) g :=
  fun _ => Passes.unexpected

theorem unsupported {construct : String} : Collects d o before (Grammar.unsupported construct) g :=
  fun _ => Passes.unsupported

theorem look_bind {look? : Cursor → α} (h : ∀ a, Collects d o before (q a) g) :
    Collects d o before (look look? >>= q) g :=
  fun s => Passes.look_bind (h _ s)

/-- A construct that is rejected where a test finds it. -/
theorem refuse {test : Cursor → Bool} {construct : String} (hx : Collects d o before x g) :
    Collects d o before (look test >>= fun b => if b then Grammar.unsupported construct else x) g := by
  refine look_bind fun b => ?_
  cases b with
  | true => exact unsupported
  | false => exact hx

/-! ### Choices -/

/-- One way behind a token that is found, and another one without it. -/
theorem choose {test : Cursor → Bool} {a : Atom} (ht : Spots d test a) (hx : Collects d o before x g)
    (hy : Collects d o' before y g) :
    Collects d (.either (.seq (.atom a) o) o') before (skipWhen test >>= fun b => if b then x else y) g := by
  refine fun s => Passes.skipWhen_bind (fun h => (ht s.cursor h).2.2) (fun h => ?_) fun _ => ?_
  · refine Cuts.token (ht s.cursor h).2.1 ((hx s.advanced).mono fun b ps _ hps => ⟨.left ?_, hps.2⟩)
    exact .seq (.atom (ht s.cursor h).1) hps.1
  · exact (hy s).mono fun b ps _ hps => ⟨.right hps.1, hps.2⟩

/-- With nothing behind the token. -/
theorem chooseAtom {test : Cursor → Bool} {a : Atom} (ht : Spots d test a) (hx : Collects d .nothing before x g)
    (hy : Collects d o' before y g) :
    Collects d (.either (.atom a) o') before (skipWhen test >>= fun b => if b then x else y) g := by
  refine (choose ht hx hy).outline fun ps hps => ?_
  cases hps with
  | right chosen => exact .right chosen
  | left chosen => exact .left chosen.of_seq_nothing

/-- What has to begin with a token. -/
theorem demand {test : Cursor → Bool} {a : Atom} {expected : String} (ht : Spots d test a)
    (hx : Collects d o before x g) : Collects d (.seq (.atom a) o) before
      (skipWhen test >>= fun b => if b then x else Grammar.unexpected expected) g := by
  have hall : Collects d (.either (.seq (.atom a) o) (.seq (.atom a) o)) before
      (skipWhen test >>= fun b => if b then x else Grammar.unexpected expected) g := choose ht hx unexpected
  exact hall.outline fun _ => .of_either_self

theorem demandAtom {test : Cursor → Bool} {a : Atom} {expected : String} (ht : Spots d test a)
    (hx : Collects d .nothing before x g) : Collects d (.atom a) before
      (skipWhen test >>= fun b => if b then x else Grammar.unexpected expected) g := by
  have hall : Collects d (.either (.atom a) (.atom a)) before
      (skipWhen test >>= fun b => if b then x else Grammar.unexpected expected) g := chooseAtom ht hx unexpected
  exact hall.outline fun _ => .of_either_self

/-- Behind a word that stands at the cursor. -/
theorem behindWord {s : State} {k : Keyword} {ks : List Keyword} (hk : s.cursor.keyword? = some k) (hmem : k ∈ ks)
    (hx : Collects d o before x g) : Cuts s (advance >>= fun _ => x) fun b ps _ =>
      Spells d (.seq (.word ks) o) ps ∧ g b ⊆ before ++ Piece.operands ps := by
  have hkind : s.cursor.kind = .keyword k := Cursor.kind_of_atKeyword (decide_eq_true hk)
  have hfits : Atom.Fits d (.word ks) (.token s.cursor.current) := ⟨k, hmem, hkind⟩
  refine Passes.advance_bind (hkind ▸ nofun) (Cuts.token (hkind ▸ nofun) ?_)
  exact (hx s.advanced).mono fun b ps _ hps => ⟨.seq (.atom hfits) hps.1, hps.2⟩

theorem chooseKeyword {k : Keyword} (hx : Collects d o before x g) (hy : Collects d o' before y g) :
    Collects d (.either (.seq (.word [k]) o) o') before (skipKeyword k >>= fun b => if b then x else y) g := by
  rw [skipKeyword_eq]
  exact choose spots_word hx hy

theorem chooseWord {k : Keyword} (hx : Collects d .nothing before x g) (hy : Collects d o' before y g) :
    Collects d (.either (.word [k]) o') before (skipKeyword k >>= fun b => if b then x else y) g := by
  rw [skipKeyword_eq]
  exact chooseAtom spots_word hx hy

theorem demandWord {k : Keyword} {expected : String} (hx : Collects d .nothing before x g) :
    Collects d (.word [k]) before (skipKeyword k >>= fun b => if b then x else Grammar.unexpected expected) g := by
  rw [skipKeyword_eq]
  exact demandAtom spots_word hx

theorem demandKeyword {k : Keyword} {expected : String} (hx : Collects d o before x g) :
    Collects d (.seq (.word [k]) o) before
      (skipKeyword k >>= fun b => if b then x else Grammar.unexpected expected) g := by
  rw [skipKeyword_eq]
  exact demand spots_word hx

theorem chooseOpening (hx : Collects d o before x g) (hy : Collects d o' before y g) :
    Collects d (.either (.seq (.sign .leftParen) o) o') before (skip .leftParen >>= fun b => if b then x else y) g :=
  choose (spots_sign ⟨nofun, nofun⟩) hx hy

/-- A clause behind its keyword, which may be missing. -/
theorem whenKeyword {k : Keyword} {x : Parser Unit} (hx : Traverses d o x) :
    Traverses d (.optional (.seq (.word [k]) o)) (skipKeyword k >>= fun b => if b then x else Pure.pure ()) :=
  chooseKeyword hx (.pure (List.nil_subset _))

/-! ### Lists -/

/-- Items with commas between them. -/
theorem separated {p : Parser α} (hp : Collects d o [] p f) (rounds : Nat) :
    Collects d (.separated o) [] (Grammar.separated p rounds) (·.flatMap f) := by
  have hone : ∀ a, [a].flatMap f ⊆ [] ++ f a := fun a => by simp
  induction rounds with
  | zero =>
    refine (hp.map hone).outline fun ps hps => ?_
    exact .separated (List.append_nil ps ▸ .seq hps (.right .nothing))
  | succ rounds ih =>
    have hmore : ∀ a, Collects d (.optional (.seq (.sign .comma) (.separated o))) ([] ++ f a) (skip .comma >>= fun b =>
        if b then Grammar.separated p rounds >>= fun as => Pure.pure (a :: as) else Pure.pure [a]) (·.flatMap f) := by
      refine fun a => choose (spots_sign ⟨nofun, nofun⟩) (ih.map fun as => ?_) (.pure (hone a))
      exact List.Subset.refl _
    exact (hp.bind hmore).outline fun _ => .separated

theorem commaSeparated {p : Parser α} (hp : Collects d o [] p f) :
    Collects d (.separated o) [] (Grammar.commaSeparated p) (·.flatMap f) :=
  look_bind fun rounds => separated hp rounds

theorem eachSeparated {p : Parser Unit} (hp : Traverses d o p) :
    Traverses d (.separated o) (Grammar.eachSeparated p) :=
  hp.commaSeparated.map fun _ => List.nil_subset _

end Collects

/-! ## Storing -/

/-- A change of a statement that claims no parameter, and whose operands are those given or were there before. -/
structure Adds (put : Statement → Statement) (es : List Expr) : Prop where
  parameters : ∀ c, (put c).parameters = c.parameters
  operands : ∀ c, ∀ e ∈ (put c).operands, e ∈ c.operands ∨ e ∈ es

/-- What is read and then stored. -/
theorem Collects.store {p : Parser α} {put : α → Statement → Statement} {f : α → List Expr} (hp : Collects d o [] p f)
    (hput : ∀ a, Adds (put a) (f a)) : Traverses d o (p >>= fun a => modifyStatement (put a)) := by
  intro s
  refine Passes.bind (hp s) fun a ts s' => ?_
  rintro ⟨ps, rfl, htakes, hspells, hexprs⟩
  have hstored : s.statement.Takes ps (put a s'.statement) :=
    { parameters := ((hput a).parameters _).trans htakes.parameters
      claims := htakes.claims
      operands := fun e he => ((hput a).operands _ e he).elim (htakes.operands e) fun he => .inr (hexprs he) }
  exact Passes.modify ⟨ps, (List.append_nil _).symm, hstored, hspells, List.nil_subset _⟩

/-- A change that has to do with neither parameters nor operands. -/
theorem traverses_modify {put : Statement → Statement} (hp : ∀ c, (put c).parameters = c.parameters)
    (ho : ∀ c, (put c).operands = c.operands) : Traverses d .nothing (modifyStatement put) :=
  fun _ => .modify (hp _) (ho _) ⟨.nothing, List.nil_subset _⟩

theorem traverses_recordTable {rule : Rule} {name : String} {t : Token} :
    Traverses d .nothing (recordTable rule name t) := by
  unfold recordTable
  split
  · exact traverses_modify (fun _ => rfl) fun _ => rfl
  · exact .pure (List.nil_subset _)

/-! ## Tokens -/

theorem traverses_skipWhen {test : Cursor → Bool} {a : Atom} (ht : Spots d test a) :
    Traverses d (.optional (.atom a)) (skipWhen test) := by
  have hsame : skipWhen test = skipWhen test >>= fun b => if b then pure true else pure false := by
    unfold skipWhen
    rw [bind_assoc]
    refine bind_congr fun b => ?_
    cases b <;> rfl
  rw [hsame]
  exact .chooseAtom ht (.pure (List.nil_subset _)) (.pure (List.nil_subset _))

theorem traverses_skipAny {ks : List Keyword} : Traverses d (.optional (.word ks)) (skipAny ks) :=
  traverses_skipWhen spots_word

theorem traverses_skipKeyword {k : Keyword} : Traverses d (.optional (.word [k])) (skipKeyword k) := by
  rw [skipKeyword_eq]
  exact traverses_skipAny

theorem traverses_expect {k : Token.Kind} (hk : k.Ordinary) : Traverses d (.sign k) (expect k) :=
  .look_bind fun _ => .demandAtom (spots_sign hk) (.pure (List.nil_subset _))

theorem traverses_opening : Traverses d (.sign .leftParen) (expect .leftParen) :=
  traverses_expect ⟨nofun, nofun⟩

theorem traverses_closing : Traverses d (.sign .rightParen) (expect .rightParen) :=
  traverses_expect ⟨nofun, nofun⟩

theorem traverses_expectKeyword {k : Keyword} : Traverses d (.word [k]) (expectKeyword k) := by
  unfold expectKeyword
  rw [skipKeyword_eq]
  exact .look_bind fun _ => .demandAtom spots_word (.pure (List.nil_subset _))

theorem traverses_expectName : Traverses d .name expectName := by
  intro s
  rw [← bind_pure expectName]
  refine Passes.expectName_bind fun name hname => Cuts.token (Cursor.ordinary_of_name? hname).1 (.pure ?_)
  have hnamed : s.cursor.current.name? = some name := hname
  exact ⟨.atom (hnamed ▸ rfl : s.cursor.current.name?.isSome), List.nil_subset _⟩

/-! ## Clauses that are skipped -/

/-- Where a parser that recognizes a form succeeds, it has passed a derivation. -/
theorem Recognized.passes {f : Form} {U : List Token → Prop} {s : State} {p : Parser α}
    (h : Token.Complete s.cursor.tokens → Recognized f U s (p s)) : Passes s p fun _ ts s' =>
      (∃ T, f.Derives T ∧ T.tokens = ts) ∧ s'.statement = s.statement := by
  intro hs a s' hr
  have hout := h hs
  rw [hr] at hout
  cases hout with
  | @ok _ c T derived reached _ => exact ⟨T.tokens, reached.tokens, ⟨T, derived.derives, rfl⟩, rfl⟩

/-- What is skipped with a form is one piece. -/
theorem cuts_skipped {f : Form} {U : List Token → Prop} {s : State} {p : Parser α} (hmem : f ∈ d.skippedForms)
    (h : Token.Complete s.cursor.tokens → Recognized f U s (p s)) :
    Cuts s p fun _ ps s' => Spells d (.skipped f) ps ∧ s'.statement = s.statement := by
  refine (Recognized.passes h).mono fun a ts s' => ?_
  rintro ⟨hderived, hs⟩
  exact ⟨[.skipped ts], List.append_nil _, hs ▸ .skipped, .atom ⟨hmem, hderived⟩, hs⟩

/-- A clause that may be missing. -/
theorem traverses_skipped {f : Form} {p : Parser Unit} (hmem : f ∈ d.skippedForms)
    (hp : Recognizes (.optional f) Never p) : Traverses d (.optional (.skipped f)) p := by
  refine fun s => (Recognized.passes (hp s)).mono fun a ts s' => ?_
  rintro ⟨⟨T, hT, rfl⟩, hs⟩
  cases hT with
  | @left _ _ A chosen =>
    have hfits : Atom.Fits d (.skipped f) (.skipped A.tokens) := ⟨hmem, A, chosen, rfl⟩
    exact ⟨[.skipped A.tokens], List.append_nil _, hs ▸ .skipped, .left (.atom hfits), List.nil_subset _⟩
  | right chosen =>
    cases chosen
    exact ⟨[], rfl, .idle (hs ▸ rfl) (hs ▸ rfl), .right .nothing, List.nil_subset _⟩

/-! ## Expressions -/

/-- The parameters of an expression count those of its tokens. -/
theorem cuts_expression {rule : Rule} {s : State} : Cuts s (expression rule) fun e ps _ =>
    ∃ ts, e.Written s.priorAllowed ts ∧ ps = [.operand e ts] := by
  intro hs e s' hr
  obtain ⟨ts, hts, hbuilt⟩ := passes_expression rfl hs e s' hr
  have hout : Traced .generic rule .reading s (expression rule) _ := reads_expression s
  have hout := hout hs
  rw [hr] at hout
  obtain ⟨es, hrun, hallowed, -, hleaves⟩ := hout
  replace hleaves : Event.leaves es = e.leaves := hleaves
  obtain rfl := List.append_cancel_right (hts.symm.trans hrun.tokens_eq)
  have hparameters := Event.parameters_passed hrun.sound fun ev hev => (hallowed ev hev).storing
  have hread : Piece.readParameters [.operand e (Event.passed es)] = (Event.claims es).map Prod.snd := by
    rw [← hparameters, Piece.readParameters, List.flatMap_singleton]
    rfl
  have hclaims : Piece.claims (.operand e (Event.passed es)) =
      Token.numbered s.statement.parameters ((Event.claims es).map Prod.snd) := by
    have htree : ∀ l ∈ Event.leaves es, l.InTree := fun l hl => Expr.inTree_of_mem_leaves (hleaves ▸ hl)
    rw [← Event.map_fst_claims hrun.sound hrun.ordinals_eq htree, ← Event.filter_leaves hrun.sound]
    exact congrArg _ hleaves.symm
  refine ⟨_, hts, [.operand e (Event.passed es)], List.append_nil _, ?_, _, hbuilt.written, rfl⟩
  constructor
  · rw [hread, List.length_map, hrun.parameters_eq, Event.length_claims hrun.sound]
  · rw [hread, List.flatMap_singleton, hclaims]
  · have hclauses := hrun.clauses_eq fun hmem => nomatch hallowed _ hmem
    have hoperands : s'.statement.clauses.operands = s.statement.clauses.operands := congrArg _ hclauses
    exact fun e he => .inl (hoperands ▸ he : e ∈ s.statement.clauses.operands)

theorem collects_expression {rule : Rule} : Collects d .operand [] (expression rule) fun e => [e] := by
  refine fun s => cuts_expression.mono fun e ps _ => ?_
  rintro ⟨ts, hwritten, rfl⟩
  exact ⟨.atom ⟨_, hwritten⟩, List.Subset.refl _⟩

/-- That `PRIOR` is allowed makes no difference. -/
theorem Collects.allowingPrior {p : Parser α} {f : α → List Expr} (hp : Collects d o before p f) :
    Collects d o before (allowingPrior p) f := by
  intro s hs a s' hr
  unfold Grammar.allowingPrior at hr
  cases hp' : p { s with priorAllowed := true } with
  | error e s'' =>
    rw [hp'] at hr
    cases hr
  | ok b s'' =>
    rw [hp'] at hr
    cases hr
    exact hp { s with priorAllowed := true } hs a s'' hp'

end

end Grammar

end SelectRouting
