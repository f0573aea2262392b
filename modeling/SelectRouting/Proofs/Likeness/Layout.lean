import SelectRouting.Proofs.Likeness.Pairing
import SelectRouting.Proofs.Token.Order
/-!
# Layout

What stands between tokens does not count.  Two texts with the same tokens, whatever their places, are accepted or refused
alike (`Statement.parse_of_same_tokens`): the statements differ only in spans and in the starts of edits, and each edit, or
the error, is at the same token in both.  On the way, whatever has been read before, the tokens left are read to the same
expression wherever they are, with the same parameters and the same edits (`Moved.expression`).
-/
namespace SelectRouting

namespace Token

/-- Two tokens at the same index of their texts, with the same kind and the same characters. -/
structure SameIndex (a b : String) (t u : Token) : Prop where
  index : ∃ i : Nat, (lex a)[i]? = some t ∧ (lex b)[i]? = some u
  kind : t.kind = u.kind
  text : t.text = u.text

variable {a b : String}

/-- Tokens start in the order of their indices. -/
theorem start_le_iff {i j : Nat} {t t' : Token} (hi : (lex a)[i]? = some t) (hj : (lex a)[j]? = some t') :
    t.span.start ≤ t'.span.start ↔ i ≤ j := by
  have hbefore : ∀ {i j : Nat} {t t' : Token}, (lex a)[i]? = some t → (lex a)[j]? = some t' → i < j →
      t.span.start < t'.span.start := by
    intro i j t t' hi hj hij
    obtain ⟨hli, rfl⟩ := List.getElem?_eq_some_iff.1 hi
    obtain ⟨hlj, rfl⟩ := List.getElem?_eq_some_iff.1 hj
    exact (List.pairwise_iff_getElem.1 (pairwise_before_lex a) i j hli hlj hij).1
  rcases Nat.lt_trichotomy i j with hij | rfl | hij
  · have := hbefore hi hj hij
    omega
  · rw [hi] at hj
    cases hj
    simp
  · have := hbefore hj hi hij
    omega

theorem SameIndex.order {t u t' u' : Token} (h : SameIndex a b t u) (h' : SameIndex a b t' u') :
    t.span.start ≤ t'.span.start ↔ u.span.start ≤ u'.span.start := by
  obtain ⟨i, ht, hu⟩ := h.index
  obtain ⟨j, ht', hu'⟩ := h'.index
  rw [start_le_iff ht ht', start_le_iff hu hu']

/-- Texts that agree token by token in kind and characters. -/
theorem forall₂_sameIndex
    (h : List.Forall₂ (fun t u => t.kind = u.kind ∧ t.span.slice a = u.span.slice b) (lex a) (lex b)) :
    List.Forall₂ (SameIndex a b) (lex a) (lex b) := by
  refine List.forall₂_iff_get.2 ⟨h.length_eq, fun i hi hi' => ?_⟩
  obtain ⟨hkind, hslice⟩ := (List.forall₂_iff_get.1 h).2 i hi hi'
  rw [slice_of_mem_lex (List.get_mem _ _), slice_of_mem_lex (List.get_mem _ _)] at hslice
  exact ⟨⟨i, List.getElem?_eq_getElem hi, List.getElem?_eq_getElem hi'⟩, hkind, hslice⟩

end Token

namespace Grammar

@[simp] theorem name_unplaced (s : String) : View.unplaced.name s = s := by
  simp [View.unplaced, View.name]

@[simp] theorem kind_map_unplaced (k : Token.Kind) : k.map .unplaced = k := by
  cases k <;> simp [Token.Kind.map]

theorem cause_map_unplaced (cause : ParseError.Cause) : cause.map .unplaced = cause := by
  cases cause <;> simp [ParseError.Cause.map]

/-- Tokens paired by their index. -/
def layoutPairing (rule : Rule) (a b : String) : Pairing rule rule where
  view := .unplaced
  token := Token.SameIndex a b
  kind := fun h => congrArg _ h.kind
  text := fun h => congrArg _ h.text
  span := fun _ _ => rfl
  start := fun _ => rfl
  order := fun h h' => h.order h'
  containsTable := fun _ => rfl
  isShardingColumn := fun _ _ => rfl

/-- Tokens paired in any way that keeps their kinds, their characters and their order. -/
def orderedPairing (rule : Rule) (token : Token → Token → Prop) (kind : ∀ {t u}, token t u → t.kind = u.kind)
    (text : ∀ {t u}, token t u → t.text = u.text)
    (order : ∀ {t u t' u'}, token t u → token t' u' → (t.span.start ≤ t'.span.start ↔ u.span.start ≤ u'.span.start)) :
    Pairing rule rule where
  view := .unplaced
  token := token
  kind := fun h => congrArg _ (kind h)
  text := fun h => congrArg _ (text h)
  span := fun _ _ => rfl
  start := fun _ => rfl
  order := order
  containsTable := fun _ => rfl
  isShardingColumn := fun _ _ => rfl

/-! ## On the way -/

/-- The starts of the edits so far and of the tokens left. -/
def State.starts (s : State) : List Nat :=
  s.statement.edits.map Edit.start ++ s.cursor.tokens.map (·.span.start)

/-- Two states in front of the same tokens at other places.  Nothing but places tells what has been read apart, and all
starts are in the same order. -/
structure Moved (s s' : State) : Prop where
  tokens : List.Forall₂ (fun t u => t.kind = u.kind ∧ t.text = u.text) s.cursor.tokens s'.cursor.tokens
  statement : s.statement.map .unplaced = s'.statement.map .unplaced
  priorAllowed : s.priorAllowed = s'.priorAllowed
  order : ∀ p ∈ s.starts.zip s'.starts, ∀ q ∈ s.starts.zip s'.starts, p.1 ≤ q.1 ↔ p.2 ≤ q.2

namespace Moved

variable {rule : Rule} {s s' t t' : State}

/-! ## Pairs of starts -/

theorem zip_starts (h : s.statement.edits.length = s'.statement.edits.length) : s.starts.zip s'.starts =
    (s.statement.edits.zip s'.statement.edits).map (Prod.map Edit.start Edit.start) ++
      (s.cursor.tokens.zip s'.cursor.tokens).map (Prod.map (·.span.start) (·.span.start)) := by
  rw [State.starts, State.starts, List.zip_append (by simpa using h), List.zip_map, List.zip_map]

theorem edits_alike (h : s.statement.map .unplaced = s'.statement.map .unplaced) :
    List.Forall₂ (fun e e' => e.map .unplaced = e'.map .unplaced) s.statement.edits s'.statement.edits := by
  have hedits : s.statement.edits.map (Edit.map .unplaced) = s'.statement.edits.map (Edit.map .unplaced) :=
    congrArg Statement.edits h
  rwa [← List.forall₂_eq_eq_eq, List.forall₂_map_left_iff, List.forall₂_map_right_iff] at hedits

/-- Tokens paired by their starts. -/
def pairing (h : Moved s s') (rule : Rule) : Pairing rule rule where
  view := .unplaced
  token t u := (t.kind = u.kind ∧ t.text = u.text) ∧ (t.span.start, u.span.start) ∈ s.starts.zip s'.starts
  kind := fun htu => congrArg _ htu.1.1
  text := fun htu => congrArg _ htu.1.2
  span := fun _ _ => rfl
  start := fun _ => rfl
  order := fun htu htu' => h.order _ htu.2 _ htu'.2
  containsTable := fun _ => rfl
  isShardingColumn := fun _ _ => rfl

/-- Where an edit has been made, a token may start. -/
theorem edits_pairing (h : Moved s s') {e e' : Edit} (hmap : e.map .unplaced = e'.map .unplaced)
    (hstart : (e.start, e'.start) ∈ s.starts.zip s'.starts) : (h.pairing rule).Edits e e' :=
  ⟨hmap, ⟨.eof, ⟨e.start, 0⟩, ""⟩, ⟨.eof, ⟨e'.start, 0⟩, ""⟩, ⟨⟨rfl, rfl⟩, hstart⟩, rfl, rfl⟩

theorem states (h : Moved s s') : (h.pairing rule).likeness.States s s' := by
  have hedits := edits_alike h.statement
  have hzip := zip_starts hedits.length_eq
  constructor
  · refine List.forall₂_iff_zip.2 ⟨h.tokens.length_eq, fun {t u} htu => ⟨List.forall₂_zip h.tokens htu, ?_⟩⟩
    rw [hzip]
    exact List.mem_append_right _ (List.mem_map_of_mem htu)
  · have hstatement := h.statement
    simp only [Statement.map, Statement.mk.injEq] at hstatement
    obtain ⟨hdistinct, hitems, hsources, hpredicate, hgroups, hhaving, horder, hlimit, hconditions, hparameters, -⟩ :=
      hstatement
    refine ⟨hdistinct, hitems, hsources, hpredicate, hgroups, hhaving, horder, hlimit, hparameters, ?_, hconditions⟩
    refine List.forall₂_iff_zip.2 ⟨hedits.length_eq, fun {e e'} he => h.edits_pairing (List.forall₂_zip hedits he) ?_⟩
    rw [hzip]
    exact List.mem_append_left _ (List.mem_map_of_mem he)
  · exact h.priorAllowed

/-- States reached from moved states by the same steps are moved. -/
theorem of_states (h : Moved s s') (ht : (h.pairing rule).likeness.States t t') : Moved t t' := by
  have hedits : List.Forall₂ (h.pairing rule).Edits t.statement.edits t'.statement.edits := ht.statement.edits
  have hpairs : ∀ p ∈ t.starts.zip t'.starts, p ∈ s.starts.zip s'.starts := by
    intro p hp
    rw [zip_starts hedits.length_eq] at hp
    rcases List.mem_append.1 hp with hp | hp
    · obtain ⟨⟨e, e'⟩, he, rfl⟩ := List.mem_map.1 hp
      obtain ⟨t, u, htu, hstart, hstart'⟩ := (List.forall₂_zip hedits he).tokens
      rw [Prod.map, hstart, hstart']
      exact htu.2
    · obtain ⟨⟨t, u⟩, htu, rfl⟩ := List.mem_map.1 hp
      exact (List.forall₂_zip ht.cursor htu).2
  constructor
  · exact List.Forall₂.imp (fun _ _ htu => htu.1) ht.cursor
  · exact Pairing.map_eq_of_statements ht.statement
  · exact ht.priorAllowed
  · exact fun p hp q hq => h.order p (hpairs p hp) q (hpairs q hq)

/-- **An expression does not depend on its place.** -/
theorem expression (h : Moved s s') {e : Expr} (hr : expression rule s = .ok e t) :
    ∃ e' t', Grammar.expression rule s' = .ok e' t' ∧ e.map .unplaced = e'.map .unplaced ∧ Moved t t' := by
  have hresults := Likeness.agrees_expression (C := (h.pairing rule).likeness) s s' h.states
  rw [hr] at hresults
  generalize Grammar.expression rule s' = r at hresults
  cases hresults with
  | ok value state => exact ⟨_, _, rfl, value, h.of_states state⟩

end Moved

end Grammar

namespace Statement

/-- **Layout does not count.**  Two texts that agree token by token in kind and characters have statements that are equal
but for their spans and the starts of their edits, the edits at tokens of the same indices; or they have errors with the
same cause at tokens of the same index. -/
theorem parse_of_same_tokens (d : Dialect) (rule : Rule) {a b : String}
    (h : List.Forall₂ (fun t u => t.kind = u.kind ∧ t.span.slice a = u.span.slice b) (Token.lex a) (Token.lex b)) :
    (∃ s s', parse d rule a = .ok s ∧ parse d rule b = .ok s' ∧ s.map .unplaced = s'.map .unplaced ∧
      List.Forall₂ (fun e e' => ∃ (i : Nat) (t u : Token), (Token.lex a)[i]? = some t ∧ (Token.lex b)[i]? = some u ∧
        e.start = t.span.start ∧ e'.start = u.span.start) s.edits s'.edits) ∨
    ∃ e e', parse d rule a = .error e ∧ parse d rule b = .error e' ∧ e.cause = e'.cause ∧
      ∃ (i : Nat) (t u : Token), (Token.lex a)[i]? = some t ∧ (Token.lex b)[i]? = some u ∧
        e.span = t.span ∧ e'.span = u.span := by
  have halike := (Grammar.layoutPairing rule a b).parse_alike d (Token.forall₂_sameIndex h)
  rcases halike with ⟨s, s', ha, hb, hmap, hedits⟩ | ⟨e, e', ha, hb, hcause, t, u, htu, he, he'⟩
  · refine .inl ⟨s, s', ha, hb, hmap, hedits.imp fun e e' hee' => ?_⟩
    obtain ⟨t, u, htu, he, he'⟩ := hee'.tokens
    obtain ⟨i, ht, hu⟩ := htu.index
    exact ⟨i, t, u, ht, hu, he, he'⟩
  · obtain ⟨i, ht, hu⟩ := htu.index
    have hsame : e.cause.map .unplaced = e'.cause.map .unplaced := hcause
    rw [Grammar.cause_map_unplaced, Grammar.cause_map_unplaced] at hsame
    exact .inr ⟨e, e', ha, hb, hsame, i, t, u, ht, hu, he, he'⟩

/-- A statement over two lines, with comments. -/
def spreadText : String :=
  "SELECT  a -- the column\n FROM /* the table */ t WHERE a = 1"

/-- The same statement on one line. -/
def denseText : String :=
  "SELECT a FROM t WHERE a=1"

theorem parse_of_same_tokens_spreadText : ∃ s s', parse .generic ⟨[⟨"t", ["a"], []⟩]⟩ spreadText = .ok s ∧
    parse .generic ⟨[⟨"t", ["a"], []⟩]⟩ denseText = .ok s' ∧ s.map .unplaced = s'.map .unplaced ∧
    s.edits.map Edit.start = [46] ∧ s'.edits.map Edit.start = [14] := by
  have hspread : (parse .generic ⟨[⟨"t", ["a"], []⟩]⟩ spreadText).toOption.map (·.edits.map Edit.start) = some [46] := by
    rw [parse_of_chars spreadText rfl]
    decide +kernel
  have hdense : (parse .generic ⟨[⟨"t", ["a"], []⟩]⟩ denseText).toOption.map (·.edits.map Edit.start) = some [14] := by
    rw [parse_of_chars denseText rfl]
    decide +kernel
  have htokens : List.Forall₂ (fun t u : Token => t.kind = u.kind ∧ t.span.slice spreadText = u.span.slice denseText)
      (Token.lex spreadText) (Token.lex denseText) := by
    rw [Token.lex_of_chars spreadText rfl, Token.lex_of_chars denseText rfl]
    decide +kernel
  rcases parse_of_same_tokens .generic ⟨[⟨"t", ["a"], []⟩]⟩ (a := spreadText) (b := denseText) htokens with
    ⟨s, s', ha, hb, hmap, -⟩ | ⟨e, e', ha, -, -, -⟩
  · rw [ha] at hspread
    rw [hb] at hdense
    exact ⟨s, s', ha, hb, hmap, Option.some.inj hspread, Option.some.inj hdense⟩
  · rw [ha] at hspread
    cases hspread

end Statement

end SelectRouting
