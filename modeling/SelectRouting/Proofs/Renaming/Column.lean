import SelectRouting.Proofs.Likeness.Layout
import SelectRouting.Proofs.Renaming.Expression
/-!
# Keywords that are names

Where a column stands in an expression, any keyword that is not reserved may stand: a text with such a keyword in the place
of a column without an owner is read as the same expression with that column renamed, up to the same token and with the same
parameters and edits.  Only a keyword that calls an aggregate is refused there, since a parenthesis is awaited behind it
(`expression_of_keyword`).
-/
namespace SelectRouting

namespace Token

/-- Of the same kind, with the same characters. -/
def Alike (t u : Token) : Prop :=
  t.kind = u.kind ∧ t.text = u.text

instance : DecidableRel Alike :=
  fun t u => inferInstanceAs (Decidable (t.kind = u.kind ∧ t.text = u.text))

theorem Complete.exchange {t u : Token} (ht : t.kind ≠ .eof) (hu : u.kind ≠ .eof) {before after : List Token}
    (h : Complete (before ++ t :: after)) : Complete (before ++ u :: after) := by
  induction before with
  | nil => exact .inr ⟨hu, (h.resolve_left fun heof => ht heof.1).2⟩
  | cons x before ih =>
    rcases h with ⟨-, hnil⟩ | ⟨hx, h⟩
    · exact absurd (List.append_eq_nil_iff.1 hnil).2 (List.cons_ne_nil _ _)
    · exact .inr ⟨hx, ih h⟩

/-- No two tokens stand in one place. -/
theorem span_ne_of_lex {source : String} {t : Token} {before after : List Token} (h : lex source = before ++ t :: after) :
    ∀ x ∈ before ++ after, x.span ≠ t.span := by
  have hpairs := pairwise_before_lex source
  rw [h, List.pairwise_append, List.pairwise_cons] at hpairs
  obtain ⟨-, ⟨hafter, -⟩, hbefore⟩ := hpairs
  intro x hx hspan
  rcases List.mem_append.1 hx with hx | hx
  · have hlt : x.span.start < t.span.start := (hbefore x hx t List.mem_cons_self).1
    rw [hspan] at hlt
    exact Nat.lt_irrefl _ hlt
  · have hlt : t.span.start < x.span.start := (hafter x hx).1
    rw [hspan] at hlt
    exact Nat.lt_irrefl _ hlt

/-- A place parts the tokens of a text in one way. -/
theorem split_of_span {source : String} {t u : Token} {before after before' after' : List Token}
    (h : lex source = before ++ t :: after) (h' : lex source = before' ++ u :: after') (hspan : t.span = u.span) :
    before' = before ∧ u = t ∧ after' = after := by
  have hne := span_ne_of_lex h'
  rw [h'] at h
  refine (List.append_cons_inj_of_notMem (fun hmem => ?_) fun hmem => ?_).1 h
  · exact hne t (List.mem_append_left _ hmem) hspan
  · exact hne t (List.mem_append_right _ hmem) hspan

/-- A token that is like one of the second text, and stands in the place of the token with its index in the first. -/
structure Matches (a b : String) (t u : Token) : Prop where
  index : ∃ (i : Nat) (t₀ : Token), (lex a)[i]? = some t₀ ∧ t₀.span = t.span ∧ (lex b)[i]? = some u
  alike : Alike t u

section
variable {a b : String}

theorem forall₂_matches {ts : List Token} (hspans : ts.map (·.span) = (lex a).map (·.span))
    (h : List.Forall₂ Alike ts (lex b)) : List.Forall₂ (Matches a b) ts (lex b) := by
  refine List.forall₂_iff_get.2 ⟨h.length_eq, fun i hi hi' => ?_⟩
  have hspan : (lex a)[i]?.map (·.span) = some ts[i].span := by
    rw [← List.getElem?_map, ← hspans, List.getElem?_map, List.getElem?_eq_getElem hi]
    rfl
  obtain ⟨t₀, ht₀, hspan⟩ := Option.map_eq_some_iff.1 hspan
  exact ⟨⟨i, t₀, ht₀, hspan, List.getElem?_eq_getElem hi'⟩, (List.forall₂_iff_get.1 h).2 i hi hi'⟩

theorem Matches.order {t u t' u' : Token} (h : Matches a b t u) (h' : Matches a b t' u') :
    t.span.start ≤ t'.span.start ↔ u.span.start ≤ u'.span.start := by
  obtain ⟨i, t₀, ht, hspan, hu⟩ := h.index
  obtain ⟨j, t₀', ht', hspan', hu'⟩ := h'.index
  rw [← hspan, ← hspan', start_le_iff ht ht', start_le_iff hu hu']

/-- The place tells the index. -/
theorem Matches.eq_of_span {t u v : Token} (h : Matches a b t u) {i : Nat} {t₀ : Token} (ht₀ : (lex a)[i]? = some t₀)
    (hspan : t.span = t₀.span) (hv : (lex b)[i]? = some v) : u = v := by
  obtain ⟨j, t₁, ht₁, hspan₁, hu⟩ := h.index
  have hstart : t₁.span.start = t₀.span.start := by rw [hspan₁, hspan]
  have hij := (start_le_iff ht₀ ht₁).1 (Nat.le_of_eq hstart.symm)
  have hji := (start_le_iff ht₁ ht₀).1 (Nat.le_of_eq hstart)
  rw [Nat.le_antisymm hij hji] at hv
  exact Option.some.inj (hu.symm.trans hv)

end

end Token

namespace Grammar

/-- Tokens that match. -/
def matchPairing (rule : Rule) (a b : String) : Pairing rule rule :=
  orderedPairing rule (Token.Matches a b) (fun h => h.alike.1) (fun h => h.alike.2) fun h h' => h.order h'

variable {rule : Rule} {source : String} {s : State} {e : Expr}

/-! ## Columns and their tokens -/

/-- A column without an owner is one of the tokens passed. -/
theorem exists_token_of_column (h : expression rule (.ofSource source) = .ok e s) {name : String} {span : Span}
    (hcolumn : .column none name span ∈ e.nodes) : ∃ before t between,
      Token.lex source = before ++ t :: (between ++ s.cursor.tokens) ∧ t.span = span ∧ t.name? = some name := by
  have hreads : Reads .generic rule .reading [] (expression rule) Expr.leaves := reads_expression
  have hread := hreads (.ofSource source) (State.complete_ofSource source)
  rw [h] at hread
  obtain ⟨es, hrun, -, -, hleaves⟩ := hread
  have hmem : Leaf.column none name span ∈ Event.leaves es := by
    rw [← List.nil_append (Event.leaves es), hleaves]
    exact Expr.column_mem_nodes.1 hcolumn
  obtain ⟨ev, hev, hleaf⟩ := List.mem_filterMap.1 hmem
  have hpassed : ∀ t ∈ ev.tokens, ∃ before between, Token.lex source = before ++ t :: (between ++ s.cursor.tokens) := by
    intro t ht
    obtain ⟨before, between, hsplit⟩ := List.append_of_mem (List.mem_flatMap.2 ⟨ev, hev, ht⟩)
    have htokens := hrun.tokens_eq
    rw [State.tokens_ofSource, Event.passed, hsplit] at htokens
    exact ⟨before, between, by rw [htokens, List.append_assoc, List.cons_append]⟩
  cases ev with
  | name l ts =>
    cases hleaf
    have hspelled : (Leaf.column none name span).SpelledBy ts := hrun.sound _ hev
    match ts, hspelled with
    | [t], ⟨hname, hspan⟩ =>
      obtain ⟨before, between, hlex⟩ := hpassed t (List.mem_singleton_self t)
      exact ⟨before, t, between, hlex, hspan.symm, hname⟩
  | parameter l t =>
    cases hleaf
    obtain ⟨-, i, h | h⟩ := hrun.sound _ hev <;> cases h
  | _ => cases hleaf

namespace Exchange

variable {X : Exchange} {t : State}

/-! ## On the same places -/

theorem map_put {ts : List Token} (h : X.old ∉ ts) : ts.map X.put = ts := by
  have hid : ∀ t ∈ ts, X.put t = t := by
    rintro t ht
    exact put_of_ne fun heq => h (heq ▸ ht)
  rw [List.map_congr_left hid, List.map_id']

theorem map_put_tokens : X.tokens.map X.put = X.before ++ X.new :: X.after := by
  rw [tokens, List.map_append, List.map_cons, map_put old_notMem.1, map_put old_notMem.2, put_old]

theorem tokens_state (hs : s.cursor.tokens = X.tokens) : (X.state s).cursor.tokens = X.before ++ X.new :: X.after := by
  rw [← map_put_tokens, ← hs]
  rfl

/-- In the place of the keyword, another one may be put. -/
def again (X : Exchange) (word : Keyword) (free : word.reserved = false) : Exchange :=
  { X with
    old := X.new
    word := word
    isName := isName_new
    free := free
    complete := X.complete.exchange (X.isName.ne_of_bare trivial) (isName_new.ne_of_bare trivial) }

/-- Where a tree has the column, the keyword is read as the column, unless it calls an aggregate. -/
theorem expression_of_column (hs : s.cursor.tokens = X.tokens) (hr : expression rule s = .ok e t) {name : String}
    (hcolumn : .column none name X.old.span ∈ e.nodes) :
    X.StandsAlone ∧ (X.word.isAggregate = false → expression rule (X.state s) = .ok (X.rename e) (X.state t)) ∧
      (X.word.isAggregate = true → X.Refuses (expression rule (X.state s))) := by
  have hat : X.At s := ⟨[], hs, nofun⟩
  obtain ⟨-, hsound, hrun⟩ := follows_expression hat e t hr
  have halone := hsound name (Expr.column_mem_nodes.1 hcolumn)
  refine ⟨halone, fun hplain => ?_, fun haggregate => ?_⟩
  · refine (hrun halone).resolve_right fun hrefused => ?_
    exact Bool.noConfusion (hplain.symm.trans hrefused.1)
  · refine (hrun halone).resolve_left fun hok => ?_
    -- Where the keyword had been read as a column, it would be no aggregate.
    have hat' : (X.again .nulls rfl).At (X.state s) := ⟨[], tokens_state hs, nofun⟩
    have hsound' := (follows_expression hat' _ _ hok).2.1
    have hnodes : .column none X.written X.old.span ∈ (X.rename e).nodes := by
      rw [rename, Expr.nodes_rename]
      exact List.mem_map.2 ⟨_, hcolumn, Expr.rename_column name⟩
    have hplain := (hsound' X.written (Expr.column_mem_nodes.1 hnodes)).plain X.word rfl
    exact Bool.noConfusion (hplain.symm.trans haggregate)

/-! ## On other places -/

section
variable {source' : String} {before' after' : List Token} {u : Token} (hlex : Token.lex source = X.tokens)
  (hlex' : Token.lex source' = before' ++ u :: after') (hbefore : List.Forall₂ Token.Alike X.before before')
  (hnew : X.new.Alike u) (hafter : List.Forall₂ Token.Alike X.after after')
include hlex hlex' hbefore hnew hafter

/-- From another text with the same tokens, the keyword among them, the same is read but for places. -/
theorem results_of_alike (rule : Rule) : (matchPairing rule source source').likeness.Results (Same (Expr.map .unplaced))
    (expression rule (X.state (.ofSource source))) (expression rule (.ofSource source')) := by
  have hlike : List.Forall₂ Token.Alike (X.before ++ X.new :: X.after) (Token.lex source') := by
    rw [hlex']
    exact List.rel_append hbefore (.cons hnew hafter)
  have hspans : (X.before ++ X.new :: X.after).map (·.span) = (Token.lex source).map (·.span) := by
    rw [hlex, ← map_put_tokens, List.map_map]
    exact List.map_congr_left fun t _ => span_put t
  have hcursor := Token.forall₂_matches hspans hlike
  have hs : (State.ofSource source).cursor.tokens = X.tokens := (State.tokens_ofSource source).trans hlex
  rw [← State.tokens_ofSource, ← tokens_state hs] at hcursor
  refine Likeness.agrees_expression _ _ ⟨hcursor, ?_, rfl⟩
  exact ⟨rfl, rfl, rfl, rfl, rfl, rfl, rfl, rfl, rfl, .nil, rfl⟩

theorem accepts_of_alike (hr : expression rule (X.state (.ofSource source)) = .ok e t) :
    ∃ e' t', expression rule (.ofSource source') = .ok e' t' ∧ e'.map .unplaced = e.map .unplaced ∧
      List.Forall₂ Token.Alike t.cursor.tokens t'.cursor.tokens ∧
      t'.statement.map .unplaced = t.statement.map .unplaced := by
  have hresults := results_of_alike hlex hlex' hbefore hnew hafter rule
  rw [hr] at hresults
  generalize expression rule (.ofSource source') = r at hresults
  cases hresults with
  | @ok _ e' _ t' value state =>
    have hvalue : e.map .unplaced = e'.map .unplaced := value
    have hstatement : t.statement.map .unplaced = t'.statement.map .unplaced :=
      Pairing.map_eq_of_statements state.statement
    exact ⟨e', t', rfl, hvalue.symm, List.Forall₂.imp (fun _ _ h => h.alike) state.cursor, hstatement.symm⟩

/-- The keyword is refused at the token behind it. -/
theorem refuses_of_alike (hr : X.Refuses (expression rule (X.state (.ofSource source)))) :
    ∃ v ∈ after'.head?, ∃ s', expression rule (.ofSource source') = .error ⟨.unexpected "LeftParen" v.kind, v.span⟩ s' := by
  obtain ⟨-, next, hnext, t, hr⟩ := hr
  have hresults := results_of_alike hlex hlex' hbefore hnew hafter rule
  rw [hr] at hresults
  obtain ⟨after, hafters⟩ := List.head?_eq_some_iff.1 hnext
  rw [hafters] at hafter
  obtain ⟨v, vs, hv, -, rfl⟩ := List.forall₂_cons_left_iff.1 hafter
  -- The token behind the keyword has the same index in both texts.
  have hsecond : ∀ (ts : List Token) x y us, (ts ++ x :: y :: us)[ts.length + 1]? = some y := by simp
  have hindex : (Token.lex source)[X.before.length + 1]? = some next := by
    rw [hlex, tokens, hafters]
    exact hsecond _ _ _ _
  have hindex' : (Token.lex source')[X.before.length + 1]? = some v := by
    rw [hlex', hbefore.length_eq]
    exact hsecond _ _ _ _
  refine ⟨v, rfl, ?_⟩
  generalize expression rule (.ofSource source') = r at hresults
  cases hresults with
  | @error _ error _ t' herror =>
    obtain ⟨hcause, x, y, hmatch, hspan, hspan'⟩ := herror
    have hcause : (ParseError.Cause.unexpected "LeftParen" next.kind).map .unplaced = error.cause.map .unplaced := hcause
    rw [cause_map_unplaced, cause_map_unplaced, hv.1] at hcause
    rw [hmatch.eq_of_span hindex hspan.symm hindex'] at hspan'
    refine ⟨t', ?_⟩
    rw [hcause, ← hspan']

end

end Exchange

/-- **A keyword that is not reserved is a name.**  An expression is read from a text, and a column without an owner is
among its nodes.  Then the column is one token that neither a parenthesis nor a point follows, and in every text that has
a keyword that is not reserved in the place of that token, and otherwise the same tokens: unless the keyword calls an
aggregate, the same expression is read but for places, with the column called as the keyword is written, in front of the
same tokens and with the same parameters and edits; and if it does, the text is refused at the token behind it. -/
theorem expression_of_keyword (rule : Rule) {source : String} {e : Expr} {s : State}
    (h : expression rule (.ofSource source) = .ok e s) {name : String} {span : Span}
    (hcolumn : .column none name span ∈ e.nodes) :
    ∃ before t after, Token.lex source = before ++ t :: after ∧ t.span = span ∧ t.name? = some name ∧
      (∀ v ∈ after.head?, v.kind ≠ .leftParen ∧ v.kind ≠ .dot) ∧
      ∀ source' before' u after' k, Token.lex source' = before' ++ u :: after' → u.kind = .keyword k →
        k.reserved = false → List.Forall₂ Token.Alike before before' → List.Forall₂ Token.Alike after after' →
        (k.isAggregate = false → ∃ e' s', expression rule (.ofSource source') = .ok e' s' ∧
          e'.map .unplaced = (e.rename span u.text).map .unplaced ∧
          List.Forall₂ Token.Alike s.cursor.tokens s'.cursor.tokens ∧
          s'.statement.map .unplaced = s.statement.map .unplaced) ∧
        (k.isAggregate = true → ∃ v ∈ after'.head?, ∃ s',
          expression rule (.ofSource source') = .error ⟨.unexpected "LeftParen" v.kind, v.span⟩ s') := by
  obtain ⟨before, t, between, hlex, rfl, hname⟩ := exists_token_of_column h hcolumn
  -- The column, and any keyword in its place.
  let X (k : Keyword) (written : String) (free : k.reserved = false) : Exchange :=
    { before := before, old := t, after := between ++ s.cursor.tokens, word := k, written := written, free := free
      isName := Token.Kind.isName_iff.2 ⟨name, hname⟩
      apart := Token.span_ne_of_lex hlex
      complete := hlex ▸ Token.complete_lex source }
  have hread : ∀ k written free, _ := fun k written free =>
    (X k written free).expression_of_column ((State.tokens_ofSource source).trans hlex) h hcolumn
  refine ⟨before, t, _, hlex, rfl, hname, (hread .nulls "" rfl).1.next, ?_⟩
  intro source' before' u after' k hlex' hk hfree hbefore hafter
  have hnew : (X k u.text hfree).new.Alike u := ⟨hk.symm, rfl⟩
  obtain ⟨-, haccepts, hrefuses⟩ := hread k u.text hfree
  constructor
  · intro hplain
    obtain ⟨e', s', hr, he, htokens, hstatement⟩ :=
      Exchange.accepts_of_alike hlex hlex' hbefore hnew hafter (haccepts hplain)
    refine ⟨e', s', hr, he, ?_, hstatement⟩
    have hpassed : t ∉ s.cursor.tokens :=
      fun ht => (Exchange.old_notMem (X := X k u.text hfree)).2 (List.mem_append_right _ ht)
    rwa [← Exchange.map_put (X := X k u.text hfree) hpassed]
  · exact fun haggregate => Exchange.refuses_of_alike hlex hlex' hbefore hnew hafter (hrefuses haggregate)

/-- A column under `NOT`, in front of an operator, in a branch. -/
def columnText : String :=
  "f(x) = CASE WHEN NOT a LIKE 'x' THEN ? END"

/-- A keyword in the place of the column. -/
def wordText : String :=
  "f(x) = CASE WHEN NOT Seed LIKE 'x' THEN ? END"

/-- An aggregate in the place of the column. -/
def aggregateText : String :=
  "f(x) = CASE WHEN NOT Count LIKE 'x' THEN ? END"

theorem expression_of_keyword_columnText : ∃ e s, expression .empty (.ofSource columnText) = .ok e s ∧
    .column none "a" ⟨21, 22⟩ ∈ e.nodes ∧
    (∃ e' s', expression .empty (.ofSource wordText) = .ok e' s' ∧
      e'.map .unplaced = (e.rename ⟨21, 22⟩ "Seed").map .unplaced ∧ s'.statement.map .unplaced = s.statement.map .unplaced) ∧
    ∃ s', expression .empty (.ofSource aggregateText) =
      .error ⟨.unexpected "LeftParen" (.keyword .like), ⟨27, 31⟩⟩ s' := by
  have hends : (match expression .empty (.ofSource columnText) with
      | .ok e _ => decide (Leaf.column none "a" ⟨21, 22⟩ ∈ e.leaves)
      | .error _ _ => false) = true := by
    rw [State.ofSource_of_chars columnText rfl]
    decide +kernel
  have hcolumn : Token.lex columnText = (Token.lex columnText).take 8 ++ ⟨.identifier "a", ⟨21, 22⟩, "a"⟩ ::
      (Token.lex columnText).drop 9 := by
    rw [Token.lex_of_chars columnText rfl]
    decide +kernel
  have hword : Token.lex wordText = (Token.lex wordText).take 8 ++ ⟨.keyword .seed, ⟨21, 25⟩, "Seed"⟩ ::
      (Token.lex wordText).drop 9 := by
    rw [Token.lex_of_chars wordText rfl]
    decide +kernel
  have haggregate : Token.lex aggregateText = (Token.lex aggregateText).take 8 ++
      ⟨.keyword .count, ⟨21, 26⟩, "Count"⟩ :: (Token.lex aggregateText).drop 9 := by
    rw [Token.lex_of_chars aggregateText rfl]
    decide +kernel
  have hwordAlike : List.Forall₂ Token.Alike ((Token.lex columnText).take 8) ((Token.lex wordText).take 8) ∧
      List.Forall₂ Token.Alike ((Token.lex columnText).drop 9) ((Token.lex wordText).drop 9) := by
    rw [Token.lex_of_chars columnText rfl, Token.lex_of_chars wordText rfl]
    decide +kernel
  have haggregateAlike : List.Forall₂ Token.Alike ((Token.lex columnText).take 8) ((Token.lex aggregateText).take 8) ∧
      List.Forall₂ Token.Alike ((Token.lex columnText).drop 9) ((Token.lex aggregateText).drop 9) ∧
      ((Token.lex aggregateText).drop 9).head? = some ⟨.keyword .like, ⟨27, 31⟩, "LIKE"⟩ := by
    rw [Token.lex_of_chars columnText rfl, Token.lex_of_chars aggregateText rfl]
    decide +kernel
  cases hr : expression .empty (.ofSource columnText) with
  | error e s =>
    rw [hr] at hends
    cases hends
  | ok e s =>
    rw [hr] at hends
    have hmem : .column none "a" ⟨21, 22⟩ ∈ e.nodes := Expr.column_mem_nodes.2 (of_decide_eq_true hends)
    obtain ⟨before, t, after, hlex, hspan, -, -, hall⟩ := expression_of_keyword .empty hr hmem
    obtain ⟨rfl, -, rfl⟩ := Token.split_of_span hlex hcolumn hspan
    obtain ⟨haccepts, -⟩ := hall _ _ _ _ _ hword rfl rfl hwordAlike.1 hwordAlike.2
    obtain ⟨-, hrefuses⟩ := hall _ _ _ _ _ haggregate rfl rfl haggregateAlike.1 haggregateAlike.2.1
    obtain ⟨e', s', hr', he', -, hs'⟩ := haccepts rfl
    obtain ⟨v, hv, s'', hrefused⟩ := hrefuses rfl
    obtain rfl := Option.some.inj (haggregateAlike.2.2.symm.trans hv)
    exact ⟨e, s, rfl, hmem, ⟨e', s', hr', he', hs'⟩, s'', hrefused⟩

/-- Not every keyword that is not reserved is a name: a column is read from the first text, and in the second the name of
an aggregate, which is not reserved, stands in its place. -/
theorem expression_refused_at_count : ∃ e s, expression .empty (.ofSource "a") = .ok e s ∧
    .column none "a" ⟨0, 1⟩ ∈ e.nodes ∧ Token.lex "a" = [⟨.identifier "a", ⟨0, 1⟩, "a"⟩, ⟨.eof, ⟨1, 1⟩, ""⟩] ∧
    Token.lex "count" = [⟨.keyword .count, ⟨0, 5⟩, "count"⟩, ⟨.eof, ⟨5, 5⟩, ""⟩] ∧ Keyword.count.reserved = false ∧
    ∃ error s', expression .empty (.ofSource "count") = .error error s' := by
  have haccepted : (match expression .empty (.ofSource "a") with
      | .ok e _ => decide (Leaf.column none "a" ⟨0, 1⟩ ∈ e.leaves)
      | .error _ _ => false) = true := by decide +kernel
  have hrefused : (match expression .empty (.ofSource "count") with
      | .ok _ _ => false
      | .error _ _ => true) = true := by decide +kernel
  cases hr : expression .empty (.ofSource "a") with
  | error e s =>
    rw [hr] at haccepted
    cases haccepted
  | ok e s =>
    rw [hr] at haccepted
    have hmem : .column none "a" ⟨0, 1⟩ ∈ e.nodes := Expr.column_mem_nodes.2 (of_decide_eq_true haccepted)
    cases hr' : expression .empty (.ofSource "count") with
    | ok e' s' =>
      rw [hr'] at hrefused
      cases hrefused
    | error error s' => exact ⟨e, s, rfl, hmem, by decide +kernel, by decide +kernel, rfl, error, s', rfl⟩

end Grammar

end SelectRouting
