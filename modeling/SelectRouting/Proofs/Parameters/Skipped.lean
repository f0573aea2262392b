import SelectRouting.Proofs.Outline.Select
import SelectRouting.Proofs.Parameters.Order
/-!
# Parameters that are not counted

A statement counts the parameters that it reads; those inside a clause that is skipped are passed without being
counted.  So the ordinals are places among all parameters of the text if and only if no skipped clause has one
(`counted_iff_none_skipped`).  The `?` of a parameter is told by its place in the text, and that of a row count or an
offset, which has none, by the keyword in front of it (`Statement.Owns`).
-/
namespace SelectRouting

/-- The number of parameters in front of a place. -/
def Token.parametersBefore (source : String) (start : Nat) : Nat :=
  ((parameters (lex source)).filter (·.span.start < start)).length

/-- In tokens that stand one behind the other, so many are in front of the one at a place. -/
theorem Token.length_filter_before {ts : List Token} (h : ts.Pairwise fun a b => a.span.Before b.span) {i : Nat}
    {t : Token} (ht : ts[i]? = some t) : (ts.filter (·.span.start < t.span.start)).length = i := by
  induction ts generalizing i with
  | nil => cases ht
  | cons u ts ih =>
    obtain ⟨hu, hts⟩ := List.pairwise_cons.1 h
    cases i with
    | zero =>
      cases ht
      rw [List.length_eq_zero_iff, List.filter_eq_nil_iff]
      intro v hv
      rcases List.mem_cons.1 hv with rfl | hv
      · simp
      · have := (hu v hv).1
        simp only [decide_eq_true_eq]
        omega
    | succ i =>
      rw [List.getElem?_cons_succ] at ht
      have hut := (hu t (List.mem_of_getElem? ht)).1
      rw [List.filter_cons_of_pos (by exact decide_eq_true hut), List.length_cons, ih hts ht]

/-! ## Parameters of pieces -/

namespace Piece

/-- The parameters of the pieces that are skipped. -/
def skippedParameters (ps : List Piece) : List Token :=
  Token.parameters (ps.flatMap skippedTokens)

theorem tokens_eq (p : Piece) : p.tokens = p.readTokens ++ p.skippedTokens := by
  cases p with
  | skipped ts => rfl
  | token | operand | bound => exact (List.append_nil _).symm

variable {ps : List Piece}

theorem parameters_tokens_cons (p : Piece) (ps : List Piece) : Token.parameters ((p :: ps).flatMap tokens) =
    Token.parameters p.readTokens ++ (Token.parameters p.skippedTokens ++ Token.parameters (ps.flatMap tokens)) := by
  rw [List.flatMap_cons, tokens_eq, Token.parameters_append, Token.parameters_append, List.append_assoc]

theorem readParameters_cons (p : Piece) (ps : List Piece) :
    readParameters (p :: ps) = Token.parameters p.readTokens ++ readParameters ps := by
  rw [readParameters, List.flatMap_cons, Token.parameters_append]
  rfl

theorem skippedParameters_cons (p : Piece) (ps : List Piece) :
    skippedParameters (p :: ps) = Token.parameters p.skippedTokens ++ skippedParameters ps := by
  rw [skippedParameters, List.flatMap_cons, Token.parameters_append]
  rfl

theorem mem_tokens_of_mem_readParameters {t : Token} (h : t ∈ readParameters ps) : t ∈ ps.flatMap tokens := by
  obtain ⟨p, hp, ht⟩ := List.mem_flatMap.1 (List.mem_filter.1 h).1
  refine List.mem_flatMap.2 ⟨p, hp, ?_⟩
  rw [tokens_eq]
  exact List.mem_append_left _ ht

theorem length_parameters (ps : List Piece) : (Token.parameters (ps.flatMap tokens)).length =
    (readParameters ps).length + (skippedParameters ps).length := by
  induction ps with
  | nil => rfl
  | cons p ps ih =>
    rw [parameters_tokens_cons, readParameters_cons, skippedParameters_cons]
    simp only [List.length_append, ih]
    omega

theorem readParameters_of_none_skipped (h : skippedParameters ps = []) :
    readParameters ps = Token.parameters (ps.flatMap tokens) := by
  induction ps with
  | nil => rfl
  | cons p ps ih =>
    rw [skippedParameters_cons, List.append_eq_nil_iff] at h
    rw [parameters_tokens_cons, readParameters_cons, ih h.2, h.1, List.nil_append]

theorem skippedParameters_eq_nil :
    skippedParameters ps = [] ↔ ∀ ts, .skipped ts ∈ ps → ∀ t ∈ ts, t.kind ≠ .question := by
  unfold skippedParameters Token.parameters
  simp only [List.filter_eq_nil_iff, List.mem_flatMap, decide_eq_true_eq]
  constructor
  · exact fun h ts hts t ht => h t ⟨_, hts, ht⟩
  · rintro h t ⟨p, hp, ht⟩
    cases p with
    | skipped ts => exact h ts hp t ht
    | token | operand | bound => cases ht

/-- A row count is behind `TOP` or `FETCH`. -/
theorem exists_of_mem_rowCounts {v : Limit.Value} (h : v ∈ ps.filterMap rowCount?) :
    ∃ k t, (k = .top ∨ k = .fetch) ∧ .bound k v t ∈ ps := by
  obtain ⟨p, hp, hv⟩ := List.mem_filterMap.1 h
  unfold rowCount? at hv
  split at hv
  · cases hv
    exact ⟨_, _, .inl rfl, hp⟩
  · cases hv
    exact ⟨_, _, .inr rfl, hp⟩
  · cases hv

/-- An offset is behind `OFFSET`. -/
theorem exists_of_mem_offsets {v : Limit.Value} (h : v ∈ ps.filterMap offset?) : ∃ t, .bound .offset v t ∈ ps := by
  obtain ⟨p, hp, hv⟩ := List.mem_filterMap.1 h
  unfold offset? at hv
  split at hv
  · cases hv
    exact ⟨_, hp⟩
  · cases hv

end Piece

/-! ## The parameters of a statement -/

namespace Statement

/-- The `?` of the parameter with an ordinal.  That of a placeholder stands at its place, and that of a row count or an
offset is the bound behind the keyword. -/
inductive Owns (s : Statement) (ps : List Piece) (i : Nat) (t : Token) : Prop where
  | placeholder (token : t ∈ ps.flatMap Piece.tokens) (leaf : .placeholder i t.span ∈ s.clauseLeaves)
  | rowCount {k : Keyword} {v : Limit.Value} (behind : k = .top ∨ k = .fetch) (piece : .bound k v t ∈ ps)
    (value : s.limit.bind (·.rowCount) = some (.parameter i))
  | offset {v : Limit.Value} (piece : .bound .offset v t ∈ ps)
    (value : s.limit.bind (·.offset) = some (.parameter i))

variable {d : Dialect} {rule : Rule} {source : String} {s : Statement} {ps : List Piece} {i : Nat} {t : Token}

/-- A leaf is one of the clauses, of the row count or of the offset. -/
theorem mem_leaves_cases {top : Bool} {l : Leaf} (h : l ∈ s.leaves top) :
    l ∈ s.clauseLeaves ∨ l ∈ s.rowCountLeaves ∨ l ∈ s.offsetLeaves := by
  unfold leaves at h
  split at h
  all_goals
    simp only [List.mem_append] at h
    grind

/-- A parameter among the leaves of a value is the value. -/
theorem eq_parameter_of_mem_leaves {value : Option Limit.Value} {l : Leaf}
    (h : l ∈ value.toList.flatMap Limit.Value.leaves) (hi : l.ordinal? = some i) : value = some (.parameter i) := by
  obtain ⟨v, hv, hl⟩ := List.mem_flatMap.1 h
  cases v with
  | literal n => cases hl
  | parameter j =>
    obtain rfl := List.mem_singleton.1 hl
    obtain rfl : j = i := Option.some.inj hi
    exact Option.mem_toList.1 hv

/-- The leaves of the predicate are leaves of the clauses. -/
theorem mem_clauseLeaves_of_mem_predicate {p : Expr} (hp : s.predicate = some p) {l : Leaf} (hl : l ∈ p.leaves) :
    l ∈ s.clauseLeaves := by
  unfold clauseLeaves
  rw [hp]
  simp [hl]

/-- The expressions of a statement are operands of its text. -/
theorem Takes.exists_operand {e : Expr} (h : empty.Takes ps s) (he : e ∈ s.operands) : ∃ ts, .operand e ts ∈ ps := by
  rcases h.operands e he with hempty | hpiece
  · cases hempty
  · obtain ⟨p, hp, hoperand⟩ := List.mem_filterMap.1 hpiece
    cases p with
    | operand e' ts =>
      cases hoperand
      exact ⟨ts, hp⟩
    | _ => cases hoperand

/-- The parameters of the clauses are among those that the pieces stand for. -/
theorem Takes.mem_claims {l : Leaf} (h : empty.Takes ps s) (hl : l ∈ s.clauseLeaves) (hi : l.ordinal? = some i) :
    l ∈ ps.flatMap Piece.claims := by
  have hparameter : l ∈ s.clauseLeaves.filter (·.ordinal?.isSome) := List.mem_filter.2 ⟨hl, by rw [hi]; rfl⟩
  rw [s.filter_clauseLeaves] at hparameter
  obtain ⟨e, he, hle⟩ := List.mem_flatMap.1 hparameter
  obtain ⟨ts, hp⟩ := h.exists_operand he
  exact List.mem_flatMap.2 ⟨_, hp, hle⟩

/-- A placeholder stands at a `?` that is read. -/
theorem Takes.exists_token (h : empty.Takes ps s) {span : Span} (hl : .placeholder i span ∈ s.clauseLeaves) :
    ∃ t ∈ ps.flatMap Piece.tokens, span = t.span := by
  have hclaim := h.mem_claims hl rfl
  rw [h.claims] at hclaim
  obtain ⟨j, t, ht, -, hspan⟩ := Token.mem_numbered.1 hclaim
  exact ⟨t, Piece.mem_tokens_of_mem_readParameters (List.mem_of_getElem? ht), hspan⟩

section
variable (htakes : empty.Takes ps s) (hgains : Limit.Gains none ps s.limit)
include htakes hgains

/-- Every ordinal of a statement has a `?`. -/
theorem exists_owns {top : Bool} {l : Leaf} (hl : l ∈ s.leaves top) (hi : l.ordinal? = some i) :
    ∃ t, s.Owns ps i t := by
  have hrowCounts : (s.limit.bind (·.rowCount)).toList = ps.filterMap Piece.rowCount? := hgains.rowCounts
  have hoffsets : (s.limit.bind (·.offset)).toList = ps.filterMap Piece.offset? := hgains.offsets
  rcases mem_leaves_cases hl with hl | hl | hl
  · cases l with
    | placeholder j span =>
      obtain rfl : j = i := Option.some.inj hi
      obtain ⟨t, ht, rfl⟩ := htakes.exists_token hl
      exact ⟨t, .placeholder ht hl⟩
    | bound j => exact (inTree_of_mem_clauseLeaves hl).elim
    | _ => cases hi
  · have hvalue := eq_parameter_of_mem_leaves hl hi
    have hgained : .parameter i ∈ ps.filterMap Piece.rowCount? := by
      rw [← hrowCounts, hvalue]
      exact List.mem_singleton_self _
    obtain ⟨k, t, hk, ht⟩ := Piece.exists_of_mem_rowCounts hgained
    exact ⟨t, .rowCount hk ht hvalue⟩
  · have hvalue := eq_parameter_of_mem_leaves hl hi
    have hgained : .parameter i ∈ ps.filterMap Piece.offset? := by
      rw [← hoffsets, hvalue]
      exact List.mem_singleton_self _
    obtain ⟨t, ht⟩ := Piece.exists_of_mem_offsets hgained
    exact ⟨t, .offset ht hvalue⟩

/-- The pieces stand for a parameter at the place of its `?`. -/
theorem Owns.mem_claims (h : s.Owns ps i t) :
    t ∈ ps.flatMap Piece.tokens ∧ .placeholder i t.span ∈ ps.flatMap Piece.claims := by
  have hrowCounts : (s.limit.bind (·.rowCount)).toList = ps.filterMap Piece.rowCount? := hgains.rowCounts
  have hoffsets : (s.limit.bind (·.offset)).toList = ps.filterMap Piece.offset? := hgains.offsets
  have hpiece : ∀ {k : Keyword}, .bound k (.parameter i) t ∈ ps →
      t ∈ ps.flatMap Piece.tokens ∧ .placeholder i t.span ∈ ps.flatMap Piece.claims := fun hp =>
    ⟨List.mem_flatMap.2 ⟨_, hp, List.mem_singleton_self _⟩, List.mem_flatMap.2 ⟨_, hp, List.mem_singleton_self _⟩⟩
  cases h with
  | placeholder token leaf => exact ⟨token, htakes.mem_claims leaf rfl⟩
  | @rowCount k v behind piece value =>
    have hv : v ∈ ps.filterMap Piece.rowCount? := by
      rcases behind with rfl | rfl
      · exact List.mem_filterMap.2 ⟨_, piece, rfl⟩
      · exact List.mem_filterMap.2 ⟨_, piece, rfl⟩
    rw [← hrowCounts, value] at hv
    obtain rfl := List.mem_singleton.1 hv
    exact hpiece piece
  | @offset v piece value =>
    have hv : v ∈ ps.filterMap Piece.offset? := List.mem_filterMap.2 ⟨_, piece, rfl⟩
    rw [← hoffsets, value] at hv
    obtain rfl := List.mem_singleton.1 hv
    exact hpiece piece

/-- An ordinal is the place of its `?` among those that are read. -/
theorem Owns.getElem?_readParameters (htokens : ps.flatMap Piece.tokens = Token.lex source) (h : s.Owns ps i t) :
    (Piece.readParameters ps)[i]? = some t := by
  obtain ⟨ht, hclaim⟩ := h.mem_claims htakes hgains
  rw [htakes.claims] at hclaim
  obtain ⟨j, u, hu, hij, hspan⟩ := Token.mem_numbered.1 hclaim
  obtain rfl : i = j := hij.trans (Nat.zero_add j)
  have hmem := Piece.mem_tokens_of_mem_readParameters (List.mem_of_getElem? hu)
  rw [htokens] at ht hmem
  rwa [Token.eq_of_span ht hmem hspan]

end

/-- An accepted text falls into pieces that its dialect reads and clauses that it skips, and the ordinal of a parameter
counts the `?` in front of its own that are read.  It counts all `?` in front of its own, and `parameters` all of the text,
if and only if there is none in a clause that is skipped. -/
theorem counted_iff_none_skipped (h : parse d rule source = .ok s) :
    ∃ ps, d.statement.Spells d ps ∧ ps.flatMap Piece.tokens = Token.lex source ∧
      (∀ e ∈ s.operands, ∃ ts, .operand e ts ∈ ps) ∧ s.parameters = (Piece.readParameters ps).length ∧
      (∀ l ∈ s.leaves (Token.topWritten (Token.lex source)), ∀ i, l.ordinal? = some i → ∃ t, s.Owns ps i t) ∧
      (∀ c ∈ s.conditions, ∀ i, .parameter i ∈ c.values →
        ∃ p, s.predicate = some p ∧ ∃ t, s.Owns ps i t ∧ .placeholder i t.span ∈ p.leaves) ∧
      (∀ i t, s.Owns ps i t → (Piece.readParameters ps)[i]? = some t) ∧
      (((∀ i t, s.Owns ps i t → Token.parametersBefore source t.span.start = i) ∧
          s.parameters = (Token.parameters (Token.lex source)).length) ↔
        ∀ ts, .skipped ts ∈ ps → ∀ t ∈ ts, t.kind ≠ .question) := by
  have hconditions := fun c hc i hi => exists_placeholder_of_mem_conditions h (c := c) hc (i := i) hi
  obtain ⟨ps, hspells, htokens, htakes, hgains⟩ := exists_pieces_of_parse h
  have hlength : s.parameters = (Piece.readParameters ps).length := htakes.parameters.trans (Nat.zero_add _)
  have hread : ∀ i t, s.Owns ps i t → (Piece.readParameters ps)[i]? = some t := fun i t ht =>
    ht.getElem?_readParameters htakes hgains htokens
  refine ⟨ps, hspells, htokens, fun e he => htakes.exists_operand he, hlength,
    fun l hl i hi => exists_owns htakes hgains hl hi, fun c hc i hi => ?_, hread, ?_⟩
  · obtain ⟨p, hp, span, hspan⟩ := hconditions c hc i hi
    rw [Expr.placeholder_mem_nodes] at hspan
    have hleaf := mem_clauseLeaves_of_mem_predicate hp hspan
    obtain ⟨t, ht, rfl⟩ := htakes.exists_token hleaf
    exact ⟨p, hp, t, .placeholder ht hleaf, hspan⟩
  · rw [← Piece.skippedParameters_eq_nil]
    constructor
    · rintro ⟨-, hall⟩
      have hsplit := Piece.length_parameters ps
      rw [htokens, ← hall, ← hlength] at hsplit
      exact List.length_eq_zero_iff.1 (by omega)
    · intro hnone
      have hall : Piece.readParameters ps = Token.parameters (Token.lex source) := by
        rw [Piece.readParameters_of_none_skipped hnone, htokens]
      refine ⟨fun i t ht => ?_, by rw [hlength, hall]⟩
      have hplace := hread i t ht
      rw [hall] at hplace
      exact Token.length_filter_before ((Token.pairwise_before_lex source).sublist List.filter_sublist) hplace

/-- A text with a parameter in a clause that is skipped. -/
def sampledText : String :=
  "SELECT a FROM t SAMPLE (?) WHERE b = ?"

/-- Its second parameter is counted as the first, and as the only one. -/
theorem sampled_parameter_not_counted :
    ∃ s, parse .oracle .empty sampledText = .ok s ∧ s.parameters = 1 ∧
      (Token.parameters (Token.lex sampledText)).length = 2 ∧
      .placeholder 0 ⟨37, 38⟩ ∈ s.leaves (Token.topWritten (Token.lex sampledText)) ∧
      Token.parametersBefore sampledText 37 = 1 := by
  refine exists_of_parse (fun s => (s.parameters, s.leaves (Token.topWritten (Token.lex sampledText))))
    (1, [.column none "a" ⟨7, 8⟩, .table none "t" ⟨14, 15⟩, .column none "b" ⟨33, 34⟩, .placeholder 0 ⟨37, 38⟩])
    rfl (by decide +kernel) fun s _ hrun => ?_
  obtain ⟨hparameters, hleaves⟩ := Prod.mk.inj hrun
  have hcounted : (Token.parameters (Token.lex sampledText)).length = 2 ∧ Token.parametersBefore sampledText 37 = 1 := by
    rw [Token.parametersBefore, Token.lex_of_chars sampledText rfl]
    decide +kernel
  refine ⟨hparameters, hcounted.1, ?_, hcounted.2⟩
  rw [hleaves]
  decide

/-- A piece that Oracle skips has the first parameter. -/
theorem counted_iff_none_skipped_sampled :
    ∃ s, parse .oracle .empty sampledText = .ok s ∧ ∃ ps, (Dialect.statement .oracle).Spells .oracle ps ∧
      ps.flatMap Piece.tokens = Token.lex sampledText ∧ ∃ ts, .skipped ts ∈ ps ∧ ∃ t ∈ ts, t.kind = .question := by
  refine exists_of_parse (·.parameters) 1 rfl (by decide +kernel) fun s hs hparameters => ?_
  obtain ⟨ps, hspells, htokens, -, -, -, -, -, hiff⟩ := counted_iff_none_skipped hs
  refine ⟨ps, hspells, htokens, Classical.byContradiction fun hno => ?_⟩
  have hall := (hiff.2 fun ts hts t ht hk => hno ⟨ts, hts, t, ht, hk⟩).2
  rw [hparameters, show (Token.parameters (Token.lex sampledText)).length = 2 by decide +kernel] at hall
  omega

end Statement

end SelectRouting
