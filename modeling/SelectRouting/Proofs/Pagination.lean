import SelectRouting.Proofs.Nesting.Select
/-!
# The pagination of a statement

`TOP` at the front and `OFFSET … FETCH …` at the end write one limit together, and record an edit for each number.
The limit, the edits and the words of the text are all determined by the values that were written (`Limit.Values`),
each clause adds its own to them, and from that all of the bookkeeping follows (`pagination_of_parse`).
-/
namespace SelectRouting

/-! ## What the values determine -/

namespace Statement.Pagination

/-- The record of the values behind `TOP`, `OFFSET` and `FETCH`. -/
def written (top offset fetch : Option Limit.Value) : Pagination where
  limit := if top.isNone && offset.isNone then none else some ⟨offset, top <|> fetch, offset.isSome⟩
  rowCounts := ((top <|> fetch).bind Limit.Value.literal?).toList
  offsets := (offset.bind Limit.Value.literal?).toList

variable {top offset fetch : Option Limit.Value}

theorem limit_written_eq_none : (written top offset fetch).limit = none ↔ top = none ∧ offset = none := by
  cases top <;> cases offset <;> simp [written]

/-- A limit is there as soon as one of its values is. -/
theorem eq_of_limit_written {l : Limit} (h : (written top offset fetch).limit = some l) :
    l = ⟨offset, top <|> fetch, offset.isSome⟩ ∧ (offset.isSome ∨ (top <|> fetch).isSome) := by
  cases top <;> cases offset <;> simp_all [written]

theorem offset_written : (written top offset fetch).limit.bind (·.offset) = offset := by
  cases top <;> cases offset <;> rfl

end Statement.Pagination

namespace Statement

theorem pagination_addEdit_rowCount (s : Statement) (hs : s.pagination.rowCounts = []) (start n : Nat) :
    (s.addEdit (.rowCount start n)).pagination = { s.pagination with rowCounts := [n] } := by
  have hs : s.edits.filterMap Edit.rowCount? = [] := hs
  rw [pagination, addEdit, Edit.filterMap_insert_of_nil hs, Edit.filterMap_insert_of_none rfl]
  rfl

theorem pagination_addEdit_offset (s : Statement) (hs : s.pagination.offsets = []) (start n : Nat) :
    (s.addEdit (.offset start n)).pagination = { s.pagination with offsets := [n] } := by
  have hs : s.edits.filterMap Edit.offset? = [] := hs
  rw [pagination, addEdit, Edit.filterMap_insert_of_nil hs, Edit.filterMap_insert_of_none rfl]
  rfl

end Statement

/-- The word that opens a clause, if the clause has a value. -/
def Keyword.behind (k : Keyword) (value : Option Limit.Value) : List Keyword :=
  value.toList.map fun _ => k

theorem Keyword.mem_behind {k k' : Keyword} {value : Option Limit.Value} :
    k' ∈ k.behind value ↔ value.isSome = true ∧ k' = k := by
  cases value <;> simp [behind]

/-- The values that a statement was written with; `FETCH` stands behind `OFFSET`, and not together with `TOP`. -/
structure Limit.Values where
  top : Option Limit.Value
  offset : Option Limit.Value
  fetch : Option Limit.Value
  of_fetch : fetch.isSome → offset.isSome ∧ top = none

namespace Limit.Values

protected def none : Values :=
  ⟨none, none, none, nofun⟩

def words (v : Values) : List Keyword :=
  Keyword.top.behind v.top ++ (Keyword.offset.behind v.offset ++ Keyword.fetch.behind v.fetch)

def record (v : Values) : Statement.Pagination :=
  .written v.top v.offset v.fetch

variable (v : Values)

theorem top_mem_words : .top ∈ v.words ↔ v.top.isSome = true := by
  simp [words, Keyword.mem_behind]

theorem offset_mem_words : .offset ∈ v.words ↔ v.offset.isSome = true := by
  simp [words, Keyword.mem_behind]

theorem fetch_mem_words : .fetch ∈ v.words ↔ v.fetch.isSome = true := by
  simp [words, Keyword.mem_behind]

theorem rowCount_record : v.record.limit.bind (·.rowCount) = (v.top <|> v.fetch) := by
  obtain ⟨top, offset, fetch, h⟩ := v
  cases top <;> cases offset <;> cases fetch <;> first | rfl | simp at h

end Limit.Values

namespace Grammar

open Token (Marked)
open Statement.Pagination (written)

variable {d : Dialect} {rule : Rule} {s : State}

/-! ## Values -/

theorem steady_limitValue : Steady d limitValue := by
  refine fun n s => .look_bind ?_
  split
  · next v hk =>
    unfold literalLimit
    split
    · exact .fail
    · exact WalksAt.advance_bind (congrArg Token.Kind.common hk) .pure
  · next hk =>
    -- The ordinal is claimed before the token is passed.
    have hadvance : WalksAt d { s with statement := s.statement.claimParameter } n (advance >>= fun _ =>
        pure (.parameter s.statement.parameters, s.cursor.span) : Parser (Limit.Value × Span)) n :=
      .advance_bind (congrArg Token.Kind.common hk) .pure
    exact hadvance
  · exact .unexpected

/-- An edit is recorded for a number, and none for a parameter. -/
theorem passes_recordLimit {edit : Nat → Nat → Edit} {v : Limit.Value} {span : Span}
    (set : List Nat → Statement.Pagination) (hnone : s.statement.pagination = set [])
    (hsome : ∀ n, (s.statement.addEdit (edit span.start n)).pagination = set [n]) :
    Passes s (recordLimit edit v span) fun _ ts s' => ts = [] ∧ s'.statement.pagination = set v.literal?.toList := by
  cases v with
  | literal n =>
    show Passes s (modifyStatement (·.addEdit (edit span.start n))) _
    exact .modify ⟨rfl, hsome n⟩
  | parameter i =>
    show Passes s (pure ()) _
    exact .pure ⟨rfl, hnone⟩

theorem passes_recordRowCount {v : Limit.Value} {span : Span} (hs : s.statement.pagination.rowCounts = []) :
    Passes s (recordLimit .rowCount v span) fun _ ts s' => ts = [] ∧
      s'.statement.pagination = { s.statement.pagination with rowCounts := v.literal?.toList } :=
  passes_recordLimit (fun ns => { s.statement.pagination with rowCounts := ns }) (by rw [← hs])
    (s.statement.pagination_addEdit_rowCount hs span.start)

theorem passes_recordOffset {v : Limit.Value} {span : Span} (hs : s.statement.pagination.offsets = []) :
    Passes s (recordLimit .offset v span) fun _ ts s' => ts = [] ∧
      s'.statement.pagination = { s.statement.pagination with offsets := v.literal?.toList } :=
  passes_recordLimit (fun ns => { s.statement.pagination with offsets := ns }) (by rw [← hs])
    (s.statement.pagination_addEdit_offset hs span.start)

/-! ## TOP -/

theorem steady_topValue : Steady d topValue := by
  refine fun n => .branchOpening ?_ (steady_limitValue n)
  exact .bind (steady_limitValue (n + 1)) fun _ => .bind .closing fun _ => .pure

theorem steady_skipTies : Steady d skipTies :=
  fun _ => .branch (.skipKeyword rfl) (.bind (.expectKeyword rfl) fun _ => .pure) .pure

theorem pagination_storeRowCount (v : Limit.Value) {s : Statement} (hs : s.limit = none) :
    (storeRowCount v s).pagination = { s.pagination with limit := some ⟨none, some v, false⟩ } := by
  simp [Statement.pagination, storeRowCount, Statement.limitOr, Limit.empty, hs]

theorem passes_topClause (hs : s.statement.pagination = written none none none) : Passes s topClause fun _ ts s' =>
    ∃ top, Marked ts (Keyword.top.behind top) ∧ s'.statement.pagination = written top none none := by
  refine .skipKeyword_bind (fun hk => ?_) fun _ => .pure ⟨none, .nil, hs⟩
  refine (steady_topValue (d := .sqlServer)).passes.bind fun ⟨v, span⟩ ts s₁ ⟨hts, hs₁⟩ => .look_bind ?_
  split
  · exact .unsupported
  · refine (steady_skipTies (d := .sqlServer)).passes.bind fun _ us s₂ ⟨hus, hs₂⟩ => ?_
    have hs₂ : s₂.statement.pagination = written none none none := hs₂.trans (hs₁.trans hs)
    refine (passes_recordRowCount (by rw [hs₂]; rfl)).bind fun _ vs s₃ ⟨hvs, hs₃⟩ => .modify ⟨some v, ?_, ?_⟩
    · rw [hvs, List.append_nil, List.append_nil]
      exact .keyword hk rfl (hts.append hus)
    · have hlimit : s₃.statement.limit = none := by
        rw [hs₂] at hs₃
        exact congrArg Statement.Pagination.limit hs₃
      show (storeRowCount v s₃.statement).pagination = _
      rw [pagination_storeRowCount v hlimit, hs₃, hs₂]
      rfl

/-! ## OFFSET and FETCH -/

theorem steady_expectRows : Steady d expectRows :=
  fun _ => .branch (.skipAny (by decide)) .pure .unexpected

/-- A row count behind `FETCH` is recorded unless there is one. -/
theorem passes_recordFetch {v : Limit.Value} {span : Span} {top : Option Limit.Value} {offsets : List Nat}
    (hs : s.statement.pagination = { written top none none with offsets := offsets }) :
    Passes s (recordFetch v span) fun _ ts s' => ts = [] ∧ top = none ∧
      s'.statement.pagination = { s.statement.pagination with rowCounts := v.literal?.toList } := by
  have hlimit : s.statement.limit = (written top none none).limit := congrArg Statement.Pagination.limit hs
  refine .inspect_bind ?_
  cases top with
  | some w =>
    have hcount : s.statement.hasRowCount = true := by rw [Statement.hasRowCount, hlimit]; rfl
    rw [if_pos hcount]
    exact .fail
  | none =>
    have hcount : s.statement.hasRowCount = false := by rw [Statement.hasRowCount, hlimit]; rfl
    rw [if_neg (by simp [hcount])]
    exact (passes_recordRowCount (by rw [hs]; rfl)).mono fun _ ts s' ⟨hts, hs'⟩ => ⟨hts, rfl, hs'⟩

theorem passes_fetchClause {top : Option Limit.Value} {offsets : List Nat}
    (hs : s.statement.pagination = { written top none none with offsets := offsets }) :
    Passes s fetchClause fun fetch ts s' => Marked ts (Keyword.fetch.behind fetch) ∧ (fetch.isSome → top = none) ∧
      s'.statement.pagination = { written top none none with
        rowCounts := ((top <|> fetch).bind Limit.Value.literal?).toList, offsets := offsets } := by
  refine .skipKeyword_bind (fun hk => .skipAny_bind (fun ⟨k, hmem, hk'⟩ => ?_) .unexpected) fun _ => ?_
  · refine (steady_limitValue (d := .sqlServer)).passes.bind fun ⟨v, span⟩ ts s₁ ⟨hts, hs₁⟩ => ?_
    have honly : Steady .sqlServer (expectKeyword .only) := fun _ => .expectKeyword rfl
    refine (steady_expectRows (d := .sqlServer)).passes.bind fun _ us s₂ ⟨hus, hs₂⟩ => ?_
    refine honly.passes.bind fun _ vs s₃ ⟨hvs, hs₃⟩ => ?_
    have hs₃ := hs₃.trans (hs₂.trans (hs₁.trans hs))
    refine (passes_recordFetch hs₃).bind fun _ ws s₄ ⟨hws, htop, hs₄⟩ => .pure ⟨?_, fun _ => htop, ?_⟩
    · have hfirst : Marked [s.advanced.cursor.current] [] := by
        have hcommon : ∀ k ∈ [Keyword.first, .next], (Token.Kind.keyword k).common = true := by decide
        exact .of_walk (d := .sqlServer) (walk_current hk' (hcommon k hmem) .nil)
      rw [hws, List.append_nil, List.append_nil]
      exact .keyword hk rfl (hfirst.append (hts.append (hus.append hvs)))
    · rw [hs₄, hs₃, htop]
      rfl
  · refine Passes.pure ⟨.nil, nofun, ?_⟩
    cases top <;> exact hs

theorem pagination_mergeLimit {s : Statement} {top : Option Limit.Value} (hs : s.limit = (written top none none).limit)
    (v : Limit.Value) (w : Option Limit.Value) : (s.mergeLimit true ⟨some v, w, true⟩).pagination =
      { s.pagination with limit := (written top (some v) w).limit } := by
  rw [Statement.pagination, Statement.mergeLimit, Statement.limitOr, hs]
  cases top <;> rfl

theorem passes_offsetFetch {top : Option Limit.Value} (hs : s.statement.pagination = written top none none) :
    Passes s offsetFetch fun _ ts s' => ∃ v : Limit.Values, v.top = top ∧
      Marked ts (Keyword.offset.behind v.offset ++ Keyword.fetch.behind v.fetch) ∧
        s'.statement.pagination = v.record := by
  refine .skipKeyword_bind (fun hk => ?_) fun _ => .pure ⟨⟨top, none, none, nofun⟩, rfl, .nil, hs⟩
  refine (steady_limitValue (d := .sqlServer)).passes.bind fun ⟨v, span⟩ ts s₁ ⟨hts, hs₁⟩ => ?_
  refine (steady_expectRows (d := .sqlServer)).passes.bind fun _ us s₂ ⟨hus, hs₂⟩ => ?_
  have hs₂ : s₂.statement.pagination = written top none none := hs₂.trans (hs₁.trans hs)
  refine (passes_recordOffset (by rw [hs₂]; rfl)).bind fun _ vs s₃ ⟨hvs, hs₃⟩ => ?_
  rw [hs₂] at hs₃
  refine (passes_fetchClause hs₃).bind fun fetch ws s₄ ⟨hws, htop, hs₄⟩ => .modify ?_
  refine ⟨⟨top, some v, fetch, fun h => ⟨rfl, htop h⟩⟩, rfl, ?_, ?_⟩
  · rw [hvs, List.nil_append, List.append_nil]
    exact .keyword hk rfl (hts.append (hus.append hws))
  · have hlimit : s₄.statement.limit = (written top none none).limit := congrArg Statement.Pagination.limit hs₄
    show (s₄.statement.mergeLimit true ⟨some v, fetch, true⟩).pagination = _
    rw [pagination_mergeLimit hlimit, hs₄]
    rfl

/-! ## Whole statements -/

theorem passes_clauses_sqlServer (hs : s.statement.pagination = written none none none) :
    Passes s (clauses .sqlServer rule) fun _ ts s' =>
      ∃ v : Limit.Values, Marked ts v.words ∧ s'.statement.pagination = v.record := by
  have hbehind : Steady .sqlServer skipForOutput := steady_skipForOutput (by decide)
  rw [clauses_sqlServer]
  refine steady_distinct.passes.bind fun _ ts s₁ hdistinct => ?_
  obtain ⟨hts, hs₁⟩ := hdistinct
  refine (passes_topClause (hs₁.trans hs)).bind fun _ us s₂ htop => ?_
  obtain ⟨top, hus, hs₂⟩ := htop
  refine steady_plainClauses.passes.bind fun _ vs s₃ hclauses => ?_
  obtain ⟨hvs, hs₃⟩ := hclauses
  refine (passes_offsetFetch (hs₃.trans hs₂)).bind fun _ ws s₄ hoffset => ?_
  obtain ⟨v, rfl, hws, hs₄⟩ := hoffset
  refine hbehind.passes.mono fun _ xs s₅ hfor => ⟨v, ?_, hfor.2.trans hs₄⟩
  have hall := hts.append (hus.append (hvs.append (hws.append hfor.1)))
  rw [List.nil_append, List.nil_append, List.append_nil] at hall
  exact hall

theorem passes_clauses (hs : s.statement = .empty) : Passes s (clauses d rule) fun _ ts s' =>
    ∃ ks, Marked ts ks ∧ ∃ v : Limit.Values, ks = v.words ∧ s'.statement.pagination = v.record ∧
      (d ≠ .sqlServer → v = .none) := by
  have hs : s.statement.pagination = written none none none := by rw [hs]; rfl
  by_cases hd : d = .sqlServer
  · subst hd
    refine (passes_clauses_sqlServer hs).mono fun _ ts s' h => ?_
    obtain ⟨v, hts, hs'⟩ := h
    exact ⟨v.words, hts, v, rfl, hs', fun h => absurd rfl h⟩
  · refine (steady_clauses hd).passes.mono fun _ ts s' h => ?_
    exact ⟨[], h.1, .none, rfl, h.2.trans hs, fun _ => rfl⟩

end Grammar

namespace Statement

variable {d : Dialect} {rule : Rule} {source : String} {s : Statement}

/-- The pagination of an accepted text and its landmarks are determined by the values that it was written with, of which
there are none outside of SQL Server. -/
theorem exists_values_of_parse (h : parse d rule source = .ok s) : ∃ v : Limit.Values,
    Token.landmarks (Token.lex source) = .select :: v.words ∧ s.pagination = v.record ∧
      (d ≠ .sqlServer → v = .none) := by
  obtain ⟨ks, hks, v, rfl, hs, hd⟩ := exists_landmarks_of_parse
    (Q := fun ks s => ∃ v : Limit.Values, ks = v.words ∧ s.pagination = v.record ∧ (d ≠ .sqlServer → v = .none))
    (fun _ => Grammar.passes_clauses) h
  exact ⟨v, hks, hs, hd⟩

/-- The limit of a SQL Server statement and the edits of its numbers say the same, the limit is there if and only if the
text has a word for it, and there is one row count at most; the other dialects have no pagination. -/
theorem pagination_of_parse (h : parse d rule source = .ok s) :
    (d = .sqlServer →
      s.edits.filterMap Edit.rowCount? = ((s.limit.bind (·.rowCount)).bind Limit.Value.literal?).toList ∧
      s.edits.filterMap Edit.offset? = ((s.limit.bind (·.offset)).bind Limit.Value.literal?).toList ∧
      (∀ l, s.limit = some l → (l.offset.isSome ↔ l.offsetFirst) ∧ (l.offset.isSome ∨ l.rowCount.isSome)) ∧
      (s.limit = none ↔ ¬ Token.Stands source .top ∧ ¬ Token.Stands source .offset) ∧
      ¬ (Token.Stands source .top ∧ Token.Stands source .fetch)) ∧
    (d ≠ .sqlServer →
      s.limit = none ∧ s.edits.filterMap Edit.rowCount? = [] ∧ s.edits.filterMap Edit.offset? = []) := by
  obtain ⟨v, hwords, hs, hd⟩ := exists_values_of_parse h
  have hlimit : s.limit = v.record.limit := congrArg Pagination.limit hs
  have hrowCounts : s.edits.filterMap Edit.rowCount? = _ := congrArg Pagination.rowCounts hs
  have hoffsets : s.edits.filterMap Edit.offset? = _ := congrArg Pagination.offsets hs
  have hstands (k : Keyword) (hk : (Token.Kind.keyword k).common = false) (hne : k ≠ .select) :
      Token.Stands source k ↔ k ∈ v.words := by
    rw [Token.stands_iff hk, hwords, List.mem_cons, or_iff_right hne]
  have htop : Token.Stands source .top ↔ v.top.isSome := (hstands .top rfl nofun).trans v.top_mem_words
  have hoffset : Token.Stands source .offset ↔ v.offset.isSome := (hstands .offset rfl nofun).trans v.offset_mem_words
  have hfetch : Token.Stands source .fetch ↔ v.fetch.isSome := (hstands .fetch rfl nofun).trans v.fetch_mem_words
  rw [hlimit, hrowCounts, hoffsets, htop, hoffset, hfetch]
  refine ⟨fun _ => ⟨?_, ?_, fun l hl => ?_, ?_, ?_⟩, fun hne => ?_⟩
  · rw [v.rowCount_record]
    rfl
  · rw [Limit.Values.record, Pagination.offset_written]
    rfl
  · obtain ⟨rfl, hsome⟩ := Pagination.eq_of_limit_written hl
    exact ⟨Iff.rfl, hsome⟩
  · rw [Limit.Values.record, Pagination.limit_written_eq_none]
    simp
  · rintro ⟨ht, hf⟩
    rw [(v.of_fetch hf).2] at ht
    cases ht
  · rw [hd hne]
    exact ⟨rfl, rfl, rfl⟩

/-- A text with a row count in front, an offset behind it, and a hint that is not looked into. -/
def mergedText : String :=
  "SELECT TOP (3) a FROM t WITH (fetch) ORDER BY a OFFSET ? ROWS"

theorem pagination_of_parse_merged : ∃ s, parse .sqlServer .empty mergedText = .ok s ∧
    s.limit = some ⟨some (.parameter 0), some (.literal 3), true⟩ ∧ s.edits.filterMap Edit.rowCount? = [3] ∧
      s.edits.filterMap Edit.offset? = [] ∧ ¬ Token.Stands mergedText .fetch := by
  refine exists_of_parse (·.limit) (some ⟨some (.parameter 0), some (.literal 3), true⟩) rfl (by decide +kernel)
    fun s hs hlimit => ?_
  obtain ⟨hrowCounts, hoffsets, -, -, hboth⟩ := (pagination_of_parse hs).1 rfl
  rw [hlimit] at hrowCounts hoffsets
  have htop : Token.Stands mergedText .top := by
    rw [Token.Stands, Token.outside, Token.lex_of_chars mergedText rfl]
    decide +kernel
  exact ⟨hlimit, hrowCounts, hoffsets, fun hfetch => hboth ⟨htop, hfetch⟩⟩

end Statement

end SelectRouting
