import SelectRouting.Proofs.Trace.Clause
/-!
# What an accepted text is made of

An accepted text is passed from its first to its last token, and the clauses that it leaves behind are made of what
was read on the way (`Statement.readFrom_of_parse`).  Only in Oracle something is read and then dropped.
-/
namespace SelectRouting

/-- Whether `TOP` stands behind `SELECT`, or behind one of the two words that may stand between them. -/
def Token.topWritten : List Token → Bool
  | _ :: t :: u :: _ =>
    t.kind = .keyword .top || (t.kind = .keyword .distinct || t.kind = .keyword .all) && u.kind = .keyword .top
  | _ => false

theorem Token.topWritten_cons (t : Token) {c : Cursor} (hc : Complete c.tokens) : topWritten (t :: c.tokens) =
    (c.kind = .keyword .top || (c.kind = .keyword .distinct || c.kind = .keyword .all) &&
      c.advance.kind = .keyword .top) := by
  obtain ⟨source, u, us⟩ := c
  cases us with
  | nil =>
    have hu : u.kind = .eof := by
      rcases hc with ⟨hu, -⟩ | ⟨-, h⟩
      · exact hu
      · exact h.elim
    simp [topWritten, Cursor.tokens, Cursor.kind, hu]
  | cons v vs =>
    have hu : u.kind ≠ .eof := by
      rcases hc with ⟨-, h⟩ | ⟨hu, -⟩
      · cases h
      · exact hu
    have hadvance : (Cursor.mk source u (v :: vs)).advance = ⟨source, v, vs⟩ := by
      unfold Cursor.advance
      split
      · exact absurd ‹_› hu
      · contradiction
      · next heq _ =>
        obtain ⟨rfl, rfl⟩ := List.cons.inj heq
        rfl
    rw [hadvance]
    rfl

/-- Clauses that are made of the leaves that were read, with the conditions of their predicate. -/
structure Statement.ReadAs (d : Dialect) (rule : Rule) (top : Bool) (c : Statement) (ls : List Leaf) : Prop where
  leaves : d ≠ .oracle → ls = c.leaves top
  sublist : (c.leaves top).Sublist ls
  conditions : c.conditions = c.predicate.toList.flatMap (Condition.ofPredicate rule c.tables)

theorem Statement.ReadAs.of_leaves {d : Dialect} {rule : Rule} {top : Bool} {c : Statement} {ls : List Leaf}
    (hleaves : ls = c.leaves top)
    (hcond : c.conditions = c.predicate.toList.flatMap (Condition.ofPredicate rule c.tables)) :
    c.ReadAs d rule top ls :=
  ⟨fun _ => hleaves, hleaves ▸ .refl ls, hcond⟩

namespace Grammar

section
variable {d : Dialect} {rule : Rule} {m : Mode} {s s' : State}

/-! ## The two ends of a statement -/

theorem silent_skipXmlOption (hd : ∀ k ∈ [.raw, .path, .root, .xmlschema], k ∈ d.skippedClauses) :
    Silent d rule .reading skipXmlOption := by
  have hregion : Skims d rule skipOptionalRegion := by
    refine .check_bind fun b => ?_
    cases b with
    | true => exact .region_bind fun _ => .pure
    | false => exact .pure
  have hkind : ∀ {s : State} {k : Keyword}, s.cursor.keyword? = some k → s.cursor.kind = .keyword k := fun h =>
    Cursor.kind_of_atKeyword (decide_eq_true h)
  have hpass : ∀ {s : State} {k : Keyword}, s.cursor.keyword? = some k →
      ReadsAt d rule .reading s [] (advance >>= fun _ => pure ()) fun _ => [] := fun {_ k} h =>
    .advance_bind (.of_eq (hkind h) (Token.Kind.ordinary_keyword k)) (.pure rfl)
  refine fun s => .look_bind ?_
  split
  case h_1 h | h_2 h | h_3 h | h_4 h => exact Traced.skip_clause (hkind h) (hd _ (by simp)) hregion
  case h_5 h | h_6 h | h_7 h => exact hpass h
  case h_8 h =>
    exact ReadsAt.advance_bind (.of_eq (hkind h) (Token.Kind.ordinary_keyword _))
      (.silent_bind silent_skipAny fun _ => .pure rfl)
  case h_9 => exact .unexpected

theorem silent_skipForOutput (hd : ∀ k ∈ [.raw, .path, .root, .xmlschema], k ∈ d.skippedClauses) :
    Silent d rule .reading skipForOutput := by
  refine .branch silent_skipKeyword (.branch silent_skipKeyword (.pure rfl) fun s => .look_bind ?_) (.pure rfl)
  split
  · exact .unexpected
  · refine Reads.branch silent_skipKeyword ?_ .unsupported s
    refine (silent_skipXmlOption hd).commaSeparated.andThen fun _ => .pure ?_
    simp

/-- `DISTINCT` or `ALL` is passed if it is there, and then `TOP` stands next or not. -/
theorem traced_distinct (t : Token) : Traced d rule .storing s (distinct d) fun _ es s' =>
    Event.leaves es = [] ∧ (∃ b, s'.statement.clauses = { s.statement.clauses with distinct := b }) ∧
      (d.distinctSynonyms = [] →
        (s'.cursor.kind = .keyword .top ↔ Token.topWritten (t :: s.cursor.tokens) = true)) := by
  have hput : Stores fun c => { c with distinct := true } := ⟨fun _ => rfl, fun _ => rfl, fun _ => rfl⟩
  intro hs
  rw [Token.topWritten_cons t hs]
  revert hs
  refine Traced.skipAny_bind (fun ⟨k, hk, hkind⟩ => ?_) fun hno =>
    .skipKeyword_bind (fun hall => .pure ?_) fun hall => .pure ?_
  · refine (Traced.store hput).mono fun _ es s' => ?_
    rintro ⟨rfl, rfl⟩
    refine ⟨rfl, ⟨true, rfl⟩, fun hd => ?_⟩
    rw [hd, List.mem_singleton] at hk
    subst hk
    simp [hkind, State.advanced]
  · exact ⟨rfl, ⟨_, rfl⟩, fun _ => by simp [hall, State.advanced]⟩
  · have hdistinct : s.cursor.kind ≠ .keyword .distinct := fun h => by
      simp [Cursor.atAny, Cursor.keyword?, h, Token.Kind.keyword?] at hno
    exact ⟨rfl, ⟨_, rfl⟩, fun _ => by simp [hall, hdistinct]⟩

/-- Behind the end of a statement there is nothing. -/
theorem traced_endOfStatement : Traced d rule .storing s endOfStatement fun _ es s' =>
    Event.leaves es = [] ∧ s'.statement.clauses = s.statement.clauses ∧ s'.cursor.kind = .eof := by
  refine .look_bind ?_
  split
  · exact .unsupported
  · have hend : ∀ s : State, Traced d rule .storing s
        (check .eof >>= fun b => if b then pure () else unexpected "end of statement") fun _ es s' =>
          Event.leaves es = [] ∧ s'.statement.clauses = s.statement.clauses ∧ s'.cursor.kind = .eof := by
      refine fun s => .look_bind ?_
      split
      · next heof => exact .pure ⟨rfl, rfl, Token.Kind.eq_of_alike heof trivial⟩
      · exact .unexpected
    exact .skip_bind ⟨nofun, nofun⟩ (fun _ => hend s.advanced) (hend s)

/-! ## All clauses -/

/-- The clauses that all dialects have, with what a dialect puts between them. -/
def commonClauses (d : Dialect) (rule : Rule) (behindWhere behindHaving : Parser Unit) : Parser Unit := do
  selectList d rule
  fromClause d rule
  whereClause rule
  behindWhere
  groupBy d rule
  havingClause rule
  behindHaving
  orderBy d rule

theorem clauses_generic : clauses .generic rule = distinct .generic >>= fun _ =>
    commonClauses .generic rule (pure ()) (pure ()) := by
  simp only [clauses, commonClauses, pure_bind]

/-- In Oracle, a hierarchy stands behind the condition, and a model behind that of the groups. -/
theorem clauses_oracle : clauses .oracle rule = distinct .oracle >>= fun _ =>
    commonClauses .oracle rule (skipHierarchy rule) skipModel >>= fun _ => skipForUpdate rule := by
  simp only [clauses, commonClauses, bind_assoc]

/-- In SQL Server, `TOP` stands in front of the select list, and `OFFSET` behind the clauses that all dialects have. -/
theorem clauses_sqlServer : clauses .sqlServer rule = distinct .sqlServer >>= fun _ => topClause >>= fun _ =>
    commonClauses .sqlServer rule (pure ()) (pure ()) >>= fun _ => offsetFetch >>= fun _ => skipForOutput := by
  simp only [clauses, commonClauses, bind_assoc, pure_bind]

/-- The statement whose clauses are those given, and its conditions those of its predicate. -/
def assembled (rule : Rule) (b : Bool) (limit : Option Limit) (items : List SelectItem) (sources : List TableRef)
    (predicate : Option Expr) (groups : List Expr) (having? : Option Expr) (order : List OrderItem) : Statement :=
  { distinct := b, items, sources, predicate, groups, having := having?, order, limit,
    conditions := predicate.toList.flatMap (Condition.ofPredicate rule (sources.flatMap TableRef.tables)),
    parameters := 0, edits := [] }

/-- What has been read behind `WHERE` and dropped is missing from the leaves of the clauses. -/
theorem fills_commonClauses {behindWhere behindHaving : Parser Unit} {D : List Leaf → Prop}
    (hw : Fills d rule behindWhere fun c c' ls => c' = c ∧ D ls) (hh : Silent d rule .reading behindHaving) :
    Fills d rule (commonClauses d rule behindWhere behindHaving) fun c c' ls => ∀ b limit,
      c = { Statement.empty with distinct := b, limit := limit } →
        ∃ items sources predicate groups having? order dropped, D dropped ∧
          c' = assembled rule b limit items sources predicate groups having? order ∧
          ls = items.flatMap SelectItem.leaves ++ (sources.flatMap TableRef.leaves ++
            (predicate.toList.flatMap Expr.leaves ++ (dropped ++ (groups.flatMap Expr.leaves ++
              (having?.toList.flatMap Expr.leaves ++ order.flatMap OrderItem.leaves))))) := by
  have hhaving := fills_havingClause.bind ((Fills.of_silent hh).bind fills_orderBy)
  have hgroups := hw.bind (fills_groupBy.bind hhaving)
  have hfrom := fills_fromClause.bind (fills_whereClause.bind hgroups)
  refine (fills_selectList.bind hfrom).mono fun c c' ls h b limit hc => ?_
  obtain ⟨_, _, _, ⟨items, rfl, h₁⟩, ⟨_, _, _, ⟨sources, rfl, h₂⟩, ⟨_, _, _, ⟨p, rfl, h₃⟩,
    ⟨_, dropped, _, ⟨h₄, hdropped⟩, ⟨_, _, _, ⟨groups, rfl, h₅⟩, ⟨_, _, _, ⟨having?, rfl, h₆⟩,
    ⟨_, _, _, ⟨h₇, rfl⟩, ⟨order, rfl, h₈⟩, rfl⟩, rfl⟩, rfl⟩, rfl⟩, rfl⟩, rfl⟩, rfl⟩ := h
  refine ⟨items, sources, p, groups, having?, order.getD [], dropped, hdropped, ?_, rfl⟩
  rw [h₈, h₇, h₆, h₅, h₄, h₃, h₂, h₁, hc]
  cases p <;> cases having? <;> cases order <;>
    simp [assembled, storePredicate, Statement.tables, Statement.empty]

@[simp] theorem clauseLeaves_assembled (b : Bool) (limit : Option Limit) (items : List SelectItem)
    (sources : List TableRef) (predicate : Option Expr) (groups : List Expr) (having? : Option Expr)
    (order : List OrderItem) : (assembled rule b limit items sources predicate groups having? order).clauseLeaves =
      items.flatMap SelectItem.leaves ++ (sources.flatMap TableRef.leaves ++ (predicate.toList.flatMap Expr.leaves ++
        (groups.flatMap Expr.leaves ++ (having?.toList.flatMap Expr.leaves ++ order.flatMap OrderItem.leaves)))) :=
  rfl

theorem leaves_of_limit_none {c : Statement} (hc : c.limit = none) (top : Bool) : c.leaves top = c.clauseLeaves := by
  have hrowCount : c.rowCountLeaves = [] := by rw [Statement.rowCountLeaves, hc]; rfl
  have hoffset : c.offsetLeaves = [] := by rw [Statement.offsetLeaves, hc]; rfl
  rw [Statement.leaves, hrowCount, hoffset]
  cases top <;> simp

/-- A row count that is written first, and no offset. -/
theorem leaves_of_rowCount {c : Statement} {v : Limit.Value} {b : Bool} (hc : c.limit = some ⟨none, some v, b⟩) :
    c.leaves true = v.leaves ++ c.clauseLeaves := by
  rw [Statement.leaves, if_pos rfl]
  simp [Statement.rowCountLeaves, Statement.offsetLeaves, hc]

/-- An offset, and a row count behind it where there is none yet. -/
theorem leaves_mergeLimit_of_none {c : Statement} (hc : c.limit = none) (v : Limit.Value) (w : Option Limit.Value) :
    (c.mergeLimit true ⟨some v, w, true⟩).leaves false =
      c.clauseLeaves ++ (v.leaves ++ w.toList.flatMap Limit.Value.leaves) := by
  have hclauses : (c.mergeLimit true ⟨some v, w, true⟩).clauseLeaves = c.clauseLeaves := rfl
  rw [Statement.leaves, if_neg Bool.false_ne_true, hclauses]
  simp [Statement.rowCountLeaves, Statement.offsetLeaves, Statement.mergeLimit, Statement.limitOr, Limit.merge,
    Limit.empty, hc]

/-- An offset behind a row count that is written first. -/
theorem leaves_mergeLimit_of_some {c : Statement} {v : Limit.Value} {b : Bool} (hc : c.limit = some ⟨none, some v, b⟩)
    (v' : Limit.Value) : (c.mergeLimit true ⟨some v', none, true⟩).leaves true =
      v.leaves ++ (c.clauseLeaves ++ v'.leaves) := by
  have hclauses : (c.mergeLimit true ⟨some v', none, true⟩).clauseLeaves = c.clauseLeaves := rfl
  rw [Statement.leaves, if_pos rfl, hclauses]
  simp [Statement.rowCountLeaves, Statement.offsetLeaves, Statement.mergeLimit, Statement.limitOr, Limit.merge, hc]

theorem traced_clauses_generic (t : Token) (hc : s.statement.clauses = .empty) :
    Traced .generic rule .storing s (clauses .generic rule) fun _ es s' =>
      s'.statement.clauses.ReadAs .generic rule (Token.topWritten (t :: s.cursor.tokens)) (Event.leaves es) := by
  rw [clauses_generic]
  refine (traced_distinct t).bind fun _ es s₁ ⟨hes, ⟨b, hb⟩, _⟩ =>
    (fills_commonClauses (.of_silent (.pure rfl)) (.pure rfl) s₁).mono fun _ es' s' h => ?_
  rw [hc] at hb
  obtain ⟨items, sources, predicate, groups, having?, order, _, rfl, hs', hls⟩ := h b none hb
  rw [Event.leaves_append, hes, hls, hs']
  refine .of_leaves ?_ rfl
  rw [leaves_of_limit_none rfl]
  rfl

theorem traced_clauses_oracle (t : Token) (hc : s.statement.clauses = .empty) :
    Traced .oracle rule .storing s (clauses .oracle rule) fun _ es s' =>
      s'.statement.clauses.ReadAs .oracle rule (Token.topWritten (t :: s.cursor.tokens)) (Event.leaves es) := by
  have hhierarchy : Fills .oracle rule (skipHierarchy rule) fun c c' _ => c' = c ∧ True :=
    (Fills.of_traced drops_skipHierarchy).mono fun _ _ _ h => ⟨h, trivial⟩
  have hlocked : Drops .oracle rule (skipForUpdate rule) := drops_skipForUpdate
  have hrest := (fills_commonClauses hhierarchy (silent_skipModel (by decide))).bind (Fills.of_traced hlocked)
  rw [clauses_oracle]
  refine (traced_distinct t).bind fun _ es s₁ ⟨hes, ⟨b, hb⟩, _⟩ => (hrest s₁).mono fun _ es' s' h => ?_
  obtain ⟨c, ls, locked, h, hs', hls⟩ := h
  rw [hc] at hb
  obtain ⟨items, sources, predicate, groups, having?, order, dropped, -, rfl, rfl⟩ := h b none hb
  rw [Event.leaves_append, hes, hls, hs']
  refine ⟨fun h => absurd rfl h, ?_, rfl⟩
  rw [leaves_of_limit_none rfl, clauseLeaves_assembled, List.nil_append]
  refine List.Sublist.trans ?_ (List.sublist_append_left _ locked)
  refine (List.Sublist.refl _).append ((List.Sublist.refl _).append ((List.Sublist.refl _).append ?_))
  exact List.sublist_append_right dropped _

theorem traced_clauses_sqlServer (t : Token) (hc : s.statement.clauses = .empty) :
    Traced .sqlServer rule .storing s (clauses .sqlServer rule) fun _ es s' =>
      s'.statement.clauses.ReadAs .sqlServer rule (Token.topWritten (t :: s.cursor.tokens)) (Event.leaves es) := by
  have hnothing : Silent .sqlServer rule .reading (pure ()) := .pure rfl
  have hrest := (fills_commonClauses (.of_silent hnothing) hnothing).bind
    (fills_offsetFetch.bind (.of_silent (silent_skipForOutput (by decide))))
  rw [clauses_sqlServer]
  refine (traced_distinct t).bind fun _ es s₁ ⟨hes, ⟨b, hb⟩, htop⟩ =>
    traced_topClause.bind fun _ es' s₂ hes' => (hrest s₂).mono fun _ es'' s' h => ?_
  obtain ⟨c, ls, _, h, ⟨c', _, _, hoffset, ⟨hs', rfl⟩, rfl⟩, hls⟩ := h
  rw [hc] at hb
  rw [Event.leaves_append, Event.leaves_append, hes, hls, hs', List.nil_append, List.append_nil]
  rcases hes' with ⟨hkind, hes', hs₂⟩ | ⟨hkind, v, hes', hs₂⟩
  · have hno : Token.topWritten (t :: s.cursor.tokens) = false := Bool.eq_false_iff.2 (mt (htop rfl).2 hkind)
    obtain ⟨items, sources, predicate, groups, having?, order, _, rfl, rfl, rfl⟩ := h b none (hs₂.trans hb)
    rw [hno, hes', List.nil_append, List.nil_append, ← clauseLeaves_assembled]
    rcases hoffset with ⟨rfl, rfl⟩ | ⟨v, w, rfl, -, rfl⟩
    · refine .of_leaves ?_ rfl
      rw [leaves_of_limit_none rfl, List.append_nil]
    · refine .of_leaves ?_ rfl
      rw [leaves_mergeLimit_of_none rfl]
  · have hyes : Token.topWritten (t :: s.cursor.tokens) = true := (htop rfl).1 hkind
    rw [hb] at hs₂
    obtain ⟨items, sources, predicate, groups, having?, order, _, rfl, rfl, rfl⟩ := h b (some ⟨none, some v, false⟩) hs₂
    rw [hyes, hes', List.nil_append, ← clauseLeaves_assembled]
    rcases hoffset with ⟨rfl, rfl⟩ | ⟨v', w, rfl, hw, rfl⟩
    · refine .of_leaves ?_ rfl
      rw [leaves_of_rowCount rfl, List.append_nil]
    · -- With a row count of its own, a statement takes none from `FETCH`.
      cases w with
      | some w => cases hw rfl
      | none =>
        refine .of_leaves ?_ rfl
        rw [leaves_mergeLimit_of_some rfl, Option.toList_none, List.flatMap_nil, List.append_nil]

theorem traced_clauses (t : Token) (hc : s.statement.clauses = .empty) :
    Traced d rule .storing s (clauses d rule) fun _ es s' =>
      s'.statement.clauses.ReadAs d rule (Token.topWritten (t :: s.cursor.tokens)) (Event.leaves es) := by
  cases d with
  | generic => exact traced_clauses_generic t hc
  | oracle => exact traced_clauses_oracle t hc
  | sqlServer => exact traced_clauses_sqlServer t hc

theorem traced_select (hs : Token.Complete s.cursor.tokens) (hc : s.statement.clauses = .empty) :
    Traced d rule .storing s (select d rule) fun _ es s' =>
      s'.statement.clauses.ReadAs d rule (Token.topWritten s.cursor.tokens) (Event.leaves es) ∧
        s'.cursor.kind = .eof := by
  refine .expectKeyword_bind fun hk => (traced_clauses (s := s.advanced) s.cursor.current hc).bind fun _ es s' hes =>
    traced_endOfStatement.mono fun _ es' s'' ⟨hes', hc', heof⟩ => ⟨?_, heof⟩
  rw [Event.leaves_cons, Event.leaves_append, hes', List.append_nil, hc',
    Cursor.tokens_advance hs (by rw [hk]; exact nofun)]
  exact hes

end

end Grammar

/-! ## Whole texts -/

theorem Cursor.tokens_ofSource (source : String) : (ofSource source).tokens = Token.lex source := by
  have hcomplete := Token.complete_lex source
  unfold ofSource
  split
  · next h =>
    rw [h] at hcomplete
    exact hcomplete.elim
  · next h => exact h.symm

theorem Grammar.State.tokens_ofSource (source : String) : (ofSource source).cursor.tokens = Token.lex source := by
  rw [ofSource, Cursor.tokens_ofSource]

theorem Grammar.State.complete_ofSource (source : String) : Token.Complete (ofSource source).cursor.tokens := by
  rw [tokens_ofSource]
  exact Token.complete_lex source

/-- What is behind an accepted text: the events that pass all of its tokens but the end of the input. -/
structure Statement.ReadFrom (d : Dialect) (rule : Rule) (source : String) (s : Statement)
    (es : List Event) : Prop where
  tokens : ∃ t, t.kind = .eof ∧ Token.lex source = Event.passed es ++ [t]
  sound : ∀ ev ∈ es, ev.Sound
  allowed : ∀ ev ∈ es, ev.Allowed d .storing
  whole : ∀ ev ∈ es, ev.Whole
  ordinals : es.flatMap Event.ordinals = List.range s.parameters
  edits : s.edits = (es.flatMap (Event.edits rule)).foldl (fun es e => e.insert es) []
  read : s.ReadAs d rule (Token.topWritten (Token.lex source)) (Event.leaves es)

/-- The statement of an accepted text is that of the state behind its last clause. -/
theorem Statement.exists_select_of_parse {d : Dialect} {rule : Rule} {source : String} {s : Statement}
    (h : parse d rule source = .ok s) :
    ∃ s', Grammar.select d rule (.ofSource source) = .ok () s' ∧ s'.statement = s := by
  unfold parse at h
  cases hr : Grammar.select d rule (.ofSource source) with
  | error e s' =>
    rw [hr] at h
    cases h
  | ok a s' =>
    rw [hr] at h
    cases h
    exact ⟨s', rfl, rfl⟩

/-- Every accepted text has been read from its first to its last token. -/
theorem Statement.readFrom_of_parse {d : Dialect} {rule : Rule} {source : String} {s : Statement}
    (h : parse d rule source = .ok s) : ∃ es, s.ReadFrom d rule source es := by
  have hcomplete := Grammar.State.complete_ofSource source
  have htraced : Grammar.Traced d rule .storing (.ofSource source) (Grammar.select d rule) _ :=
    Grammar.traced_select hcomplete rfl
  have hout := htraced hcomplete
  obtain ⟨s', hr, rfl⟩ := exists_select_of_parse h
  rw [hr] at hout
  obtain ⟨es, hrun, hall, hwhole, hread, heof⟩ := hout
  have hparameters := hrun.parameters_eq
  rw [show (Grammar.State.ofSource source).statement.parameters = 0 from rfl, Nat.zero_add] at hparameters
  refine ⟨es, ⟨s'.cursor.current, heof, ?_⟩, hrun.sound, hall, hwhole, ?_, hrun.edits_eq, ?_⟩
  · rw [← Grammar.State.tokens_ofSource, hrun.tokens_eq, Cursor.tokens_of_eof (hrun.complete hcomplete) heof]
  · rw [hparameters, List.range_eq_range']
    exact hrun.ordinals_eq
  · rw [Grammar.State.tokens_ofSource] at hread
    exact ⟨hread.leaves, hread.sublist, hread.conditions⟩

/-! ## Texts by their characters

What becomes of a single text is evaluated on its characters, since taking them out of the text takes longer than all the
rest. -/

/-- On the first token of some characters. -/
def Cursor.ofChars (source : String) (cs : List Char) : Cursor :=
  match Token.lexFrom 0 cs with
  | [] => ⟨source, ⟨.eof, ⟨0, 0⟩, ""⟩, []⟩
  | t :: ts => ⟨source, t, ts⟩

/-- In front of the tokens of some characters. -/
def Grammar.State.ofChars (source : String) (cs : List Char) : State :=
  ⟨.ofChars source cs, .empty, false⟩

theorem Grammar.State.ofSource_of_chars (source : String) {cs : List Char} (h : source = String.ofList cs) :
    ofSource source = ofChars source cs := by
  rw [ofSource, Cursor.ofSource, Token.lex_of_chars source h]
  rfl

namespace Statement

variable {d : Dialect} {rule : Rule} {source : String} {cs : List Char}

/-- What becomes of a text, from its characters. -/
def parseChars (d : Dialect) (rule : Rule) (source : String) (cs : List Char) : Except ParseError Statement :=
  match Grammar.select d rule (.ofChars source cs) with
  | .ok _ s => .ok s.statement
  | .error e _ => .error e

theorem parse_of_chars (source : String) (h : source = String.ofList cs) :
    parse d rule source = parseChars d rule source cs := by
  rw [parse, Grammar.State.ofSource_of_chars source h]
  rfl

/-- What is computed from an accepted text tells that it is accepted. -/
theorem exists_of_parse {β : Type} {P : Statement → Prop} (f : Statement → β) (b : β) (htext : source = String.ofList cs)
    (hrun : (parseChars d rule source cs).toOption.map f = some b)
    (h : ∀ s, parse d rule source = .ok s → f s = b → P s) : ∃ s, parse d rule source = .ok s ∧ P s := by
  rw [← parse_of_chars source htext] at hrun
  cases hs : parse d rule source with
  | error e =>
    rw [hs] at hrun
    cases hrun
  | ok s =>
    rw [hs] at hrun
    exact ⟨s, rfl, h s hs (Option.some.inj hrun)⟩

/-- What a refused text is refused with. -/
theorem error_of_parse {e : ParseError} (htext : source = String.ofList cs)
    (hrun : (match parseChars d rule source cs with
      | .ok _ => none
      | .error e => some e) = some e) : parse d rule source = .error e := by
  rw [← parse_of_chars source htext] at hrun
  cases hs : parse d rule source with
  | ok s =>
    rw [hs] at hrun
    cases hrun
  | error e' =>
    rw [hs] at hrun
    exact congrArg Except.error (Option.some.inj hrun)

end Statement

end SelectRouting
