import SelectRouting.Proofs.Outline.From
import SelectRouting.Proofs.Outline.Limit
/-!
# The outline of a statement

Each clause follows its outline, one lemma for each parser in the order of the grammar, and so an accepted text falls into
pieces as the outline of its dialect says (`Statement.exists_pieces_of_parse`).  The pieces bring all operands and parameters
of the statement, and their bounds are its limit (`Limit.Gains`).
-/
namespace SelectRouting

namespace Grammar

open Limit (Gains)
open Outline (Spells)

variable {d : Dialect} {rule : Rule} {s : State}

/-! ## The select list -/

theorem traverses_distinct : Traverses d (Outline.distinct d) (distinct d) :=
  .chooseAtom spots_word (traverses_modify (fun _ => rfl) fun _ => rfl)
    (traverses_skipKeyword.last (List.nil_subset _))

theorem traverses_direction : Traverses d Outline.direction direction :=
  .chooseWord (.pure (List.nil_subset _)) (traverses_skipKeyword.last (List.nil_subset _))

theorem traverses_nullOrder : Traverses d (Outline.nullOrder d) (nullOrder d) := by
  have hplace : Traverses d (.either (.word [.first]) (.word [.last])) (skipKeyword .first >>= fun b =>
      if b then pure Direction.ascending else skipKeyword .last >>= fun b =>
        if b then pure .descending else unexpected "FIRST or LAST") :=
    .chooseWord (.pure (List.nil_subset _)) (.demandWord (.pure (List.nil_subset _)))
  have hwords : Traverses d (.optional (.seq (.word [.nulls]) (.either (.word [.first]) (.word [.last])))) nullsFirstLast :=
    .chooseKeyword hplace (.pure (List.nil_subset _))
  cases d with
  | sqlServer => exact .pure (List.nil_subset _)
  | generic | oracle => exact hwords

theorem collects_orderItems :
    Collects d (.separated (Outline.orderItem d)) [] (orderItems d rule) (·.map (·.expr)) := by
  have hitem : Collects d (Outline.orderItem d) [] (orderItem d rule) fun o => [o.expr] :=
    collects_expression.bind fun e => .behind traverses_direction fun rows =>
      traverses_nullOrder.map fun nulls => List.Subset.refl _
  have hexprs : ∀ os : List OrderItem, os.map (·.expr) ⊆ os.flatMap fun o => [o.expr] := fun os => by
    rw [List.map_eq_flatMap]
    exact List.Subset.refl _
  exact hitem.commaSeparated.value hexprs

theorem collects_windowOrder : Collects d (Outline.orderBy d) [] (windowOrder d rule) (·.map (·.expr)) :=
  .chooseKeyword (.behind traverses_expectKeyword fun _ => collects_orderItems) (.pure (List.nil_subset _))

theorem collects_windowItem :
    Collects .sqlServer (Outline.numberedItem .sqlServer) [] (windowItem .sqlServer rule) SelectItem.operands := by
  have hregion : Traverses .sqlServer (.skipped .rowNumber) (expectKeyword .rowNumber >>= fun _ => skipRegion) :=
    fun s => (cuts_skipped (by simp [Dialect.skippedForms]) (recognizes_rowNumber s)).mono fun _ _ _ hps =>
      ⟨hps.1, List.nil_subset _⟩
  have horder : Collects .sqlServer (.seq (Outline.orderBy .sqlServer) (.seq (.sign .rightParen) Outline.label)) []
      (windowOrder .sqlServer rule >>= fun order => expect .rightParen >>= fun _ => aliasClause >>= fun a =>
        pure (.rowNumber order a)) SelectItem.operands :=
    collects_windowOrder.bind fun order => .behind traverses_closing fun _ =>
      traverses_aliasClause.map fun a => List.subset_append_left _ _
  unfold windowItem
  rw [← bind_assoc]
  exact .behind hregion fun _ => .behind traverses_expectKeyword fun _ => .behind traverses_opening fun _ => .refuse horder

theorem collects_expressionItem :
    Collects d Outline.expressionItem [] (expressionItem rule) SelectItem.operands := by
  have hstar : ∀ owner es, Collects d .nothing es (pure (SelectItem.star owner)) SelectItem.operands := fun _ _ =>
    .pure (List.nil_subset _)
  refine collects_expression.bind fun e => ?_
  split
  · exact (hstar _ _).outline fun _ hps => .right (.right hps)
  · exact traverses_aliasClause.map fun a => List.Subset.refl _

theorem collects_selectItem : Collects d (Outline.selectItem d) [] (selectItem d rule) SelectItem.operands := by
  refine .behind traverses_skipAny fun _ => ?_
  cases d with
  | sqlServer =>
    show Collects .sqlServer _ [] (checkKeyword .rowNumber >>= _) _
    refine .look_bind fun b => ?_
    cases b with
    | true => exact collects_windowItem.outline fun _ => .left
    | false => exact collects_expressionItem.outline fun _ => .right
  | generic | oracle => exact collects_expressionItem

theorem traverses_selectList : Traverses d (.separated (Outline.selectItem d)) (selectList d rule) := by
  refine .eachSeparated (collects_selectItem.store fun item => ⟨fun _ => rfl, fun c e he => ?_⟩)
  simp only [Statement.operands, List.flatMap_append, List.flatMap_singleton, List.mem_append] at he ⊢
  grind

/-! ## The clauses behind FROM -/

theorem traverses_whereClause : Traverses d (Outline.filter .where) (whereClause rule) := by
  refine .whenKeyword (collects_expression.store fun p => ⟨fun _ => rfl, fun c e he => ?_⟩)
  simp only [Statement.operands, storePredicate, List.mem_append, Option.toList_some, List.mem_singleton] at he ⊢
  grind

theorem traverses_groupBy : Traverses d Outline.groupBy (groupBy d rule) := by
  have hgrouping : Traverses d .operand (grouping d rule) := by
    refine .look_bind fun k? => ?_
    cases k? with
    | some k => exact .unsupported
    | none =>
      refine collects_expression.store fun p => ⟨fun _ => rfl, fun c e he => ?_⟩
      simp only [Statement.operands, List.mem_append, List.mem_singleton] at he ⊢
      grind
  exact .whenKeyword (.behind traverses_expectKeyword fun _ => hgrouping.eachSeparated)

theorem traverses_havingClause : Traverses d (Outline.filter .having) (havingClause rule) := by
  refine .whenKeyword (collects_expression.store fun p => ⟨fun _ => rfl, fun c e he => ?_⟩)
  simp only [Statement.operands, List.mem_append, Option.toList_some, List.mem_singleton] at he ⊢
  grind

theorem traverses_orderBy : Traverses d (Outline.orderBy d) (orderBy d rule) := by
  refine .whenKeyword (.behind traverses_expectKeyword fun _ => ?_)
  refine collects_orderItems.store fun items => ⟨fun _ => rfl, fun c e he => ?_⟩
  simp only [Statement.operands, List.mem_append] at he ⊢
  grind

/-! ### Oracle -/

theorem traverses_skipHierarchy : Traverses d Outline.hierarchy (skipHierarchy rule) := by
  have hcondition : Traverses d .operand (hierarchicalCondition rule >>= fun _ => pure ()) :=
    collects_expression.allowingPrior.map fun _ => List.nil_subset _
  have hconnectBy : Traverses d Outline.connectBy (skipConnectBy rule) :=
    .whenKeyword (.behind traverses_expectKeyword fun _ => .behind traverses_skipKeyword fun _ => hcondition)
  have hstartWith : Traverses d Outline.startWith (skipStartWith rule) :=
    .whenKeyword (.behind traverses_expectKeyword fun _ => collects_expression.map fun _ => List.nil_subset _)
  exact .behind hconnectBy fun _ => .behind hstartWith fun _ => hconnectBy

theorem traverses_skipModel : Traverses .oracle (.optional (.skipped .model)) skipModel := by
  have hmem : .model ∈ Dialect.skippedForms .oracle := by simp [Dialect.skippedForms]
  intro s
  by_cases hk : s.cursor.kind = .keyword .model
  · have hmodel := cuts_skipped hmem fun hs => recognized_skipModel hs hk
    exact hmodel.mono fun _ _ _ hps => ⟨.left hps.1, List.nil_subset _⟩
  · exact Passes.skipKeyword_bind (fun h => absurd h hk) fun _ => Cuts.pure ⟨.right .nothing, List.nil_subset _⟩

theorem traverses_skipForUpdate : Traverses d Outline.forUpdate (skipForUpdate rule) := by
  have hcolumns : Traverses d (.optional (.seq (.word [.of]) (.separated .operand))) (skipLockedColumns rule) :=
    .whenKeyword (collects_expression.commaSeparated.map fun _ => List.nil_subset _)
  have hcount : Token.Kind.Ordinary (.integer 0) := ⟨nofun, nofun⟩
  have hwaiting : Traverses d Outline.waiting skipWaiting :=
    .chooseKeyword ((traverses_expect hcount).last (List.nil_subset _))
      (.chooseKeyword (traverses_expectKeyword.last (List.nil_subset _))
        (traverses_skipKeyword.last (List.nil_subset _)))
  exact .whenKeyword (.behind traverses_expectKeyword fun _ => .behind hcolumns fun _ => hwaiting)

/-! ### SQL Server -/

theorem traverses_skipXmlOption : Traverses .sqlServer Outline.markupOption skipXmlOption := by
  have hmem : .markup ∈ Dialect.skippedForms .sqlServer := by simp [Dialect.skippedForms]
  have hskipped : ∀ {s : State} {k : Keyword}, s.cursor.keyword? = some k → k ∈ [.raw, .path, .root, .xmlschema] →
      Cuts s (advance >>= fun _ => skipOptionalRegion) fun _ ps _ => Spells .sqlServer (.skipped .markup) ps := by
    intro s k hk hks
    have hat : s.cursor.atAny [.raw, .path, .root, .xmlschema] = true := by
      rw [Cursor.atAny, hk]
      exact List.contains_iff_mem.2 hks
    have hmarkup : Token.Complete s.cursor.tokens → Recognized Form.markup _ s (skipOptionalRegion s.advanced) := fun hs =>
      Recognizes.behindWord hs hat recognizes_skipOptionalRegion
    have hcuts : Cuts s (advance >>= fun _ => skipOptionalRegion) _ := cuts_skipped hmem hmarkup
    exact hcuts.mono fun _ _ _ hps => hps.1
  have hnothing : Traverses .sqlServer .nothing (pure ()) := .pure (List.nil_subset _)
  have helements : Traverses .sqlServer (.optional (.word [.xsinil, .absent]))
      (skipAny [.xsinil, .absent] >>= fun _ => pure ()) :=
    traverses_skipAny.last (List.nil_subset _)
  refine fun s => Passes.look_bind ?_
  split
  case h_1 hk | h_2 hk | h_3 hk | h_4 hk =>
    exact (hskipped hk (by decide)).mono fun _ _ _ hps => ⟨.left hps, List.nil_subset _⟩
  case h_5 hk | h_6 hk | h_7 hk =>
    refine Cuts.mono (hnothing.behindWord hk ?_) fun _ ps _ hps => ⟨.right (.left hps.1.of_seq_nothing), List.nil_subset _⟩
    decide
  case h_8 hk =>
    refine (helements.behindWord hk (List.mem_singleton_self _)).mono fun _ ps _ hps => ?_
    exact ⟨.right (.right hps.1), List.nil_subset _⟩
  case h_9 => exact Passes.unexpected

theorem traverses_skipForOutput : Traverses .sqlServer Outline.forOutput skipForOutput := by
  have hmarkup : Traverses .sqlServer (.seq (.word [.xml]) (.separated Outline.markupOption)) skipMarkup := by
    refine .look_bind fun token => ?_
    split
    · exact .unexpected
    · have hoptions : Traverses .sqlServer (.either (.seq (.word [.xml]) (.separated Outline.markupOption))
          (.seq (.word [.xml]) (.separated Outline.markupOption))) (skipKeyword .xml >>= fun b =>
            if b then eachSeparated skipXmlOption else unsupported ("FOR " ++ token.text)) :=
        .chooseKeyword traverses_skipXmlOption.eachSeparated .unsupported
      exact hoptions.outline fun _ => .of_either_self
  exact .whenKeyword (.chooseWord (.pure (List.nil_subset _)) hmarkup)

/-! ## All clauses -/

theorem traverses_commonClauses {behindWhere behindHaving : Parser Unit} {o o' : Outline}
    (hw : Traverses d o behindWhere) (hh : Traverses d o' behindHaving) :
    Traverses d (d.commonClauses o o') (commonClauses d rule behindWhere behindHaving) := by
  refine .behind traverses_selectList fun _ => .behind traverses_fromClause fun _ => ?_
  refine .behind traverses_whereClause fun _ => .behind hw fun _ => .behind traverses_groupBy fun _ => ?_
  exact .behind traverses_havingClause fun _ => .behind hh fun _ => traverses_orderBy

theorem traverses_plainClauses :
    Traverses d (d.commonClauses .nothing .nothing) (commonClauses d rule (pure ()) (pure ())) :=
  traverses_commonClauses (.pure (List.nil_subset _)) (.pure (List.nil_subset _))

/-- The clauses of SQL Server put their bounds into the limit. -/
theorem cuts_clauses_sqlServer (hs : s.statement.limit = none) : Cuts s (clauses .sqlServer rule) fun _ ps s' =>
    (Dialect.clauses .sqlServer).Spells .sqlServer ps ∧ Gains none ps s'.statement.limit := by
  have hdistinct : Traverses .sqlServer (Outline.distinct .sqlServer) (distinct .sqlServer) := traverses_distinct
  have hclauses : Traverses .sqlServer _ (commonClauses .sqlServer rule (pure ()) (pure ())) := traverses_plainClauses
  have hsteady : Steady .sqlServer skipForOutput := steady_skipForOutput (by decide)
  rw [clauses_sqlServer]
  refine (hdistinct.unbounded steady_distinct (by decide)).bind fun _ ps₁ s₁ hps₁ => ?_
  obtain ⟨hspells₁, -, hs₁⟩ := hps₁
  have hlimit : s₁.statement.limit = none := hs₁.trans hs
  refine (cuts_topClause (d := .sqlServer) hlimit).bind fun _ ps₂ s₂ hps₂ => ?_
  obtain ⟨hspells₂, hgains₂, hoffset⟩ := hps₂
  refine (hclauses.unbounded steady_plainClauses (by decide)).bind fun _ ps₃ s₃ hps₃ => ?_
  obtain ⟨hspells₃, -, hs₃⟩ := hps₃
  rw [← hs₃] at hoffset
  refine (cuts_offsetFetch (d := .sqlServer) hoffset).bind fun _ ps₄ s₄ hps₄ => ?_
  obtain ⟨hspells₄, hgains₄⟩ := hps₄
  refine (traverses_skipForOutput.unbounded hsteady (by decide)).mono fun _ ps₅ s₅ hps₅ => ?_
  obtain ⟨hspells₅, -, hs₅⟩ := hps₅
  have hgains₁ : Gains none ps₁ none := .unbounded hspells₁ (by decide) rfl
  have hgains₃ : Gains s₂.statement.limit ps₃ s₃.statement.limit := .unbounded hspells₃ (by decide) hs₃
  have hgains₅ : Gains s₄.statement.limit ps₅ s₅.statement.limit := .unbounded hspells₅ (by decide) hs₅
  refine ⟨.seq hspells₁ (.seq hspells₂ (.seq hspells₃ (.seq hspells₄ hspells₅))), ?_⟩
  exact hgains₁.trans (hgains₂.trans (hgains₃.trans (hgains₄.trans hgains₅)))

theorem traverses_clauses (hd : d ≠ .sqlServer) : Traverses d d.clauses (clauses d rule) := by
  cases d with
  | generic =>
    rw [clauses_generic]
    exact .behind traverses_distinct fun _ => traverses_plainClauses
  | oracle =>
    rw [clauses_oracle]
    refine .behind traverses_distinct fun _ => .behind ?_ fun _ => traverses_skipForUpdate
    exact traverses_commonClauses traverses_skipHierarchy traverses_skipModel
  | sqlServer => exact absurd rfl hd

theorem cuts_clauses (hs : s.statement.limit = none) : Cuts s (clauses d rule) fun _ ps s' =>
    d.clauses.Spells d ps ∧ Gains none ps s'.statement.limit := by
  by_cases hd : d = .sqlServer
  · subst hd
    exact cuts_clauses_sqlServer hs
  · have hunbounded : d.clauses.atoms.all Atom.unbounded = true := by
      cases d with
      | sqlServer => exact absurd rfl hd
      | generic | oracle => decide
    refine ((traverses_clauses hd).unbounded (steady_clauses hd) hunbounded).mono fun _ ps s' hps => ?_
    obtain ⟨hspells, -, hs'⟩ := hps
    exact ⟨hspells, .unbounded hspells hunbounded (hs'.trans hs)⟩

/-! ## The whole statement -/

theorem cuts_endOfStatement : Cuts s endOfStatement fun _ ps s' => Spells d (.optional (.sign .semicolon)) ps ∧
    s'.cursor.kind = .eof ∧ s'.statement = s.statement := by
  refine Passes.mono passes_endOfStatement fun _ ts s' hend => ?_
  obtain ⟨hts, heof, hs'⟩ := hend
  rw [hs']
  rcases hts with rfl | ⟨t, rfl, ht⟩
  · exact ⟨[], rfl, .idle rfl rfl, .right .nothing, heof, hs'⟩
  · have hk : t.kind ≠ .question := ht ▸ nofun
    exact ⟨[.token t], rfl, .token hk, .left (.atom (Atom.fits_sign ht)), heof, hs'⟩

/-- A statement is passed up to the end of the input, which is its last piece. -/
theorem cuts_select (hs : s.statement.limit = none) : Cuts s (select d rule) fun _ ps s' => s'.cursor.kind = .eof ∧
    (∀ t : Token, t.kind = .eof → d.statement.Spells d (ps ++ [.token t])) ∧ Gains none ps s'.statement.limit := by
  have hadvanced : s.advanced.statement.limit = none := hs
  refine Passes.expectKeyword_bind fun hk => Cuts.token (hk ▸ nofun) ?_
  refine (cuts_clauses hadvanced).bind fun _ ps s₁ hps => ?_
  obtain ⟨hclauses, hgains⟩ := hps
  refine (cuts_endOfStatement (d := d)).mono fun _ qs s₂ hqs => ?_
  obtain ⟨hend, heof, hs₂⟩ := hqs
  have hword : Atom.Fits d (.word [.select]) (.token s.cursor.current) := Atom.fits_word (List.mem_singleton_self _) hk
  have hunbounded : (Outline.optional (.sign .semicolon)).atoms.all Atom.unbounded = true := by decide
  have hfirst : Gains none [.token s.cursor.current] none := ⟨rfl, rfl⟩
  have hlast : Gains s₁.statement.limit qs s₂.statement.limit := .unbounded hend hunbounded (congrArg _ hs₂)
  refine ⟨heof, fun t ht => ?_, hfirst.trans (hgains.trans hlast)⟩
  have hall : d.statement.Spells d ([.token s.cursor.current] ++ (ps ++ qs ++ [.token t])) :=
    .seq (.atom hword) (.seq (.seq hclauses hend) (.atom (Atom.fits_sign ht)))
  exact hall

end Grammar

/-- An accepted text falls into pieces as its dialect says.  They bring the parameters, the operands and the limit of the
statement. -/
theorem Statement.exists_pieces_of_parse {d : Dialect} {rule : Rule} {source : String} {s : Statement}
    (h : parse d rule source = .ok s) : ∃ ps, d.statement.Spells d ps ∧ ps.flatMap Piece.tokens = Token.lex source ∧
      empty.Takes ps s ∧ Limit.Gains none ps s.limit := by
  have hcomplete := Grammar.State.complete_ofSource source
  have hselect : Grammar.Cuts (.ofSource source) (Grammar.select d rule) _ := Grammar.cuts_select rfl
  obtain ⟨s', hr, rfl⟩ := exists_select_of_parse h
  obtain ⟨ts, hts, ps, rfl, htakes, heof, hspells, hgains⟩ := hselect hcomplete () s' hr
  rw [hts] at hcomplete
  have hend := Cursor.tokens_of_eof (hcomplete.of_append (List.cons_ne_nil _ _)) heof
  have hlast : s'.cursor.current.kind ≠ .question := fun hk => nomatch heof.symm.trans hk
  have hnone : Limit.Gains s'.statement.limit [.token s'.cursor.current] s'.statement.limit :=
    ⟨(List.append_nil _).symm, (List.append_nil _).symm⟩
  refine ⟨ps ++ [.token s'.cursor.current], hspells _ heof, ?_, htakes.trans (.token hlast), hgains.trans hnone⟩
  rw [List.flatMap_append, ← Grammar.State.tokens_ofSource, hts, hend]
  rfl

end SelectRouting
