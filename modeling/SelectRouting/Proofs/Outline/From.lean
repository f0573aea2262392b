import SelectRouting.Grammar.From
import SelectRouting.Proofs.Outline.Reading
/-!
# The outline of FROM

An entry is a factor with any number of joins, and an inner entry starts behind a parenthesis.  A hint stands only where a
factor has just been read: behind the first one, and behind that of a cross join (`joinsAfter`).
-/
namespace SelectRouting.Grammar

open Outline (Spells)

variable {d : Dialect} {rule : Rule} {s : State}

/-! ## Aliases -/

theorem traverses_aliasAfterAs : Traverses d (.either (.sign (.string "")) .name) aliasAfterAs := by
  refine fun s => Passes.look_bind ?_
  split
  · next text hk =>
    have hfits : Atom.Fits d (.sign (.string "")) (.token s.cursor.current) := by
      show s.cursor.kind.alike (.string "") = true
      rw [hk]
      rfl
    refine Passes.advance_bind (hk ▸ nofun) (Cuts.token (hk ▸ nofun) (.pure ?_))
    exact ⟨.left (.atom hfits), List.nil_subset _⟩
  · exact (traverses_expectName s).mono fun _ _ _ hps => ⟨.right hps.1, hps.2⟩

theorem traverses_aliasClause : Traverses d Outline.label aliasClause := by
  have hidentifier : Traverses d (.optional (.sign (.identifier ""))) (look (·.atIdentifier) >>= fun b =>
      if b then expectName >>= fun name => pure (some name) else pure none) := by
    refine fun s => Passes.look_bind ?_
    cases hat : s.cursor.atIdentifier with
    | false => exact Cuts.pure ⟨.right .nothing, List.nil_subset _⟩
    | true =>
      have hfits : Atom.Fits d (.sign (.identifier "")) (.token s.cursor.current) := by
        show s.cursor.kind.alike (.identifier "") = true
        unfold Cursor.atIdentifier at hat
        split at hat
        · next name hk => rw [hk]; rfl
        · cases hat
      refine Passes.expectName_bind fun name hname => Cuts.token (Cursor.ordinary_of_name? hname).1 (.pure ?_)
      exact ⟨.left (.atom hfits), List.nil_subset _⟩
  have hword : Traverses d (.either (.sign (.string "")) .name) (aliasAfterAs >>= fun name => pure (some name)) :=
    traverses_aliasAfterAs.map fun _ => List.nil_subset _
  refine .look_bind fun b => ?_
  cases b with
  | true =>
    have hnothing : Traverses d .nothing (pure none : Parser (Option String)) := .pure (List.nil_subset _)
    exact hnothing.outline fun _ hps => .right (.right hps)
  | false => exact .chooseKeyword hword hidentifier

/-! ## Factors -/

theorem collects_tableNamed {schema : Option String} {name : String} {t : Token} :
    Collects d Outline.label [] (tableNamed rule schema name t) TableRef.operands :=
  .idle_bind traverses_recordTable fun _ => traverses_aliasClause.map fun _ => List.nil_subset _

theorem collects_tableName : Collects d Outline.table [] (tableName rule) TableRef.operands := by
  refine .look_bind fun first => .behind traverses_expectName fun name => ?_
  refine .choose (spots_sign ⟨nofun, nofun⟩) ?_ collects_tableNamed
  exact .look_bind fun second => .behind traverses_expectName fun inner => collects_tableNamed

section
variable {entry : Parser TableRef}

theorem collects_plainFactor (hentry : Collects d .entry [] entry TableRef.operands) :
    Collects d Outline.plainFactor [] (plainFactor rule entry) TableRef.operands := by
  refine .refuse (.chooseOpening ?_ collects_tableName)
  exact hentry.bind fun inner => traverses_closing.last (List.Subset.refl _)

theorem collects_oracleFactor (hentry : Collects .oracle .entry [] entry TableRef.operands) :
    Collects .oracle Outline.oracleFactor [] (oracleFactor rule entry) TableRef.operands := by
  have hsample : Traverses .oracle (.optional (.skipped .sample)) skipSample :=
    traverses_skipped (by simp [Dialect.skippedForms]) recognizes_skipSample
  have hpartition : ∀ {k : Keyword}, .partition k ∈ Dialect.skippedForms .oracle →
      Traverses .oracle (.optional (.skipped (.partition k))) (skipPartition k) := fun hk =>
    traverses_skipped hk (recognizes_skipPartition _)
  have hpivot : Traverses .oracle (.optional (.skipped .pivot)) skipPivot :=
    traverses_skipped (by simp [Dialect.skippedForms]) recognizes_skipPivot
  have hsuffixed : Collects .oracle Outline.suffixedFactor [] (suffixedFactor rule entry) TableRef.operands := by
    refine (collects_plainFactor hentry).bind fun table => .behind hsample fun _ => ?_
    refine .behind (hpartition (by simp [Dialect.skippedForms])) fun _ => ?_
    exact (hpartition (by simp [Dialect.skippedForms])).last (List.Subset.refl _)
  have honly : Collects .oracle (.either (.parenthesized Outline.suffixedFactor) Outline.suffixedFactor) []
      (onlyFactor rule entry) TableRef.operands :=
    .chooseOpening (hsuffixed.bind fun table => traverses_closing.last (List.Subset.refl _)) hsuffixed
  have hpivoted : Collects .oracle (.seq Outline.suffixedFactor (.optional (.skipped .pivot))) []
      (pivotedFactor rule entry) TableRef.operands :=
    hsuffixed.bind fun table => hpivot.last (List.Subset.refl _)
  have hflashback : Traverses .oracle .nothing rejectFlashback := .refuse (.refuse (.pure (List.nil_subset _)))
  have hreject : ∀ table : TableRef, Collects .oracle .nothing ([] ++ table.operands)
      (rejectFlashback >>= fun _ => pure table) TableRef.operands := fun _ => hflashback.last (List.Subset.refl _)
  -- Rejecting a flashback passes nothing, behind either way.
  have hend : ∀ {o : Outline} {p : Parser TableRef}, Collects .oracle o [] p TableRef.operands →
      Collects .oracle o [] (p >>= fun table => rejectFlashback >>= fun _ => pure table) TableRef.operands :=
    fun hp => (hp.bind hreject).outline fun _ => .of_seq_nothing
  exact .chooseKeyword (hend honly) (hend hpivoted)

theorem collects_factorOver (hentry : Collects d .entry [] entry TableRef.operands) :
    Collects d (Outline.factor d) [] (factorOver d rule entry) TableRef.operands := by
  cases d with
  | oracle => exact collects_oracleFactor hentry
  | generic | sqlServer => exact collects_plainFactor hentry

end

/-! ## Joins -/

/-- What stands behind a left side: a hint, if that ends with a factor, and any number of joins. -/
def joinsAfter (d : Dialect) (left : TableRef) : Outline :=
  if endsWithFactor left then .seq (Outline.hint d) (.many (Outline.join d)) else .many (Outline.join d)

theorem traverses_hintBehind (left : TableRef) :
    Traverses d (if endsWithFactor left then Outline.hint d else .nothing) (hintBehind d left) := by
  have hnothing : Traverses d .nothing (pure ()) := .pure (List.nil_subset _)
  cases hleft : endsWithFactor left with
  | true =>
    cases d with
    | sqlServer =>
      simp only [hintBehind, hleft, if_true]
      exact traverses_skipped (by simp [Dialect.skippedForms]) recognizes_skipHint
    | generic | oracle => exact hnothing
  | false =>
    cases d with
    | sqlServer =>
      simp only [hintBehind, hleft]
      exact hnothing
    | generic | oracle => exact hnothing

/-- The words of a join behind its first one. -/
theorem cuts_joinOf {kind : JoinKind} {o : Outline} {k : Keyword} {ks : List Keyword} (hk : s.cursor.keyword? = some k)
    (hmem : k ∈ ks) (hwords : Traverses d o (skipOuter kind >>= fun _ => expectKeyword .join)) :
    Cuts s (joinOf kind) fun kind? ps _ => kind? = some kind ∧ Spells d (.seq (.word ks) o) ps := by
  have hsplit : joinOf kind = (advance >>= fun _ => skipOuter kind >>= fun _ => expectKeyword .join) >>= fun _ =>
      pure (some kind) := by
    simp only [joinOf, bind_assoc]
  rw [hsplit]
  exact (hwords.behindWord hk hmem).bind fun _ ps _ hps => .pure ⟨rfl, (List.append_nil ps).symm ▸ hps.1⟩

/-- The words of a join, if there is one. -/
theorem cuts_joinKind : Cuts s joinKind fun kind? ps _ => (kind? = none ∧ ps = []) ∨ ∃ kind, kind? = some kind ∧
    Spells d (if kind = .cross then Outline.crossWords else Outline.joinWords) ps := by
  have hinner : Traverses d (.word [.join]) (skipOuter .inner >>= fun _ => expectKeyword .join) := traverses_expectKeyword
  have hcross : Traverses d (.word [.join]) (skipOuter .cross >>= fun _ => expectKeyword .join) := traverses_expectKeyword
  have houter : Traverses d (.seq (.optional (.word [.outer])) (.word [.join]))
      ((skipKeyword .outer >>= fun _ => pure ()) >>= fun _ => expectKeyword .join) :=
    .behind (traverses_skipKeyword.last (List.nil_subset _)) fun _ => traverses_expectKeyword
  have hside : ∀ {kind : JoinKind} {ps : List Piece}, kind ≠ .cross → Spells d (.seq (.word [.left, .right, .full])
      (.seq (.optional (.word [.outer])) (.word [.join]))) ps →
        Spells d (if kind = .cross then Outline.crossWords else Outline.joinWords) ps := by
    intro kind ps hne hps
    rw [if_neg hne]
    exact .right (.right hps)
  refine Passes.look_bind ?_
  split
  case h_1 hk =>
    have hkind : s.cursor.kind = .keyword .join := Cursor.kind_of_atKeyword (decide_eq_true hk)
    have hfits : Atom.Fits d (.word [.join]) (.token s.cursor.current) := ⟨_, List.mem_singleton_self _, hkind⟩
    refine Passes.advance_bind (hkind ▸ nofun) (Cuts.token (hkind ▸ nofun) (.pure ?_))
    exact .inr ⟨.inner, rfl, .left (.atom hfits)⟩
  case h_2 hk =>
    refine (cuts_joinOf hk (List.mem_singleton_self _) hinner).mono fun _ ps _ hps => .inr ⟨_, hps.1, ?_⟩
    exact .right (.left hps.2)
  case h_3 hk | h_4 hk | h_5 hk =>
    exact (cuts_joinOf hk (by decide) houter).mono fun _ ps _ hps => .inr ⟨_, hps.1, hside nofun hps.2⟩
  case h_6 hk =>
    exact (cuts_joinOf hk (List.mem_singleton_self _) hcross).mono fun _ ps _ hps => .inr ⟨_, hps.1, hps.2⟩
  case h_7 => exact Cuts.pure (.inl ⟨rfl, rfl⟩)

/-- What a join is by. -/
theorem collects_joinedBy (kind : JoinKind) : Collects d (if kind = .cross then .nothing else Outline.joinedBy) []
    (joinedBy rule kind) (·.1.toList) := by
  have hon : Collects d .operand [] (expression rule >>= fun e => pure (some e, ([] : List String))) (·.1.toList) :=
    collects_expression.map fun _ => List.Subset.refl _
  have hcolumns : Collects d (.parenthesized (.separated .name)) [] (expect .leftParen >>= fun _ =>
      commaSeparated expectName >>= fun columns => expect .rightParen >>= fun _ =>
        pure ((none : Option Expr), columns)) (·.1.toList) :=
    .behind traverses_opening fun _ => traverses_expectName.commaSeparated.bind fun _ =>
      traverses_closing.last (List.nil_subset _)
  have hby : Collects d Outline.joinedBy [] (joinedBy rule .inner) (·.1.toList) :=
    .chooseKeyword hon (.demandKeyword hcolumns)
  cases kind with
  | cross => exact .pure (List.nil_subset _)
  | inner | left | right | full => exact hby

/-- One join with its right side, if there is one. -/
theorem cuts_nextJoin {factor : Parser TableRef} (hfactor : Collects d (Outline.factor d) [] factor TableRef.operands)
    (left : TableRef) : Cuts s (nextJoin rule factor left) fun joined? ps _ => (joined? = none ∧ ps = []) ∨
      ∃ joined, joined? = some joined ∧ joined.operands ⊆ left.operands ++ Piece.operands ps ∧
        Spells d (if endsWithFactor joined then Outline.crossJoin d else Outline.conditionalJoin d) ps := by
  refine (cuts_joinKind (d := d)).bind fun kind? ks s₁ hwords => ?_
  rcases hwords with ⟨rfl, rfl⟩ | ⟨kind, rfl, hwords⟩
  · exact .pure (.inl ⟨rfl, rfl⟩)
  · have hjoinedBy : Collects d (if kind = .cross then .nothing else Outline.joinedBy) [] (joinedBy rule kind) _ :=
      collects_joinedBy kind
    refine (hfactor s₁).bind fun right rs s₂ hright => (hjoinedBy s₂).bind fun joined js _ hby => .pure ?_
    refine .inr ⟨_, rfl, fun e he => ?_, ?_⟩
    · simp only [Piece.operands_append, List.append_nil, List.mem_append]
      rcases List.mem_append.1 he with he | he
      · exact (List.mem_append.1 he).imp_right fun he => .inr (.inl (hright.2 he))
      · exact .inr (.inr (.inr (hby.2 he)))
    · rw [List.append_nil]
      by_cases hcross : kind = .cross
      · subst hcross
        cases hby.1
        exact (List.append_nil rs).symm ▸ .seq hwords hright.1
      · rw [if_neg hcross] at hwords hby
        rw [endsWithFactor, if_neg (by simpa using hcross)]
        exact .seq hwords (.seq hright.1 hby.1)

section
variable {ps qs : List Piece} {left joined : TableRef}

theorem spells_hint_nil : Spells d (Outline.hint d) [] := by
  cases d with
  | sqlServer => exact .right .nothing
  | generic | oracle => exact .nothing

/-- A join in front of what stands behind it. -/
theorem spells_many_join (hjoin : Spells d (if endsWithFactor joined then Outline.crossJoin d else
    Outline.conditionalJoin d) ps) (hrest : Spells d (joinsAfter d joined) qs) :
    Spells d (.many (Outline.join d)) (ps ++ qs) := by
  unfold joinsAfter at hrest
  cases hjoined : endsWithFactor joined with
  | false =>
    rw [hjoined, if_neg Bool.false_ne_true] at hjoin hrest
    exact .more (.left hjoin) hrest
  | true =>
    rw [hjoined, if_pos rfl] at hjoin hrest
    cases hrest with
    | @seq _ _ hs rs hhint hrest =>
      rw [← List.append_assoc]
      exact .more (.right (.seq hjoin hhint)) hrest

/-- A hint, or nothing where none may stand, in front of the joins. -/
theorem spells_joinsAfter (hhint : Spells d (if endsWithFactor left then Outline.hint d else .nothing) ps)
    (hrest : Spells d (.many (Outline.join d)) qs) : Spells d (joinsAfter d left) (ps ++ qs) := by
  unfold joinsAfter
  cases hleft : endsWithFactor left with
  | true =>
    rw [hleft, if_pos rfl] at hhint
    exact .seq hhint hrest
  | false =>
    rw [hleft, if_neg Bool.false_ne_true] at hhint
    cases hhint
    exact hrest

theorem spells_of_joinsAfter (h : Spells d (joinsAfter d left) ps) :
    Spells d (.seq (Outline.hint d) (.many (Outline.join d))) ps := by
  unfold joinsAfter at h
  split at h
  · exact h
  · exact .seq spells_hint_nil h

end

theorem collects_joinsOver {factor : Parser TableRef}
    (hfactor : Collects d (Outline.factor d) [] factor TableRef.operands) (rounds : Nat) (left : TableRef) :
    Collects d (joinsAfter d left) left.operands (joinsOver d rule factor rounds left) TableRef.operands := by
  have hnone : Spells d (.many (Outline.join d)) [] := .done
  induction rounds generalizing left with
  | zero =>
    have hhint : Spells d (if endsWithFactor left then Outline.hint d else .nothing) [] := by
      split
      · exact spells_hint_nil
      · exact .nothing
    exact fun _ => .pure ⟨spells_joinsAfter hhint hnone, List.subset_append_left _ _⟩
  | succ rounds ih =>
    refine fun s => (traverses_hintBehind left s).bind fun _ hs s₁ hhint => ?_
    refine (cuts_nextJoin hfactor left).bind fun joined? js s₂ hjoin => ?_
    rcases hjoin with ⟨rfl, rfl⟩ | ⟨joined, rfl, hoperands, hjoin⟩
    · exact .pure ⟨spells_joinsAfter hhint.1 hnone, List.subset_append_left _ _⟩
    · refine (ih joined s₂).mono fun table rs _ hrs => ⟨?_, fun e he => ?_⟩
      · exact spells_joinsAfter hhint.1 (spells_many_join hjoin hrs.1)
      · simp only [Piece.operands_append, List.mem_append]
        rcases List.mem_append.1 (hrs.2 he) with he | he
        · exact (List.mem_append.1 (hoperands he)).imp_right fun he => .inr (.inl he)
        · exact .inr (.inr (.inr he))

/-! ## The knot -/

theorem collects_tableReferenceAt (depth : Nat) :
    Collects d .entry [] (tableReferenceAt d rule depth) TableRef.operands := by
  induction depth with
  | zero => exact .unexpected
  | succ depth ih =>
    have hfactor : Collects d (Outline.factor d) [] (factorOver d rule (tableReferenceAt d rule depth)) TableRef.operands :=
      collects_factorOver ih
    have hentry : Collects d d.entry [] (tableReferenceAt d rule (depth + 1)) TableRef.operands :=
      hfactor.bind fun left => .look_bind fun rounds =>
        (collects_joinsOver hfactor rounds left).outline fun _ => spells_of_joinsAfter
    exact hentry.outline fun _ => .entry

theorem traverses_fromClause : Traverses d Outline.fromClause (fromClause d rule) := by
  have hentry : Collects d .entry [] (tableReference d rule) TableRef.operands :=
    .look_bind fun tokens => collects_tableReferenceAt (tokens + 1)
  refine .whenKeyword (.eachSeparated (hentry.store fun entry => ⟨fun _ => rfl, fun c e he => ?_⟩))
  simp only [Statement.operands, List.flatMap_append, List.flatMap_singleton, List.mem_append] at he ⊢
  grind

end SelectRouting.Grammar
