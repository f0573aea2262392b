import SelectRouting.Proofs.Likeness.Expression
/-!
# Clauses side by side

Clause by clause, from the select list to the order, tokens that are alike fill two statements alike, in every dialect.
-/
namespace SelectRouting

theorem Expr.exists_wildcard_of_map {v : View} {e : Expr} {owner : Option String} (h : e.map v = .wildcard owner) :
    ∃ owner', e = .wildcard owner' ∧ owner'.map v.name = owner := by
  cases e with
  | wildcard owner' =>
    rw [map_wildcard] at h
    cases h
    exact ⟨owner', rfl, rfl⟩
  | _ => simp at h

theorem Statement.tables_map {v : View} (sources : List TableRef) :
    (sources.map (TableRef.map v)).flatMap TableRef.tables = (sources.flatMap TableRef.tables).map v.table := by
  rw [List.flatMap_map, List.map_flatMap]
  exact congrArg (sources.flatMap ·) (funext fun t => t.tables_map)

namespace Grammar.Likeness

section
variable {rule rule' : Rule} {C : Likeness rule rule'} {α : Type}

/-! ## Aliases and orders -/

theorem agrees_aliasAfterAs : C.Agrees (Same C.view.name) aliasAfterAs aliasAfterAs := by
  have hkind : C.Agrees (fun k k' => ∃ t u, C.token t u ∧ k = t.kind ∧ k' = u.kind) (look (·.kind)) (look (·.kind)) :=
    .look fun c c' hc => ⟨c.current, c'.current, hc.current, rfl, rfl⟩
  refine hkind.bind fun k k' ⟨t, u, htu, hk, hk'⟩ => ?_
  subst hk hk'
  rcases eq_or_names htu with hkind | ⟨name, name', ht, hu, -⟩
  · rw [hkind]
    split
    · exact Agrees.advance.andThen fun _ _ => .pure rfl
    · exact .expectName
  · rw [ht, hu]
    exact .expectName

theorem agrees_aliasClause : C.Agrees (Same (Option.map C.view.name)) aliasClause aliasClause := by
  have hasOf : C.Agrees Eq (look fun c => c.atKeyword .as && c.nextIsKeyword .of)
      (look fun c => c.atKeyword .as && c.nextIsKeyword .of) :=
    .look fun _ _ hc => congrArg₂ and (hc.atKeyword_eq _) (hc.nextIsKeyword_eq _)
  have hidentifier : C.Agrees Eq (look (·.atIdentifier)) (look (·.atIdentifier)) := .look fun _ _ hc => hc.atIdentifier_eq
  have hnamed : C.Agrees (Same (Option.map C.view.name)) (expectName >>= fun name => pure (some name))
      (expectName >>= fun name => pure (some name)) :=
    Agrees.expectName.bind fun _ _ h => .pure (congrArg some h)
  refine .branch hasOf (.pure rfl) (.branch .skipKeyword ?_ ?_)
  · exact agrees_aliasAfterAs.bind fun _ _ h => .pure (congrArg some h)
  · exact .branch hidentifier hnamed (.pure rfl)

theorem agrees_nullsFirstLast : C.Agrees Eq nullsFirstLast nullsFirstLast := by
  have hlast : C.Agrees Eq (skipKeyword .last >>= fun b => if b then pure Direction.descending else unexpected "FIRST or LAST")
      (skipKeyword .last >>= fun b => if b then pure Direction.descending else unexpected "FIRST or LAST") :=
    .branch .skipKeyword (.pure rfl) .unexpected
  refine .branch .skipKeyword ?_ (.pure rfl)
  exact .branch .skipKeyword (.pure rfl) hlast

theorem agrees_nullOrder (d : Dialect) : C.Agrees Eq (nullOrder d) (nullOrder d) := by
  cases d with
  | sqlServer => exact .pure rfl
  | generic | oracle => exact agrees_nullsFirstLast

theorem agrees_direction : C.Agrees Eq direction direction :=
  .branch .skipKeyword (.pure rfl) (Agrees.skipKeyword.bind_eq fun _ => .pure rfl)

theorem agrees_orderItem (d : Dialect) :
    C.Agrees (Same (OrderItem.map C.view)) (orderItem d rule) (orderItem d rule') := by
  refine agrees_expression.bind fun e e' h => agrees_direction.bind_eq fun rows => ?_
  refine (agrees_nullOrder d).bind_eq fun nulls => .pure ?_
  rw [Same, OrderItem.map, OrderItem.map, h]

theorem agrees_orderItems (d : Dialect) :
    C.Agrees (Same (List.map (OrderItem.map C.view))) (orderItems d rule) (orderItems d rule') :=
  (agrees_orderItem d).commaSeparated

theorem agrees_orderBy (d : Dialect) : C.Agrees Whatever (orderBy d rule) (orderBy d rule') := by
  refine .whenKeyword (Agrees.expectKeyword.andThen fun _ _ => (agrees_orderItems d).bind fun items items' h => ?_)
  exact .modifyStatement fun s s' hs => { hs with order := h }

/-! ## The select list -/

theorem agrees_distinct (d : Dialect) : C.Agrees Whatever (distinct d) (distinct d) := by
  refine .branch .skipAny (.modifyStatement fun s s' hs => { hs with distinct := rfl }) ?_
  exact Agrees.skipKeyword.bind_eq fun _ => .pure trivial

theorem agrees_windowOrder (d : Dialect) :
    C.Agrees (Same (List.map (OrderItem.map C.view))) (windowOrder d rule) (windowOrder d rule') :=
  .branch .skipKeyword (Agrees.expectKeyword.andThen fun _ _ => agrees_orderItems d) (.pure rfl)

theorem agrees_windowItem (d : Dialect) :
    C.Agrees (Same (SelectItem.map C.view)) (windowItem d rule) (windowItem d rule') := by
  refine Agrees.expectKeyword.andThen fun _ _ => Agrees.skipRegion.andThen fun _ _ => ?_
  refine Agrees.expectKeyword.andThen fun _ _ => Agrees.expect.andThen fun _ _ => .branch .checkKeyword .unsupported ?_
  refine (agrees_windowOrder d).bind fun order order' horder => Agrees.expect.andThen fun _ _ => ?_
  refine agrees_aliasClause.bind fun a a' ha => .pure ?_
  exact congrArg₂ SelectItem.rowNumber horder ha

theorem agrees_rowNumberItem (d : Dialect) :
    C.Agrees (Same (SelectItem.map C.view)) (rowNumberItem d rule) (rowNumberItem d rule') := by
  cases d with
  | sqlServer => exact agrees_windowItem .sqlServer
  | generic | oracle => exact .unexpected

/-- The item that an expression makes, with its alias. -/
def itemOf : Expr → Parser SelectItem
  | .wildcard owner => pure (.star owner)
  | e => aliasClause >>= fun a => pure (.expression e a)

theorem itemOf_of_ne {e : Expr} (he : ¬ ∃ owner, e = .wildcard owner) :
    itemOf e = aliasClause >>= fun a => pure (.expression e a) := by
  cases e with
  | wildcard owner => exact absurd ⟨owner, rfl⟩ he
  | _ => rfl

theorem agrees_expressionItem :
    C.Agrees (Same (SelectItem.map C.view)) (expressionItem rule) (expressionItem rule') := by
  have hitem : ∀ rule, expressionItem rule = expression rule >>= itemOf := fun _ => rfl
  rw [hitem, hitem]
  refine agrees_expression.bind fun e e' h => ?_
  rw [Same] at h
  by_cases he : ∃ owner, e = .wildcard owner
  · obtain ⟨owner, rfl⟩ := he
    rw [Expr.map_wildcard] at h
    obtain ⟨owner', rfl, howner⟩ := Expr.exists_wildcard_of_map h.symm
    exact .pure (congrArg SelectItem.star howner.symm)
  · have he' : ¬ ∃ owner, e' = .wildcard owner := by
      rintro ⟨owner, rfl⟩
      rw [Expr.map_wildcard] at h
      obtain ⟨owner', howner, -⟩ := Expr.exists_wildcard_of_map h
      exact he ⟨owner', howner⟩
    rw [itemOf_of_ne he, itemOf_of_ne he']
    exact agrees_aliasClause.bind fun a a' ha => .pure (congrArg₂ SelectItem.expression h ha)

theorem agrees_selectItem (d : Dialect) :
    C.Agrees (Same (SelectItem.map C.view)) (selectItem d rule) (selectItem d rule') := by
  have hat : C.Agrees Eq (atRowNumberItem d) (atRowNumberItem d) := by
    cases d with
    | sqlServer => exact .checkKeyword
    | generic | oracle => exact .pure rfl
  exact Agrees.skipAny.bind_eq fun _ => .branch hat (agrees_rowNumberItem d) agrees_expressionItem

theorem agrees_selectList (d : Dialect) : C.Agrees Whatever (selectList d rule) (selectList d rule') := by
  refine .eachSeparated ((agrees_selectItem d).bind fun item item' h => .modifyStatement fun s s' hs => ?_)
  refine { hs with items := ?_ }
  rw [Same, List.map_append, List.map_append, hs.items]
  exact congrArg (_ ++ [·]) h

/-! ## FROM -/

theorem agrees_tableNamed {schema schema' : Option String} {name name' : String} {t u : Token}
    (hschema : schema.map C.view.name = schema'.map C.view.name) (hname : C.view.name name = C.view.name name')
    (htu : C.token t u) :
    C.Agrees (Same (TableRef.map C.view)) (tableNamed rule schema name t) (tableNamed rule' schema' name' u) := by
  refine (Agrees.recordTable hname htu).andThen fun _ _ => agrees_aliasClause.bind fun a a' ha => .pure ?_
  rw [Same, TableRef.map, TableRef.map, hschema, hname, ha, C.span htu]

theorem agrees_tableName : C.Agrees (Same (TableRef.map C.view)) (tableName rule) (tableName rule') := by
  refine Agrees.current.bind fun t u htu => Agrees.expectName.bind fun name name' hname => ?_
  refine .branch .skip ?_ (agrees_tableNamed rfl hname htu)
  refine Agrees.current.bind fun t' u' htu' => Agrees.expectName.bind fun inner inner' hinner => ?_
  exact agrees_tableNamed (congrArg some hname) hinner htu'

theorem agrees_skipSample : C.Agrees Whatever skipSample skipSample := by
  refine .whenKeyword (Agrees.skipKeyword.bind_eq fun _ => Agrees.skipRegion.andThen fun _ _ => ?_)
  exact .whenKeyword (Agrees.skipRegion.andThen fun _ _ => .pure trivial)

theorem agrees_skipPartition (k : Keyword) : C.Agrees Whatever (skipPartition k) (skipPartition k) := by
  have hregion : C.Agrees Whatever (skipRegion >>= fun _ => pure ()) (skipRegion >>= fun _ => pure ()) :=
    Agrees.skipRegion.andThen fun _ _ => .pure trivial
  exact .whenKeyword (.branch .skipKeyword hregion (Agrees.skipRegion.andThen fun _ _ => .whenKeyword hregion))

theorem agrees_skipPivot : C.Agrees Whatever skipPivot skipPivot := by
  have hregion : C.Agrees Whatever (skipRegion >>= fun _ => pure ()) (skipRegion >>= fun _ => pure ()) :=
    Agrees.skipRegion.andThen fun _ _ => .pure trivial
  have hnulls : C.Agrees Whatever skipNullColumns skipNullColumns :=
    .branch .skipAny (Agrees.expectKeyword.andThen fun _ _ => .pure trivial) (.pure trivial)
  exact .branch .skipKeyword (Agrees.skipKeyword.bind_eq fun _ => hregion)
    (.whenKeyword (hnulls.andThen fun _ _ => hregion))

theorem agrees_rejectFlashback : C.Agrees Whatever rejectFlashback rejectFlashback := by
  have hwords : ∀ k k', C.Agrees Eq (look fun c => c.atKeyword k && c.nextIsKeyword k')
      (look fun c => c.atKeyword k && c.nextIsKeyword k') :=
    fun k k' => .look fun _ _ hc => congrArg₂ and (hc.atKeyword_eq k) (hc.nextIsKeyword_eq k')
  exact .branch (hwords _ _) .unsupported (.branch (hwords _ _) .unsupported (.pure trivial))

section
variable {entry entry' : Parser TableRef} (hentry : C.Agrees (Same (TableRef.map C.view)) entry entry')
include hentry

theorem agrees_plainFactor :
    C.Agrees (Same (TableRef.map C.view)) (plainFactor rule entry) (plainFactor rule' entry') := by
  refine .branch .atSubquery .unsupported (.branch .skip (hentry.bind fun inner inner' h => ?_) agrees_tableName)
  exact Agrees.expect.andThen fun _ _ => .pure h

theorem agrees_suffixedFactor :
    C.Agrees (Same (TableRef.map C.view)) (suffixedFactor rule entry) (suffixedFactor rule' entry') := by
  refine (agrees_plainFactor hentry).bind fun table table' h => agrees_skipSample.andThen fun _ _ => ?_
  exact (agrees_skipPartition _).andThen fun _ _ => (agrees_skipPartition _).andThen fun _ _ => .pure h

theorem agrees_onlyFactor :
    C.Agrees (Same (TableRef.map C.view)) (onlyFactor rule entry) (onlyFactor rule' entry') := by
  refine .branch .skip ((agrees_suffixedFactor hentry).bind fun table table' h => ?_) (agrees_suffixedFactor hentry)
  exact Agrees.expect.andThen fun _ _ => .pure h

theorem agrees_oracleFactor :
    C.Agrees (Same (TableRef.map C.view)) (oracleFactor rule entry) (oracleFactor rule' entry') := by
  have hpivoted : C.Agrees (Same (TableRef.map C.view)) (pivotedFactor rule entry) (pivotedFactor rule' entry') :=
    (agrees_suffixedFactor hentry).bind fun table table' h => agrees_skipPivot.andThen fun _ _ => .pure h
  have hflashback : ∀ table table', Same (TableRef.map C.view) table table' →
      C.Agrees (Same (TableRef.map C.view)) (rejectFlashback >>= fun _ => pure table)
        (rejectFlashback >>= fun _ => pure table') :=
    fun table table' h => agrees_rejectFlashback.andThen fun _ _ => .pure h
  refine .branch .skipKeyword ?_ ?_
  · exact (agrees_onlyFactor hentry).bind hflashback
  · exact hpivoted.bind hflashback

theorem agrees_factorOver (d : Dialect) :
    C.Agrees (Same (TableRef.map C.view)) (factorOver d rule entry) (factorOver d rule' entry') := by
  cases d with
  | oracle => exact agrees_oracleFactor hentry
  | generic | sqlServer => exact agrees_plainFactor hentry

end

/-! ## Joins -/

theorem agrees_joinKind : C.Agrees Eq joinKind joinKind := by
  have hjoinOf : ∀ kind, C.Agrees Eq (joinOf kind) (joinOf kind) := by
    intro kind
    have houter : C.Agrees Whatever (skipOuter kind) (skipOuter kind) := by
      cases kind with
      | left | right | full => exact Agrees.skipKeyword.bind_eq fun _ => .pure trivial
      | inner | cross => exact .pure trivial
    exact Agrees.advance.andThen fun _ _ => houter.andThen fun _ _ => Agrees.expectKeyword.andThen fun _ _ => .pure rfl
  refine Agrees.keyword?.bind_eq fun k? => ?_
  split
  · exact Agrees.advance.andThen fun _ _ => .pure rfl
  · exact hjoinOf .inner
  · exact hjoinOf .left
  · exact hjoinOf .right
  · exact hjoinOf .full
  · exact hjoinOf .cross
  · exact .pure rfl

/-- What is seen of what a join is by. -/
def seenJoin (v : View) (j : Option Expr × List String) : Option Expr × List String :=
  (j.1.map (Expr.map v), j.2.map v.name)

theorem agrees_joinedBy (kind : JoinKind) :
    C.Agrees (Same (seenJoin C.view)) (joinedBy rule kind) (joinedBy rule' kind) := by
  have hby : C.Agrees (Same (seenJoin C.view)) (joinedBy rule .inner) (joinedBy rule' .inner) := by
    refine .branch .skipKeyword ?_ (.branch .skipKeyword ?_ .unexpected)
    · exact agrees_expression.bind fun e e' h => .pure (congrArg (fun e => (some e, [])) h)
    · refine Agrees.expect.andThen fun _ _ => Agrees.expectName.commaSeparated.bind fun names names' h => ?_
      exact Agrees.expect.andThen fun _ _ => .pure (congrArg (fun names => (none, names)) h)
  cases kind with
  | cross => exact .pure rfl
  | inner | left | right | full => exact hby

theorem endsWithFactor_map (v : View) (t : TableRef) : endsWithFactor (t.map v) = endsWithFactor t := by
  cases t <;> rfl

theorem agrees_hintBehind (d : Dialect) {left left' : TableRef} (h : left.map C.view = left'.map C.view) :
    C.Agrees Whatever (hintBehind d left) (hintBehind d left') := by
  cases d with
  | generic | oracle => exact .pure trivial
  | sqlServer =>
    have hends : endsWithFactor left = endsWithFactor left' := by
      rw [← endsWithFactor_map C.view left, h, endsWithFactor_map]
    show C.Agrees Whatever (if endsWithFactor left then skipHint else pure ())
      (if endsWithFactor left' then skipHint else pure ())
    rw [hends]
    cases endsWithFactor left' with
    | true => exact .whenKeyword (Agrees.skipRegion.andThen fun _ _ => .pure trivial)
    | false => exact .pure trivial

section
variable {factor factor' : Parser TableRef} (hfactor : C.Agrees (Same (TableRef.map C.view)) factor factor')
include hfactor

theorem agrees_nextJoin {left left' : TableRef} (hleft : left.map C.view = left'.map C.view) :
    C.Agrees (Same (Option.map (TableRef.map C.view))) (nextJoin rule factor left) (nextJoin rule' factor' left') := by
  refine agrees_joinKind.bind_eq fun kind? => ?_
  cases kind? with
  | none => exact .pure rfl
  | some kind =>
    refine hfactor.bind fun right right' hright => (agrees_joinedBy kind).bind fun j j' hj => .pure ?_
    obtain ⟨condition, columns⟩ := j
    obtain ⟨condition', columns'⟩ := j'
    have hcondition : condition.map (Expr.map C.view) = condition'.map (Expr.map C.view) := congrArg Prod.fst hj
    have hcolumns : columns.map C.view.name = columns'.map C.view.name := congrArg Prod.snd hj
    rw [Same] at hright
    rw [Same, Option.map_some, Option.map_some, TableRef.map, TableRef.map, hleft, hright, hcondition, hcolumns]

theorem agrees_joinsOver (d : Dialect) (rounds : Nat) {left left' : TableRef}
    (hleft : left.map C.view = left'.map C.view) :
    C.Agrees (Same (TableRef.map C.view)) (joinsOver d rule factor rounds left)
      (joinsOver d rule' factor' rounds left') := by
  induction rounds generalizing left left' with
  | zero => exact .pure hleft
  | succ rounds ih =>
    refine (agrees_hintBehind d hleft).andThen fun _ _ => (agrees_nextJoin hfactor hleft).bind fun joined? joined?' h => ?_
    cases joined? with
    | none =>
      rw [Option.map_eq_none_iff.1 h.symm]
      exact .pure hleft
    | some joined =>
      obtain ⟨joined', rfl, hjoined⟩ := Option.map_eq_some_iff.1 h.symm
      exact ih hjoined.symm

end

theorem agrees_tableReferenceAt (d : Dialect) (depth : Nat) :
    C.Agrees (Same (TableRef.map C.view)) (tableReferenceAt d rule depth) (tableReferenceAt d rule' depth) := by
  induction depth with
  | zero => exact .unexpected
  | succ depth ih =>
    refine (agrees_factorOver ih d).bind fun left left' h => Agrees.tokensLeft.bind_eq fun rounds => ?_
    exact agrees_joinsOver (agrees_factorOver ih d) d rounds h

theorem agrees_fromClause (d : Dialect) : C.Agrees Whatever (fromClause d rule) (fromClause d rule') := by
  have hentry : C.Agrees (Same (TableRef.map C.view)) (tableReference d rule) (tableReference d rule') :=
    Agrees.tokensLeft.bind_eq fun n => agrees_tableReferenceAt d (n + 1)
  refine .whenKeyword (.eachSeparated (hentry.bind fun entry entry' h => .modifyStatement fun s s' hs => ?_))
  refine { hs with sources := ?_ }
  rw [Same, List.map_append, List.map_append, hs.sources]
  exact congrArg (_ ++ [·]) h

/-! ## Predicates and groupings -/

theorem agrees_whereClause : C.Agrees Whatever (whereClause rule) (whereClause rule') := by
  refine .whenKeyword (agrees_expression.bind fun p p' h => .modifyStatement fun s s' hs => ?_)
  have htables : s.tables.map C.view.table = s'.tables.map C.view.table := by
    rw [Statement.tables, Statement.tables, ← Statement.tables_map, ← Statement.tables_map]
    exact congrArg (List.flatMap TableRef.tables) hs.sources
  exact { hs with conditions := C.predicate h htables hs.conditions, predicate := congrArg some h }

theorem agrees_grouping (d : Dialect) : C.Agrees Whatever (grouping d rule) (grouping d rule') := by
  have hrejected : C.Agrees Eq (look fun c => c.keyword?.filter d.unsupportedGrouping.contains)
      (look fun c => c.keyword?.filter d.unsupportedGrouping.contains) :=
    .look fun _ _ hc => congrArg (Option.filter _) hc.keyword?_eq
  refine hrejected.bind_eq fun k? => ?_
  cases k? with
  | some k => exact .unsupported
  | none =>
    refine agrees_expression.bind fun e e' h => .modifyStatement fun s s' hs => { hs with groups := ?_ }
    rw [Same, List.map_append, List.map_append, hs.groups]
    exact congrArg (_ ++ [·]) h

theorem agrees_groupBy (d : Dialect) : C.Agrees Whatever (groupBy d rule) (groupBy d rule') :=
  .whenKeyword (Agrees.expectKeyword.andThen fun _ _ => .eachSeparated (agrees_grouping d))

theorem agrees_havingClause : C.Agrees Whatever (havingClause rule) (havingClause rule') :=
  .whenKeyword (agrees_expression.bind fun _ _ h => .modifyStatement fun _ _ hs =>
    { hs with having := congrArg some h })

end

end Grammar.Likeness

end SelectRouting
