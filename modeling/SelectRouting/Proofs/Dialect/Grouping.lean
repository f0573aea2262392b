import SelectRouting.Proofs.Dialect.Clause
/-!
# Groupings that a dialect rejects

A dialect rejects a grouping by the word at its start, also where the generic one reads the word as a name.  Where the
generic dialect reads all groupings, another one does so too, or it stops at the first that it rejects
(`groupBy_eq_or_rejects`).
-/
namespace SelectRouting.Grammar

section
variable {d : Dialect} {rule : Rule} {s s' : State} {gs : List Expr} {error : ParseError} {α : Type}

/-- A parser that ends with a value has done a run, and what is said of its value holds. -/
theorem Traced.of_ok {m : Mode} {p : Parser α} {a : α} {Q : α → List Event → State → Prop} (h : Traced d rule m s p Q)
    (hs : Token.Complete s.cursor.tokens) (hr : p s = .ok a s') : ∃ es, Run rule s es s' ∧ Q a es s' := by
  have hout := h hs
  rw [hr] at hout
  obtain ⟨es, hrun, -, -, hq⟩ := hout
  exact ⟨es, hrun, hq⟩

/-- A state with one more grouping in its statement. -/
def State.grouped (s : State) (e : Expr) : State :=
  { s with statement := { s.statement with groups := s.statement.groups ++ [e] } }

/-- Some groupings with a comma behind each lead from one state to another. -/
inductive Groupings (rule : Rule) : State → List Expr → State → Prop where
  | nil {s : State} : Groupings rule s [] s
  | cons {s s' s'' : State} {e : Expr} {es : List Expr} (head : expression rule s = .ok e s')
      (comma : (s'.grouped e).cursor.kind = .comma) (tail : Groupings rule (s'.grouped e).advanced es s'') :
    Groupings rule s (e :: es) s''

/-- Behind some of the groupings that start at a state, a dialect rejects the next one by its first word. -/
def Rejects (d : Dialect) (rule : Rule) (s : State) (gs : List Expr) (error : ParseError) : Prop :=
  ∃ es s₁ k e s₂, Groupings rule s es s₁ ∧ s₁.cursor.kind = .keyword k ∧ k ∈ d.unsupportedGrouping ∧
    expression rule s₁ = .ok e s₂ ∧ es ++ [e] <+: gs ∧ error = ⟨.unsupported k.text, s₁.cursor.span⟩

theorem Rejects.cons {e : Expr} (head : expression rule s = .ok e s') (comma : (s'.grouped e).cursor.kind = .comma)
    (h : Rejects d rule (s'.grouped e).advanced gs error) : Rejects d rule s (e :: gs) error := by
  obtain ⟨es, s₁, k, e', s₂, htail, hkind, hk, he', hes, herror⟩ := h
  exact ⟨e :: es, s₁, k, e', s₂, .cons head comma htail, hkind, hk, he', (List.prefix_cons_inj e).2 hes, herror⟩

/-! ## One grouping -/

theorem grouping_of_not_atAny (hs : s.cursor.atAny d.unsupportedGrouping = false) :
    grouping d rule s = grouping .generic rule s := by
  have hnone : ∀ ks, s.cursor.atAny ks = false → s.cursor.keyword?.filter ks.contains = none := by
    intro ks h
    unfold Cursor.atAny at h
    cases hk : s.cursor.keyword? with
    | none => rfl
    | some k =>
      rw [hk, Option.any_some] at h
      rw [Option.filter_some, if_neg (by rw [h]; exact Bool.false_ne_true)]
  have hgeneric := hnone Dialect.generic.unsupportedGrouping s.cursor.atAny_nil
  unfold grouping
  rw [look_bind_apply, look_bind_apply, hnone _ hs, hgeneric]

theorem grouping_of_kind {k : Keyword} (hk : k ∈ d.unsupportedGrouping) (hkind : s.cursor.kind = .keyword k) :
    grouping d rule s = .error ⟨.unsupported k.text, s.cursor.span⟩ s := by
  have hsome : s.cursor.keyword?.filter d.unsupportedGrouping.contains = some k := by
    rw [Cursor.keyword?_of_kind hkind, Option.filter_some, if_pos (List.contains_iff_mem.2 hk)]
  unfold grouping
  rw [look_bind_apply, hsome]
  rfl

/-- The generic dialect reads a grouping as an expression and stores it. -/
theorem exists_of_grouping_generic {u : Unit} (hs : Token.Complete s.cursor.tokens)
    (h : grouping .generic rule s = .ok u s') : ∃ e s₁, expression rule s = .ok e s₁ ∧ s' = s₁.grouped e ∧
      Token.Complete s'.cursor.tokens ∧ s'.statement.groups = s.statement.groups ++ [e] := by
  have hnone : s.cursor.keyword?.filter Dialect.generic.unsupportedGrouping.contains = none := by
    cases s.cursor.keyword? <;> rfl
  unfold grouping at h
  rw [look_bind_apply, hnone] at h
  obtain ⟨e, s₁, he, hs'⟩ := ok_of_bind h
  have htraced : Traced .generic rule .reading s (expression rule) _ := reads_expression s
  obtain ⟨es, hrun, -, hclauses⟩ := htraced.storing.of_ok hs he
  have hgroups : s₁.statement.clauses.groups = s.statement.clauses.groups := by rw [hclauses]
  cases hs'
  exact ⟨e, s₁, he, rfl, hrun.complete hs, congrArg (· ++ [e]) hgroups⟩

/-! ## All groupings -/

theorem separated_of_error {item : Parser α} (rounds : Nat) (h : item s = .error error s') :
    separated item rounds s = .error error s' := by
  cases rounds with
  | zero => exact bind_of_error h _
  | succ rounds => exact bind_of_error h _

/-- A list is its first item, and behind a comma the rest of it. -/
theorem separated_of_comma {item : Parser α} {a : α} (rounds : Nat) (h : item s = .ok a s')
    (hcomma : s'.cursor.kind.alike .comma = true) :
    separated item (rounds + 1) s = (separated item rounds >>= fun as => pure (a :: as)) s'.advanced :=
  (bind_of_ok h _).trans (bind_of_ok (skipWhen_of_true hcomma) _)

theorem separated_of_not_comma {item : Parser α} {a : α} (rounds : Nat) (h : item s = .ok a s')
    (hcomma : s'.cursor.kind.alike .comma = false) : separated item (rounds + 1) s = .ok [a] s' :=
  (bind_of_ok h _).trans (bind_of_ok (skipWhen_of_false hcomma) _)

theorem exists_of_separated_generic (rounds : Nat) (hs : Token.Complete s.cursor.tokens) {us : List Unit}
    (h : separated (grouping .generic rule) rounds s = .ok us s') :
    ∃ e s₁ gs, expression rule s = .ok e s₁ ∧ s'.statement.groups = s.statement.groups ++ e :: gs := by
  induction rounds generalizing s us with
  | zero =>
    obtain ⟨u, s₁, hitem, hrest⟩ := ok_of_bind h
    obtain ⟨e, s₂, he, -, -, hgroups⟩ := exists_of_grouping_generic hs hitem
    cases hrest
    exact ⟨e, s₂, [], he, hgroups⟩
  | succ rounds ih =>
    obtain ⟨u, s₁, hitem, -⟩ := ok_of_bind h
    obtain ⟨e, s₂, he, -, hcomplete, hgroups⟩ := exists_of_grouping_generic hs hitem
    cases hcomma : s₁.cursor.kind.alike .comma with
    | true =>
      rw [separated_of_comma rounds hitem hcomma] at h
      obtain ⟨us', s₃, htail, hrest⟩ := ok_of_bind h
      cases hrest
      obtain ⟨e', -, gs, -, hgroups'⟩ := ih (Cursor.complete_advance hcomplete) htail
      refine ⟨e, s₂, e' :: gs, he, ?_⟩
      rw [hgroups']
      show s₁.statement.groups ++ e' :: gs = s.statement.groups ++ e :: e' :: gs
      rw [hgroups, List.append_assoc]
      rfl
    | false =>
      rw [separated_of_not_comma rounds hitem hcomma] at h
      cases h
      exact ⟨e, s₂, [], he, hgroups⟩

/-- In front of a word that a dialect rejects, it fails at once, and the generic one has read an expression. -/
theorem rejects_of_kind {k : Keyword} (hk : k ∈ d.unsupportedGrouping) (hkind : s.cursor.kind = .keyword k) (rounds : Nat)
    (hs : Token.Complete s.cursor.tokens) {us : List Unit}
    (h : separated (grouping .generic rule) rounds s = .ok us s') :
    ∃ error s'' gs, separated (grouping d rule) rounds s = .error error s'' ∧
      s'.statement.groups = s.statement.groups ++ gs ∧ Rejects d rule s gs error := by
  obtain ⟨e, s₁, gs, he, hgroups⟩ := exists_of_separated_generic rounds hs h
  refine ⟨_, s, e :: gs, separated_of_error rounds (grouping_of_kind hk hkind), hgroups, ?_⟩
  exact ⟨[], s, k, e, s₁, .nil, hkind, hk, he, List.prefix_append [e] gs, rfl⟩

/-- Where the rest of a list behind a comma is rejected, the list is. -/
theorem rejects_of_rest {p q : Parser (List Unit)} {e : Expr} {s₁ : State} (he : expression rule s = .ok e s₁)
    (hgroups : (s₁.grouped e).statement.groups = s.statement.groups ++ [e])
    (hcomma : (s₁.grouped e).cursor.kind = .comma)
    (hrest : ∀ us s', p (s₁.grouped e).advanced = .ok us s' → ∃ error s'' gs,
      q (s₁.grouped e).advanced = .error error s'' ∧ s'.statement.groups = (s₁.grouped e).statement.groups ++ gs ∧
        Rejects d rule (s₁.grouped e).advanced gs error)
    {u : Unit} {us : List Unit} (h : (p >>= fun us => pure (u :: us)) (s₁.grouped e).advanced = .ok us s') :
    ∃ error s'' gs, (q >>= fun us => pure (u :: us)) (s₁.grouped e).advanced = .error error s'' ∧
      s'.statement.groups = s.statement.groups ++ gs ∧ Rejects d rule s gs error := by
  obtain ⟨us', s₂, hok, hpure⟩ := ok_of_bind h
  cases hpure
  obtain ⟨error, s'', gs, herror, hgroups', hrejects⟩ := hrest us' s' hok
  refine ⟨error, s'', e :: gs, bind_of_error herror _, ?_, hrejects.cons he hcomma⟩
  rw [hgroups', hgroups, List.append_assoc]
  rfl

/-- A dialect reads a list of groupings as the generic one does, or it rejects one that the generic one reads. -/
theorem separated_eq_or_rejects (rounds : Nat) (hs : Token.Complete s.cursor.tokens) :
    separated (grouping d rule) rounds s = separated (grouping .generic rule) rounds s ∨
      s.Ahead d.unsupportedGrouping ∧ ∀ us s', separated (grouping .generic rule) rounds s = .ok us s' →
        ∃ error s'' gs, separated (grouping d rule) rounds s = .error error s'' ∧
          s'.statement.groups = s.statement.groups ++ gs ∧ Rejects d rule s gs error := by
  induction rounds generalizing s with
  | zero =>
    cases hat : s.cursor.atAny d.unsupportedGrouping with
    | true =>
      obtain ⟨k, hk, hkind⟩ := Cursor.exists_kind_of_atAny hat
      exact .inr ⟨State.ahead_of_atAny hat, fun us s' => rejects_of_kind hk hkind 0 hs⟩
    | false =>
      left
      rw [separated, separated, bind_apply, bind_apply, grouping_of_not_atAny hat]
  | succ rounds ih =>
    cases hat : s.cursor.atAny d.unsupportedGrouping with
    | true =>
      obtain ⟨k, hk, hkind⟩ := Cursor.exists_kind_of_atAny hat
      exact .inr ⟨State.ahead_of_atAny hat, fun us s' => rejects_of_kind hk hkind (rounds + 1) hs⟩
    | false =>
      have hsame : grouping d rule s = grouping .generic rule s := grouping_of_not_atAny hat
      cases hitem : grouping .generic rule s with
      | error e s' =>
        left
        rw [separated_of_error (rounds + 1) hitem, separated_of_error (rounds + 1) (hsame.trans hitem)]
      | ok u s₁ =>
        obtain ⟨e, s₂, he, rfl, hcomplete, hgroups⟩ := exists_of_grouping_generic hs hitem
        cases hcomma : (s₂.grouped e).cursor.kind.alike .comma with
        | false =>
          left
          rw [separated_of_not_comma rounds hitem hcomma, separated_of_not_comma rounds (hsame.trans hitem) hcomma]
        | true =>
          rw [separated_of_comma rounds hitem hcomma, separated_of_comma rounds (hsame.trans hitem) hcomma]
          have hcomplete' : Token.Complete (s₂.grouped e).advanced.cursor.tokens := Cursor.complete_advance hcomplete
          rcases ih hcomplete' with htail | ⟨hahead, htail⟩
          · left
            rw [bind_apply, bind_apply, htail]
          · obtain ⟨es, hrun⟩ := (fills_grouping (d := .generic)).runs.exists_run hs hitem
            have hkind := Token.Kind.eq_of_alike hcomma trivial
            exact .inr ⟨(hahead.of_advanced hcomplete).of_run hrun, fun us s' => rejects_of_rest he hgroups hkind htail⟩

/-! ## GROUP BY -/

/-- A dialect reads a `GROUP BY` as the generic one does, or it rejects one of the groupings that the generic one reads. -/
theorem groupBy_eq_or_rejects (hs : Token.Complete s.cursor.tokens) :
    groupBy d rule s = groupBy .generic rule s ∨
      s.Ahead d.unsupportedGrouping ∧ ∀ u s', groupBy .generic rule s = .ok u s' →
        s.cursor.kind = .keyword .group ∧ s.advanced.cursor.kind = .keyword .by ∧
        ∃ error s'' gs, groupBy d rule s = .error error s'' ∧ s'.statement.groups = s.statement.groups ++ gs ∧
          Rejects d rule s.advanced.advanced gs error := by
  rcases behindWords_cases .group .by s with hmissing | ⟨e, s', herror⟩ | ⟨hgroup, hby, hlist⟩
  · exact .inl ((hmissing _).trans (hmissing _).symm)
  · exact .inl ((herror _).trans (herror _).symm)
  · have hs₁ : Token.Complete s.advanced.cursor.tokens := Cursor.complete_advance hs
    have hs₂ : Token.Complete s.advanced.advanced.cursor.tokens := Cursor.complete_advance hs₁
    have hgroupBy : ∀ d, groupBy d rule s =
        (separated (grouping d rule) s.advanced.advanced.cursor.rest.length >>= fun _ => pure ()) s.advanced.advanced :=
      fun d => hlist _
    rw [hgroupBy d, hgroupBy .generic]
    rcases separated_eq_or_rejects (d := d) s.advanced.advanced.cursor.rest.length hs₂ with hsame | ⟨hahead, hrejects⟩
    · exact .inl (by rw [bind_apply, bind_apply, hsame])
    · refine .inr ⟨(hahead.of_advanced hs₁).of_advanced hs, fun u s' h => ⟨hgroup, hby, ?_⟩⟩
      obtain ⟨us, s₃, hok, hrest⟩ := ok_of_bind h
      cases hrest
      obtain ⟨error, s'', gs, herror, hgroups, hrejects⟩ := hrejects us s' hok
      exact ⟨error, s'', gs, bind_of_error herror _, hgroups, hrejects⟩

end

end SelectRouting.Grammar
