import SelectRouting.Proofs.Renaming.Exchange
import SelectRouting.Proofs.Trace.Expression
/-!
# An expression with a word in the place of a name

All words that the grammar of an expression asks for are reserved, so it sees a difference between a name and a keyword that
is not reserved in one place only: where an operand is a name (`Exchange.follows_primary`).  There a name that stands alone
is a column, and so is the keyword, unless it calls an aggregate and then lacks its parenthesis.  One lemma for each form of
operand and of operator, and an induction on the depth for the knot (`Exchange.follows_expression`).
-/
namespace SelectRouting.Grammar.Exchange

variable {X : Exchange} {rule : Rule} {s : State}

variable (X) in
/-- From some state, the same parser comes to the expression with the column renamed. -/
abbrev Renames (s : State) (p p' : Parser Expr) : Prop :=
  X.Follows Expr.leaves X.rename s p p'

variable (X) in
/-- A parser of inner expressions comes to renamed ones. -/
def RenamesInner (inner : Inner) : Prop :=
  ∀ strength s, X.At s → X.Renames s (inner strength) (inner strength)

section
variable {inner : Inner} (hinner : X.RenamesInner inner)
include hinner

/-! ## Calls and cases -/

theorem follows_expressionList (hs : X.At s) : X.Follows (·.flatMap Expr.leaves) (·.map X.rename) s
    (expressionList inner) (expressionList inner) :=
  .commaSeparated (hinner 0) hs

theorem follows_arguments (hs : X.At s) : X.Follows (·.flatMap Expr.leaves) (·.map X.rename) s
    (arguments inner) (arguments inner) := by
  refine .look_bind (alike_cursor _ trivial) ?_
  split
  · exact .pure hs (by simp) rfl
  · refine .skip_bind trivial (fun hstar => .pure (hs.advanced (hstar ▸ nofun)) ?_ ?_) fun _ => ?_
    · simp [Sound]
    · simp [rename]
    · exact follows_expressionList hinner hs

theorem follows_call (name : String) (hs : X.At s) : X.Renames s (call inner name) (call inner name) := by
  have hbehind : ∀ (distinct : Bool) t, X.At t → X.Renames t
      (arguments inner >>= fun args => expect .rightParen >>= fun _ => pure (.call name distinct args))
      (arguments inner >>= fun args => expect .rightParen >>= fun _ => pure (.call name distinct args)) := by
    intro distinct t ht
    refine (follows_arguments hinner ht).bind fun args u hu hargs => .expect_bind trivial nofun hu fun hu' => ?_
    exact .pure hu' (by simpa using hargs) (by simp [rename])
  exact .expect_bind trivial nofun hs fun hs' => .skipKeyword_bind rfl hs' (hbehind true _) (hbehind false _ hs')

theorem follows_branches (rounds : Nat) (hs : X.At s) :
    X.Follows (·.flatMap fun b => b.1.leaves ++ b.2.leaves) (·.map fun b => (X.rename b.1, X.rename b.2)) s
      (branches inner rounds) (branches inner rounds) := by
  induction rounds generalizing s with
  | zero => exact .pure hs (by simp) rfl
  | succ rounds ih =>
    refine .skipKeyword_bind rfl hs (fun hs' => ?_) (.pure hs (by simp) rfl)
    refine (hinner 0 _ hs').bind fun condition t ht hcondition => .expectKeyword_bind rfl ht fun ht' => ?_
    refine (hinner 0 _ ht').bind fun value u hu hvalue => (ih hu).bind fun bs v hv hbs => .pure hv ?_ rfl
    rw [List.flatMap_cons, sound_append, sound_append]
    exact ⟨⟨hcondition, hvalue⟩, hbs⟩

theorem follows_optional {k : Keyword} (hk : k.reserved = true) (hs : X.At s) :
    X.Follows (·.toList.flatMap Expr.leaves) (Option.map X.rename) s (optional k inner) (optional k inner) := by
  refine .skipKeyword_bind hk hs (fun hs' => ?_) (.pure hs (by simp) rfl)
  exact (hinner 0 _ hs').bind fun e t ht he => .pure ht (by simpa using he) rfl

theorem follows_caseOperand (hs : X.At s) :
    X.Follows (·.toList.flatMap Expr.leaves) (Option.map X.rename) s (caseOperand inner) (caseOperand inner) := by
  refine .look_bind (atKeyword_cursor _ rfl) ?_
  split
  · exact .pure hs (by simp) rfl
  · exact (hinner 0 _ hs).bind fun e t ht he => .pure ht (by simpa using he) rfl

theorem follows_caseExpression (hs : X.At s) : X.Renames s (caseExpression inner) (caseExpression inner) := by
  refine .expectKeyword_bind rfl hs fun hs' => (follows_caseOperand hinner hs').bind fun operand t ht hoperand => ?_
  refine .tokensLeft_bind fun n => (follows_branches hinner n ht).bind fun whens u hu hwhens => ?_
  rw [List.isEmpty_map]
  split
  · exact .unexpected
  · refine (follows_optional hinner rfl hu).bind fun otherwise v hv hotherwise => ?_
    refine .expectKeyword_bind rfl hv fun hv' => .pure hv' ?_ (by simp [rename])
    rw [Expr.leaves_case, sound_append, sound_append]
    exact ⟨hoperand, hwhens, hotherwise⟩

end

/-! ## Names -/

/-- Behind an owner and its point there is no column without an owner, and no name that stands alone. -/
theorem follows_qualified {owner : String} {o : Token} {passed : List Token} (ho : o.name? = some owner)
    (htokens : passed ++ s.cursor.tokens = X.tokens) (hlast : ∃ dot ∈ passed.getLast?, dot.kind = .dot) :
    X.Renames s (qualified rule owner o) (qualified rule owner o) := by
  have hne : X.StandsAlone → s.cursor.current ≠ X.old := by
    intro halone hold
    obtain ⟨dot, hmem, hdot⟩ := hlast
    rw [(split_of_current htokens hold).1] at hmem
    exact halone.behind dot hmem hdot
  have hat : s.cursor.kind ≠ .eof → s.cursor.kind ≠ .dot → X.At (s.recorded rule o).advanced := at_advanced htokens
  refine Follows.of_runs (t := s.recorded rule o) ?_ (recordTable_bind_apply ho _ s) fun _ =>
    recordTable_bind_apply ho _ (X.state s)
  refine .skip_bind trivial (fun hstar => .pure (hat (hstar ▸ nofun) (hstar ▸ nofun)) ?_ ?_) fun _ => ?_
  · simp [Sound]
  · simp [rename]
  · refine .look_bind (span_cursor _) (.expectName_bind (fun halone => name?_cursor_of_ne _ (hne halone)) ?_)
    intro name hname
    have hname : s.cursor.kind.IsName := Token.Kind.isName_iff.2 ⟨name, hname⟩
    refine .pure (hat (hname.ne_of_bare trivial) (hname.ne_of_bare trivial)) ?_ ?_
    · simp [Sound]
    · simp [rename]

/-- Behind an owner, at the point. -/
theorem follows_qualified_of_dot {owner : String} (hs : X.At s) (ho : s.cursor.current.name? = some owner)
    (hdot : s.advanced.cursor.kind = .dot) :
    X.Renames s.advanced.advanced (qualified rule owner s.cursor.current) (qualified rule owner s.cursor.current) := by
  obtain ⟨passed, htokens, -⟩ := hs
  have hname : s.cursor.kind.IsName := Token.Kind.isName_iff.2 ⟨owner, ho⟩
  have htokens' := tokens_advanced (tokens_advanced htokens (hname.ne_of_bare trivial)) (hdot ▸ nofun)
  exact follows_qualified ho htokens' ⟨_, List.getLast?_concat, hdot⟩

section
variable {inner : Inner} {name : String}

/-! ### What stands behind a name -/

/-- Behind a name, the parser sees what the name is of. -/
theorem named_apply (hname : s.cursor.current.name? = some name) : named rule inner s =
    (if s.advanced.cursor.kind.alike .leftParen then call inner name else skip .dot >>= fun b =>
      if b then qualified rule name s.cursor.current else pure (.column none name s.cursor.span)) s.advanced := by
  unfold named
  rw [look_bind_apply, bind_of_ok (expectName_of_some hname)]
  rfl

theorem named_of_leftParen (hname : s.cursor.current.name? = some name) (hnext : s.advanced.cursor.kind = .leftParen) :
    named rule inner s = call inner name s.advanced := by
  rw [named_apply hname, hnext]
  rfl

theorem named_of_dot (hname : s.cursor.current.name? = some name) (hnext : s.advanced.cursor.kind = .dot) :
    named rule inner s = qualified rule name s.cursor.current s.advanced.advanced := by
  have hleft : s.advanced.cursor.kind.alike .leftParen = false := by rw [hnext]; rfl
  rw [named_apply hname, hleft, if_neg Bool.false_ne_true, skip_bind_apply, hnext]
  rfl

theorem named_of_other (hname : s.cursor.current.name? = some name) (hleft : s.advanced.cursor.kind ≠ .leftParen)
    (hdot : s.advanced.cursor.kind ≠ .dot) :
    named rule inner s = .ok (.column none name s.cursor.span) s.advanced := by
  have hleft : s.advanced.cursor.kind.alike .leftParen = false :=
    Bool.eq_false_iff.2 fun h => hleft (Token.Kind.eq_of_alike h trivial)
  have hdot : s.advanced.cursor.kind.alike .dot = false :=
    Bool.eq_false_iff.2 fun h => hdot (Token.Kind.eq_of_alike h trivial)
  rw [named_apply hname, hleft, if_neg Bool.false_ne_true, skip_bind_apply, hdot]
  rfl

theorem call_of_ne (h : s.cursor.kind ≠ .leftParen) :
    call inner name s = .error ⟨.unexpected "LeftParen" s.cursor.kind, s.cursor.span⟩ s := by
  have hleft : s.cursor.kind.alike .leftParen = false :=
    Bool.eq_false_iff.2 fun hleft => h (Token.Kind.eq_of_alike hleft trivial)
  refine bind_of_error ?_ _
  unfold expect
  rw [look_bind_apply, skip_bind_apply, hleft]
  rfl

theorem primary_of_isName (hk : s.cursor.current.kind.IsName)
    (hplain : ∀ k, s.cursor.current.kind = .keyword k → k.isAggregate = false) :
    primary rule inner s = named rule inner s := by
  obtain ⟨name, hname⟩ := Token.Kind.isName_iff.1 hk
  have hname : s.cursor.name? = some name := hname
  have hother : (look (·.name?) >>= fun name? =>
      if name?.isSome then named rule inner else unexpected "expression" : Parser Expr) s = named rule inner s := by
    rw [look_bind_apply, hname]
    rfl
  unfold primary
  rw [look_bind_apply]
  cases hkind : s.cursor.current.kind with
  | identifier => exact hother
  | keyword k =>
    have hfree : k.reserved = false := by rwa [hkind] at hk
    have hcall := hplain k hkind
    cases k <;> first | exact Bool.noConfusion (show true = false from hfree) |
      exact Bool.noConfusion (show true = false from hcall) | exact hother
  | _ =>
    rw [hkind] at hk
    exact hk.elim

theorem primary_of_aggregate {k : Keyword} (hk : s.cursor.current.kind = .keyword k) (haggregate : k.isAggregate = true) :
    primary rule inner s = aggregate inner k s := by
  unfold primary
  rw [look_bind_apply, hk]
  cases k <;> first | exact Bool.noConfusion (show false = true from haggregate) | rfl

end

section
variable {inner : Inner} (hinner : X.RenamesInner inner)
include hinner

/-- Another name than the exchanged one. -/
theorem follows_named_of_ne (hs : X.At s) (hne : s.cursor.current ≠ X.old) :
    X.Renames s (named rule inner) (named rule inner) := by
  refine .look_bind (cursor_of_ne _ hne) (.expectName_bind (fun _ => name?_cursor_of_ne _ hne) fun name hname => ?_)
  have hkind : s.cursor.kind.IsName := Token.Kind.isName_iff.2 ⟨name, hname⟩
  have hs' : X.At s.advanced := hs.advanced (hkind.ne_of_bare trivial)
  refine .look_bind (alike_cursor _ trivial) ?_
  split
  · exact follows_call hinner name hs'
  · refine .skip_bind trivial (fun hdot => follows_qualified_of_dot hs hname hdot) fun _ => ?_
    have hspan : X.old.span ≠ s.cursor.current.span := fun h => hne (eq_old hs.mem_tokens h.symm)
    refine .pure hs' ?_ (Expr.rename_column_of_ne hspan.symm name)
    simp [Sound, hspan]

theorem follows_aggregate (k : Keyword) (hs : X.At s) (hdot : s.cursor.kind ≠ .dot) :
    X.Renames s (aggregate inner k) (aggregate inner k) :=
  .advance_bind (follows_call hinner k.text (hs.advanced hdot))

omit hinner in
/-- The keyword in the place of a name that stands alone is a column, or an aggregate that lacks its parenthesis. -/
theorem primary_of_standsAlone (halone : X.StandsAlone) (hs : X.At s) (hold : s.cursor.current = X.old) :
    primary rule inner (X.state s) = .ok (.column none X.written X.old.span) (X.state s.advanced) ∨
      X.Refuses (primary rule inner (X.state s)) := by
  have hafter := (hs.after_eq hold).2
  obtain ⟨hleft, hdot⟩ := (hs.standsAlone_iff hold halone.plain).1 halone
  have hnew : (X.state s).cursor.current = X.new := by
    show X.put s.cursor.current = X.new
    rw [hold, put_old]
  have hcurrent : (X.state s.advanced).cursor.current = s.advanced.cursor.current := by
    refine cursor_of_ne _ fun h => ?_
    have hmem : X.old ∈ X.after := by
      rw [hafter, ← h]
      exact List.mem_cons_self
    exact old_notMem.2 hmem
  have hkind : (X.state s).advanced.cursor.kind = s.advanced.cursor.kind := by
    rw [state_advanced]
    exact congrArg Token.kind hcurrent
  by_cases haggregate : X.word.isAggregate = true
  · refine .inr ⟨haggregate, s.advanced.cursor.current, by rw [hafter]; rfl, X.state s.advanced, ?_⟩
    rw [primary_of_aggregate (congrArg Token.kind hnew) haggregate]
    show call inner X.word.text (X.state s).advanced = _
    rw [call_of_ne (hkind ▸ hleft), state_advanced, Cursor.kind, Cursor.span, hcurrent]
  · have hplain : ∀ k, (X.state s).cursor.current.kind = .keyword k → k.isAggregate = false := by
      intro k hk
      rw [hnew] at hk
      cases hk
      exact Bool.eq_false_iff.2 haggregate
    rw [primary_of_isName (hnew ▸ isName_new) hplain,
      named_of_other (hnew ▸ name?_new) (hkind ▸ hleft) (hkind ▸ hdot), state_advanced, Cursor.span, hnew]
    exact .inl rfl

/-- The exchanged name where it is no aggregate: in front of a parenthesis or a point it does not stand alone, and
elsewhere it is the column. -/
theorem follows_primary_of_old (hs : X.At s) (hold : s.cursor.current = X.old)
    (hplain : ∀ k, X.old.kind = .keyword k → k.isAggregate = false) :
    X.Renames s (primary rule inner) (primary rule inner) := by
  have hname : s.cursor.current.kind.IsName := hold ▸ X.isName
  have hprimary : primary rule inner s = named rule inner s := primary_of_isName hname (hold ▸ hplain)
  obtain ⟨name, hname'⟩ := Token.Kind.isName_iff.1 hname
  have hs' : X.At s.advanced := hs.advanced (hname.ne_of_bare trivial)
  have halone := hs.standsAlone_iff hold hplain
  by_cases hleft : s.advanced.cursor.kind = .leftParen
  · refine (follows_call hinner name hs').of_runs (hprimary.trans (named_of_leftParen hname' hleft)) fun h => ?_
    exact absurd hleft (halone.1 h).1
  · by_cases hdot : s.advanced.cursor.kind = .dot
    · refine (follows_qualified_of_dot hs hname' hdot).of_runs (hprimary.trans (named_of_dot hname' hdot)) fun h => ?_
      exact absurd hdot (halone.1 h).2
    · have halone : X.StandsAlone := halone.2 ⟨hleft, hdot⟩
      intro e t hr
      rw [hprimary, named_of_other hname' hleft hdot] at hr
      cases hr
      refine ⟨hs', fun _ _ => halone, fun _ => ?_⟩
      have hspan : s.cursor.span = X.old.span := congrArg Token.span hold
      rw [hspan, rename, Expr.rename_column]
      exact primary_of_standsAlone halone hs hold

/-! ## Operands -/

omit hinner in
theorem follows_constant (value : Literal) (hs : X.At s) (hdot : s.cursor.kind ≠ .dot) :
    X.Renames s (constant value) (constant value) :=
  .advance_bind (.pure (hs.advanced hdot) (by simp) (Expr.rename_literal value))

omit hinner in
theorem follows_parameter {span : Span} (hs : X.At s) (hdot : s.cursor.kind ≠ .dot) :
    X.Renames s (parameter span) (parameter span) := by
  have hclaim : X.Keeps s.advanced claimParameter := by
    intro ordinal t hr
    cases hr
    exact ⟨hs.advanced hdot, sound_nil, fun _ => .inl rfl⟩
  refine .advance_bind (hclaim.andThen fun ordinal t ht => .pure ht ?_ (Expr.rename_placeholder ..))
  simp [Sound]

omit hinner in
theorem follows_star (hs : X.At s) (hdot : s.cursor.kind ≠ .dot) :
    X.Renames s (do advance; return .wildcard none) (do advance; return .wildcard none) := by
  refine .advance_bind (.pure (hs.advanced hdot) ?_ (Expr.rename_wildcard none))
  simp [Sound]

theorem follows_parenthesized (hs : X.At s) (hdot : s.cursor.kind ≠ .dot) :
    X.Renames s (parenthesized inner) (parenthesized inner) := by
  refine .look_bind (atSubquery_cursor _) ?_
  split
  · exact .unsupported
  · refine .advance_bind ((hinner 0 _ (hs.advanced hdot)).bind fun e t ht he => ?_)
    exact .expect_bind trivial nofun ht fun ht' => .pure ht' (by simpa using he) (Expr.rename_paren e)

/-- What does not stand at the name is read alike. -/
theorem follows_primary_of_ne (hs : X.At s) (hne : s.cursor.current ≠ X.old) :
    X.Renames s (primary rule inner) (primary rule inner) := by
  have hdot : ∀ {k : Token.Kind}, s.cursor.current.kind = k → k ≠ .dot → s.cursor.kind ≠ .dot :=
    fun hk h hdot => h (hk.symm.trans hdot)
  refine .look_bind (cursor_of_ne _ hne) ?_
  split
  case h_1 hk | h_2 hk | h_3 hk | h_4 hk | h_5 hk | h_6 hk => exact follows_constant _ hs (hdot hk nofun)
  case h_7 hk => exact follows_parameter hs (hdot hk nofun)
  case h_8 hk => exact follows_star hs (hdot hk nofun)
  case h_9 hk => exact follows_parenthesized hinner hs (hdot hk nofun)
  case h_10 => exact .unsupported
  case h_11 hk | h_12 hk | h_13 hk | h_14 hk | h_15 hk => exact follows_aggregate hinner _ hs (hdot hk nofun)
  case h_16 => exact follows_caseExpression hinner hs
  case h_17 =>
    refine .look_bind (name?_cursor_of_ne _ hne) ?_
    split
    · exact follows_named_of_ne hinner hs hne
    · exact .unexpected

theorem follows_primary (hs : X.At s) : X.Renames s (primary rule inner) (primary rule inner) := by
  by_cases hold : s.cursor.current = X.old
  · by_cases haggregate : ∃ k, X.old.kind = .keyword k ∧ k.isAggregate = true
    · obtain ⟨k, hk, haggregate⟩ := haggregate
      have hkind : s.cursor.current.kind = .keyword k := hold ▸ hk
      have hcall := follows_aggregate hinner k hs (fun h => nomatch hkind.symm.trans h)
      refine hcall.of_runs (primary_of_aggregate hkind haggregate) fun halone => ?_
      exact Bool.noConfusion (haggregate.symm.trans (halone.plain k hk))
    · refine follows_primary_of_old hinner hs hold fun k hk => ?_
      exact Bool.eq_false_iff.2 fun h => haggregate ⟨k, hk, h⟩
  · exact follows_primary_of_ne hinner hs hold

omit hinner in
theorem keeps_skipPrior (hs : X.At s) : X.Keeps s skipPrior := by
  have hpure : ∀ (b : Bool) t, X.At t → X.Keeps t (pure b) := fun b t ht => .pure ht sound_nil rfl
  have hskip : X.Keeps s (if s.priorAllowed then skipKeyword .prior else pure false) := by
    split
    · rw [← bind_pure (skipKeyword .prior)]
      exact .skipKeyword_bind rfl hs (hpure true _) (hpure false s hs)
    · exact hpure false s hs
  exact hskip.of_runs rfl fun _ => rfl

omit hinner in
theorem ne_dot_of_prefixed? {k : Token.Kind} {op : UnaryOp} (h : prefixed? k = some op) : k ≠ .dot := by
  rintro rfl
  cases h

theorem follows_operand (hs : X.At s) : X.Renames s (operand rule inner) (operand rule inner) := by
  refine (keeps_skipPrior hs).andThen fun b t ht => ?_
  cases b with
  | true => exact hinner _ t ht
  | false =>
    refine .look_bind_cursor ?_
    rw [prefixed?_cursor]
    split
    · next op hop =>
      refine .advance_bind ((hinner _ _ (ht.advanced (ne_dot_of_prefixed? hop))).bind fun e u hu he => .pure hu ?_ ?_)
      · rwa [Expr.leaves_unary]
      · exact Expr.rename_unary op e
    · exact follows_primary hinner ht

/-! ## What follows an operand -/

section
variable {left : Expr} (hleft : X.Sound left.leaves)
include hleft

theorem follows_membership (negated : Bool) (hs : X.At s) :
    X.Renames s (membership inner left negated) (membership inner (X.rename left) negated) := by
  refine .expectKeyword_bind rfl hs fun hs' => .look_bind (atSubquery_cursor _) ?_
  split
  · exact .unsupported
  · refine .expect_bind trivial nofun hs' fun hs'' => (follows_expressionList hinner hs'').bind fun members t ht hall => ?_
    refine .expect_bind trivial nofun ht fun ht' => .pure ht' ?_ (Expr.rename_within left members negated)
    rw [Expr.leaves_within, sound_append]
    exact ⟨hleft, hall⟩

theorem follows_range (negated : Bool) (hs : X.At s) :
    X.Renames s (range inner left negated) (range inner (X.rename left) negated) := by
  refine .expectKeyword_bind rfl hs fun hs' => (hinner _ _ hs').bind fun low t ht hlow => ?_
  refine .expectKeyword_bind rfl ht fun ht' => (hinner _ _ ht').bind fun high u hu hhigh => ?_
  refine .pure hu ?_ (Expr.rename_between left low high negated)
  rw [Expr.leaves_between, sound_append, sound_append]
  exact ⟨hleft, hlow, hhigh⟩

omit hinner in
theorem follows_nullTest (hs : X.At s) (hdot : s.cursor.kind ≠ .dot) :
    X.Renames s (nullTest left) (nullTest (X.rename left)) := by
  have hbehind : ∀ (negated : Bool) t, X.At t → X.Renames t (expectKeyword .null >>= fun _ => pure (.isNull left negated))
      (expectKeyword .null >>= fun _ => pure (.isNull (X.rename left) negated)) := by
    intro negated t ht
    refine .expectKeyword_bind rfl ht fun ht' => .pure ht' ?_ (Expr.rename_isNull left negated)
    rwa [Expr.leaves_isNull]
  have hs' := hs.advanced hdot
  exact .advance_bind (.skipKeyword_bind rfl hs' (hbehind true _) (hbehind false _ hs'))

theorem follows_binary (op : BinaryOp) (hs : X.At s) (hdot : s.cursor.kind ≠ .dot) :
    X.Renames s (binary inner op left) (binary inner op (X.rename left)) := by
  refine .advance_bind ((hinner _ _ (hs.advanced hdot)).bind fun right t ht hright => ?_)
  refine .pure ht ?_ (Expr.rename_binary op left right)
  rw [Expr.leaves_binary, sound_append]
  exact ⟨hleft, hright⟩

theorem follows_negatedTest (hs : X.At s) (hdot : s.cursor.kind ≠ .dot) :
    X.Renames s (negatedTest inner left) (negatedTest inner (X.rename left)) := by
  have hs' := hs.advanced hdot
  have hword : ∀ {w : Keyword}, w.reserved = true → s.advanced.cursor.keyword? = some w →
      (X.cursor s.advanced.cursor).keyword? = some w := fun hw => (keyword?_put_eq_iff hw _).2
  refine .advance_bind (.look_bind_cursor ?_)
  split
  · next hin =>
    rw [hword rfl hin]
    exact follows_membership hinner hleft true hs'
  · next hbetween =>
    rw [hword rfl hbetween]
    exact follows_range hinner hleft true hs'
  · next hlike =>
    rw [hword rfl hlike]
    have hkind : s.advanced.cursor.kind = .keyword .like := Cursor.kind_of_atKeyword (decide_eq_true hlike)
    refine (follows_binary hinner hleft .like hs' (hkind ▸ nofun)).bind fun e t ht he => .pure ht ?_ ?_
    · rwa [Expr.leaves_unary]
    · exact Expr.rename_unary .not e
  · exact .unexpected

theorem follows_extend (i : Infix) (hs : X.At s) (hdot : s.cursor.kind ≠ .dot) :
    X.Renames s (extend inner left i) (extend inner (X.rename left) i) := by
  cases i with
  | operator op => exact follows_binary hinner hleft op hs hdot
  | is => exact follows_nullTest hleft hs hdot
  | within => exact follows_membership hinner hleft false hs
  | between => exact follows_range hinner hleft false hs
  | not => exact follows_negatedTest hinner hleft hs hdot

end

omit hinner in
theorem ne_dot_of_ofKind? {k : Token.Kind} {i : Infix} (h : Infix.ofKind? k = some i) : k ≠ .dot := by
  rintro rfl
  cases h

theorem follows_operators (strength rounds : Nat) {left : Expr} (hleft : X.Sound left.leaves) (hs : X.At s) :
    X.Renames s (operators inner strength rounds left) (operators inner strength rounds (X.rename left)) := by
  induction rounds generalizing s left with
  | zero => exact .pure hs hleft rfl
  | succ rounds ih =>
    refine .look_bind_cursor ?_
    rw [ofKind?_cursor]
    split
    · next i hi =>
      split
      · exact .pure hs hleft rfl
      · exact (follows_extend hinner hleft i hs (ne_dot_of_ofKind? hi)).bind fun e t ht he => ih he ht
    · exact .pure hs hleft rfl

end

/-! ## The knot -/

theorem follows_expressionAt (depth : Nat) : X.RenamesInner (expressionAt rule depth) := by
  induction depth with
  | zero => exact fun _ _ _ => .unexpected
  | succ depth ih =>
    intro strength s hs
    refine (follows_operand ih hs).bind fun first t ht hfirst => .tokensLeft_bind fun rounds => ?_
    exact follows_operators ih strength rounds hfirst ht

theorem follows_expression (hs : X.At s) : X.Renames s (expression rule) (expression rule) :=
  .tokensLeft_bind fun n => follows_expressionAt (n + 1) 0 s hs

end SelectRouting.Grammar.Exchange
