import SelectRouting.Proofs.Precedence.RoundTrip
import SelectRouting.Proofs.Prefix.From
import SelectRouting.Proofs.Tables.Printing
/-!
# Reading back an entry of FROM

An entry is read up to the joins that follow it (`ResumesJoins`): in front of its tokens the parser comes to where it looks
for the next join, with the entry on the left.  So a left side leads on to its join, and a right side that is a join ends in
front of its closing parenthesis.  Main statement: in every dialect the text of an entry is read as that entry
(`tableReference_text`).
-/
namespace SelectRouting.Grammar

open Token (Kind)
open SelectRouting.Expr (commas marking)

variable {d : Dialect} {rule : Rule} {entry : Parser TableRef} {s : State} {ks after : List Kind} {n m c : Nat}

/-! ## What follows -/

/-- A kind that stands behind an entry: it closes it, or starts the next join. -/
def closesEntry : Kind → Bool
  | .rightParen | .eof => true
  | .keyword .join | .keyword .inner | .keyword .left | .keyword .right | .keyword .full | .keyword .cross => true
  | _ => false

/-- A kind that stands behind a factor: one behind an entry, or the keyword of what a join is by. -/
def closesFactor : Kind → Bool
  | .keyword .on | .keyword .using => true
  | k => closesEntry k

theorem closesFactor_of_closesEntry {k : Kind} (h : closesEntry k = true) : closesFactor k = true := by
  unfold closesFactor
  split
  · rfl
  · rfl
  · exact h

theorem ne_of_closesFactor {k j : Kind} (h : closesFactor k = true) (hj : closesFactor j = false) : k ≠ j := by
  rintro rfl
  rw [h] at hj
  cases hj

theorem halts_of_closesEntry (h : closesEntry (leading after) = true) : Halts 0 after := by
  have hclosing : Apart after ∧ Infix.ofKind? (leading after) = none := by
    unfold Apart
    generalize leading after = k at h
    unfold closesEntry at h
    split at h
    case h_9 => cases h
    all_goals exact ⟨⟨nofun, nofun⟩, rfl⟩
  constructor
  · exact hclosing.1
  · intro i hi
    rw [hclosing.2] at hi
    cases hi

theorem closesEntry_words (full : Bool) (kind : JoinKind) (ks : List Kind) :
    closesEntry (leading (kind.words full ++ ks)) = true := by
  cases kind <;> cases full <;> rfl

theorem closesFactor_printBy {kind : JoinKind} {condition : Option Expr} {columns : List String}
    (hby : JoinedBy kind condition columns) (hafter : closesEntry (leading after) = true) :
    closesFactor (leading (TableRef.printBy condition columns ++ after)) = true := by
  cases hby with
  | nothing => exact closesFactor_of_closesEntry hafter
  | condition => rfl
  | columns _ hne =>
    cases columns with
    | nil => exact absurd rfl hne
    | cons name names => rfl

/-! ## Tables -/

theorem ends_expectName {name : String} (hs : s.Faces (.identifier name :: after) n (c + 1)) :
    Ends expectName s after n c (· = name) := by
  refine ⟨name, s.advanced, expectName_of_some ?_, hs.advanced, rfl⟩
  rw [Cursor.name?, hs.kind, leading, List.headD_cons]

theorem ends_aliasAfterAs {name : String} (hs : s.Faces (.identifier name :: after) n (c + 1)) :
    Ends aliasAfterAs s after n c (· = name) := by
  refine .look_bind ?_
  rw [hs.kind]
  exact ends_expectName hs

theorem ends_aliasClause {aliasName : Option String} (hs : s.Faces (TableRef.printAlias aliasName ++ after) n c)
    (hafter : closesFactor (leading after) = true) : Ends aliasClause s after n c (· = aliasName) := by
  cases aliasName with
  | none =>
    have hs : s.Faces after n c := hs
    have hkind := hs.kind
    have has : s.cursor.atKeyword .as = false := Bool.eq_false_iff.2 fun hat =>
      ne_of_closesFactor hafter rfl (hkind.symm.trans (Cursor.kind_of_atKeyword hat))
    have hname : s.cursor.atIdentifier = false := by
      rw [Cursor.atIdentifier, hkind]
      generalize leading after = k at hafter
      cases k with
      | identifier name => cases hafter
      | _ => rfl
    refine .look_bind ?_
    rw [has, Bool.false_and]
    refine .skipKeyword_bind_of_not hs (ne_of_closesFactor hafter rfl) (.look_bind ?_)
    rw [hname]
    exact .pure hs rfl
  | some name =>
    have hof : s.cursor.nextIsKeyword .of = false := by
      rw [Cursor.nextIsKeyword, hs.next]
      rfl
    refine .look_bind ?_
    rw [hof, Bool.and_false]
    refine .skipKeyword_bind hs.weaken fun s₁ hs₁ => .bind (ends_aliasAfterAs hs₁.weaken) fun written s₂ hs₂ h => ?_
    exact .pure hs₂ (congrArg some h)

theorem ends_tableNamed {schema aliasName : Option String} {name : String} {token : Token}
    (hs : s.Faces (TableRef.printAlias aliasName ++ after) n c) (hafter : closesFactor (leading after) = true) :
    Ends (tableNamed rule schema name token) s after n c
      fun t' => t'.bare = .table schema name aliasName ⟨0, 0⟩ := by
  refine .recordTable_bind hs fun s₁ hs₁ => .bind (ends_aliasClause hs₁ hafter) fun written s₂ hs₂ h => .pure hs₂ ?_
  rw [TableRef.bare, h]

theorem ends_tableName {schema aliasName : Option String} {name : String}
    (hs : s.Faces (TableRef.printSchema schema ++ .identifier name :: (TableRef.printAlias aliasName ++ after)) n c)
    (hafter : closesFactor (leading after) = true) :
    Ends (tableName rule) s after n c fun t' => t'.bare = .table schema name aliasName ⟨0, 0⟩ := by
  cases schema with
  | none =>
    have hdot : (leading (TableRef.printAlias aliasName ++ after)).alike .dot = false := by
      cases aliasName with
      | none => exact Bool.eq_false_iff.2 fun h => ne_of_closesFactor hafter rfl (Kind.eq_of_alike h trivial)
      | some _ => rfl
    refine .look_bind (.expectName_bind hs.weaken fun s₁ hs₁ => .skip_bind_of_not hs₁ hdot ?_)
    exact ends_tableNamed hs₁ hafter
  | some schema =>
    refine .look_bind (.expectName_bind hs.weaken fun s₁ hs₁ => .skip_bind hs₁.weaken rfl fun s₂ hs₂ => ?_)
    exact .look_bind (.expectName_bind hs₂.weaken fun s₃ hs₃ => ends_tableNamed hs₃ hafter)

/-! ## Factors -/

theorem ends_plainFactor_table {schema aliasName : Option String} {name : String}
    (hs : s.Faces (TableRef.printSchema schema ++ .identifier name :: (TableRef.printAlias aliasName ++ after)) n c)
    (hafter : closesFactor (leading after) = true) :
    Ends (plainFactor rule entry) s after n c fun t' => t'.bare = .table schema name aliasName ⟨0, 0⟩ := by
  have hkind : ∃ first, s.cursor.kind = .identifier first := by
    rw [hs.kind]
    cases schema with
    | none => exact ⟨name, rfl⟩
    | some schema => exact ⟨schema, rfl⟩
  obtain ⟨first, hkind⟩ := hkind
  have hquery : s.cursor.atSubquery = false := by
    rw [Cursor.atSubquery, hkind]
    rfl
  refine .look_bind ?_
  rw [hquery]
  refine .skip_bind_of_not hs ?_ (ends_tableName hs hafter)
  rw [← hs.kind, hkind]
  rfl

theorem ends_plainFactor_enclosed {Q : TableRef → Prop} (hs : s.Faces (.leftParen :: ks) n (c + 1))
    (hks : leading ks ≠ .keyword .select)
    (hentry : ∀ s', s'.Faces ks n c → Ends entry s' (.rightParen :: after) m c Q) :
    Ends (plainFactor rule entry) s after m c Q := by
  refine .look_bind ?_
  rw [hs.not_atSubquery hks]
  refine .skip_bind hs rfl fun s₁ hs₁ => .bind (hentry s₁ hs₁) fun t s₂ hs₂ h => ?_
  exact .expect_bind hs₂.weaken rfl fun _ s₃ hs₃ => .pure hs₃ h

theorem ends_whenKeyword {w : Keyword} {p : Parser Unit} (hs : s.Faces after n c) (hk : leading after ≠ .keyword w) :
    Ends (do if ← skipKeyword w then p) s after n c fun _ => True :=
  .skipKeyword_bind_of_not hs hk (.pure hs trivial)

/-- No dialect has a suffix in front of what stands behind a factor. -/
theorem ends_factorOver {Q : TableRef → Prop} (honly : s.cursor.kind ≠ .keyword .only)
    (hafter : closesFactor (leading after) = true) (h : Ends (plainFactor rule entry) s after m c Q) :
    Ends (factorOver d rule entry) s after m c Q := by
  cases d with
  | generic | sqlServer => exact h
  | oracle =>
    have hnot : ∀ {w : Keyword}, closesFactor (.keyword w) = false → leading after ≠ .keyword w :=
      ne_of_closesFactor hafter
    have hsuffixed : Ends (suffixedFactor rule entry) s after m c Q := by
      refine .bind h fun t s₁ hs₁ ht => .bind (ends_whenKeyword hs₁ (hnot rfl)) fun _ s₂ hs₂ _ => ?_
      refine .bind (ends_whenKeyword hs₂ (hnot rfl)) fun _ s₃ hs₃ _ => ?_
      exact .bind (ends_whenKeyword hs₃ (hnot rfl)) fun _ s₄ hs₄ _ => .pure hs₄ ht
    have hpivoted : Ends (pivotedFactor rule entry) s after m c Q := by
      refine .bind hsuffixed fun t s₁ hs₁ ht => .bind (P := fun _ => True) ?_ fun _ s₂ hs₂ _ => .pure hs₂ ht
      exact .skipKeyword_bind_of_not hs₁ (hnot rfl) (ends_whenKeyword hs₁ (hnot rfl))
    have hunguarded : Ends (unguardedFactor rule entry) s after m c Q := by
      refine .behind (skipKeyword_of_false (Bool.eq_false_iff.2 fun hat => honly ?_)) hpivoted
      exact Cursor.kind_of_atKeyword hat
    show Ends (oracleFactor rule entry) s after m c Q
    rw [oracleFactor_eq]
    refine .bind hunguarded fun t s₁ hs₁ ht => .bind (P := fun _ => True) ?_ fun _ s₂ hs₂ _ => .pure hs₂ ht
    have hat : ∀ {w : Keyword}, closesFactor (.keyword w) = false → s₁.cursor.atKeyword w = false := fun hw =>
      Bool.eq_false_iff.2 fun hat => hnot hw (hs₁.kind.symm.trans (Cursor.kind_of_atKeyword hat))
    refine .look_bind ?_
    rw [hat rfl, Bool.false_and]
    refine .look_bind ?_
    rw [hat rfl, Bool.false_and]
    exact .pure hs₁ trivial

/-! ## Joins -/

/-- Behind its first keyword the name of a join with a side may have another one that means nothing. -/
theorem ends_joinOf {w : Keyword} {kind : JoinKind} {full : Bool} (houter : skipOuter kind = do let _ ← skipKeyword .outer)
    (hs : s.Faces (.keyword w :: (marking .outer full ++ .keyword .join :: after)) n (c + 1)) :
    Ends (joinOf kind) s after n c (· = some kind) := by
  refine .advance_bind hs fun s₁ hs₁ => ?_
  have hskip : Ends (skipOuter kind) s₁ (.keyword .join :: after) n c fun _ => True := by
    rw [houter]
    exact .marking_bind hs₁ nofun fun s₂ hs₂ => .pure hs₂ trivial
  exact .bind hskip fun _ s₂ hs₂ _ => .expectKeyword_bind hs₂.weaken fun _ s₃ hs₃ => .pure hs₃ rfl

theorem ends_joinOf_bare {w : Keyword} {kind : JoinKind} (hbare : skipOuter kind = pure ())
    (hs : s.Faces (.keyword w :: .keyword .join :: after) n (c + 1)) : Ends (joinOf kind) s after n c (· = some kind) := by
  refine .advance_bind hs fun s₁ hs₁ => ?_
  rw [hbare, pure_bind]
  exact .expectKeyword_bind hs₁.weaken fun _ s₂ hs₂ => .pure hs₂ rfl

theorem ends_joinKind {full : Bool} {kind : JoinKind} (hs : s.Faces (kind.words full ++ after) n c) :
    Ends joinKind s after n c (· = some kind) := by
  have hkeyword : ∀ {w : Keyword}, leading (kind.words full ++ after) = .keyword w → s.cursor.keyword? = some w :=
    fun hw => Cursor.keyword?_of_kind (hs.kind.trans hw)
  refine .look_bind ?_
  cases kind with
  | inner =>
    cases full with
    | false =>
      rw [hkeyword rfl]
      exact .advance_bind hs.weaken fun s₁ hs₁ => .pure hs₁ rfl
    | true =>
      rw [hkeyword rfl]
      exact ends_joinOf_bare rfl hs.weaken
  | cross =>
    rw [hkeyword rfl]
    exact ends_joinOf_bare rfl hs.weaken
  | left | right | full =>
    rw [JoinKind.words, List.cons_append, List.append_assoc] at hs
    rw [hkeyword rfl]
    exact ends_joinOf rfl hs.weaken

theorem ends_joinKind_of_none (hs : s.Faces after n c) (hafter : (leading after).keyword? = none) :
    Ends joinKind s after n c (· = none) := by
  refine .look_bind ?_
  rw [show s.cursor.keyword? = none from (congrArg Kind.keyword? hs.kind).trans hafter]
  exact .pure hs rfl

theorem ends_names {names : List String} (hne : names ≠ []) :
    ∀ {rounds s}, names.length ≤ rounds → State.Faces s (TableRef.printColumns names ++ .rightParen :: after) n c →
      Ends (separated expectName rounds) s (.rightParen :: after) n c (· = names) := by
  induction names with
  | nil => exact absurd rfl hne
  | cons name names ih =>
    intro rounds s hrounds hs
    obtain ⟨rounds, rfl⟩ := Nat.exists_eq_succ_of_ne_zero (n := rounds) (by rintro rfl; cases hrounds)
    cases names with
    | nil =>
      refine .expectName_bind hs.weaken fun s₁ hs₁ => .skip_bind_of_not hs₁ rfl ?_
      exact .pure hs₁ rfl
    | cons name' names =>
      rw [TableRef.printColumns, List.map_cons, List.map_cons, commas_cons_cons, List.append_assoc] at hs
      refine .expectName_bind hs.weaken fun s₁ hs₁ => .skip_bind hs₁.weaken rfl fun s₂ hs₂ => ?_
      refine .bind (ih (List.cons_ne_nil _ _) (Nat.le_of_succ_le_succ hrounds) hs₂) fun names' s₃ hs₃ h => ?_
      exact .pure hs₃ (congrArg (name :: ·) h)

theorem ends_expression {e : Expr} (hplain : e.Plain) (hs : s.Faces (e.print ++ after) n c)
    (hcounts : Leaf.Counts n e.leaves m) (hafter : Halts 0 after) :
    Ends (expression rule) s after m c fun e' => e'.bare = e.bare := by
  have hfront : s.Faces (e.print ++ after) n ((e.print ++ after).length + 1) := { hs with fits := Nat.lt_succ_self _ }
  have hresumed := resumes rule hplain hfront hcounts Expr.withstands_zero (hafter.below (Nat.zero_le _))
  obtain ⟨e', s', hrun, hs', he⟩ := hresumed.ends hafter
  have hfits : after.length < c := by
    have hlength := hs.fits
    rw [List.length_append] at hlength
    omega
  refine ⟨e', s', ?_, { hs' with fits := hfits }, he⟩
  show expressionAt rule (s.cursor.rest.length + 1) 0 s = _
  rw [hs.rest, hrun]

theorem ends_joinedBy {kind : JoinKind} {condition : Option Expr} {columns : List String}
    (hby : JoinedBy kind condition columns) (hs : s.Faces (TableRef.printBy condition columns ++ after) n c)
    (hcounts : Leaf.Counts n (condition.toList.flatMap Expr.leaves) m) (hafter : closesEntry (leading after) = true) :
    Ends (joinedBy rule kind) s after m c fun by' => by'.1.map Expr.bare = condition.map Expr.bare ∧ by'.2 = columns := by
  cases hby with
  | nothing =>
    obtain rfl := hcounts.eq_of_none rfl
    exact .pure hs ⟨rfl, rfl⟩
  | condition hkind plain =>
    rw [Option.toList_some, List.flatMap_singleton] at hcounts
    cases kind with
    | cross => exact absurd rfl hkind
    | inner | left | right | full =>
      refine .skipKeyword_bind hs.weaken fun s₁ hs₁ => ?_
      refine .bind (ends_expression plain hs₁ hcounts (halts_of_closesEntry hafter)) fun e' s₂ hs₂ h => .pure hs₂ ?_
      exact ⟨congrArg some h, rfl⟩
  | columns hkind hne =>
    obtain rfl := hcounts.eq_of_none rfl
    obtain ⟨name, names, rfl⟩ := List.exists_cons_of_ne_nil hne
    rw [TableRef.printBy, List.cons_append, List.cons_append, List.append_assoc] at hs
    have hword : Kind.keyword .using ≠ .keyword .on := by decide
    cases kind with
    | cross => exact absurd rfl hkind
    | inner | left | right | full =>
      refine .skipKeyword_bind_of_not hs hword (.skipKeyword_bind hs.weaken fun s₁ hs₁ => ?_)
      refine .expect_bind hs₁.weaken rfl fun _ s₂ hs₂ => .bind (.look_bind (ends_names hne ?_ hs₂)) fun names' s₃ hs₃ h => ?_
      · have hlength := length_le_commas ((name :: names).map fun name => [Kind.identifier name])
        rw [List.length_map] at hlength
        rw [hs₂.rest, List.length_append, TableRef.printColumns]
        simp only [List.length_append, List.length_cons] at hlength ⊢
        omega
      · exact .expect_bind hs₃.weaken rfl fun _ s₄ hs₄ => .pure hs₄ ⟨rfl, h⟩

theorem ends_hintBehind (hs : s.Faces after n c) (hafter : leading after ≠ .keyword .with) (left : TableRef) :
    Ends (hintBehind d left) s after n c fun _ => True := by
  cases d with
  | generic | oracle => exact .pure hs trivial
  | sqlServer =>
    show Ends (if endsWithFactor left then skipHint else pure ()) s after n c fun _ => True
    by_cases hleft : endsWithFactor left = true
    · rw [if_pos hleft]
      exact ends_whenKeyword hs hafter
    · rw [if_neg hleft]
      exact .pure hs trivial

/-! ## Entries -/

/-- The parser of an entry has come to where it looks for the next join, with an entry on the left. -/
def ResumedJoins (d : Dialect) (rule : Rule) (c : Nat) (s : State) (after : List Kind) (m : Nat) (t : TableRef) : Prop :=
  ∃ t' s' rounds, tableReferenceAt d rule (c + 1) s =
      joinsOver d rule (factorOver d rule (tableReferenceAt d rule c)) rounds t' s' ∧
    s'.Faces after m (c + 1) ∧ after.length ≤ rounds ∧ t'.bare = t.bare

namespace ResumedJoins

variable {t left right : TableRef}

theorem of_factor (h : Ends (factorOver d rule (tableReferenceAt d rule c)) s after m (c + 1) fun t' => t'.bare = t.bare) :
    ResumedJoins d rule c s after m t := by
  obtain ⟨t', s', hrun, hs', ht⟩ := h
  refine ⟨t', s', after.length, ?_, hs', Nat.le_refl _, ht⟩
  rw [← hs'.rest]
  exact bind_of_ok hrun _

/-- One more join, with its right side and what it is by. -/
theorem extend {full : Bool} {kind : JoinKind} {condition : Option Expr} {columns : List String} {k : Nat}
    (h : ResumedJoins d rule c s (kind.words full ++ ks) n left) (hlength : after.length ≤ ks.length)
    (hright : ∀ s', s'.Faces ks n (c + 1) → Ends (factorOver d rule (tableReferenceAt d rule c)) s'
      (TableRef.printBy condition columns ++ after) k (c + 1) fun right' => right'.bare = right.bare)
    (hby : JoinedBy kind condition columns) (hcounts : Leaf.Counts k (condition.toList.flatMap Expr.leaves) m)
    (hafter : closesEntry (leading after) = true) :
    ResumedJoins d rule c s after m (.join kind left right condition columns) := by
  obtain ⟨left', s₁, rounds, hrun, hs₁, hrounds, hleft⟩ := h
  -- There are as many rounds as tokens, and the keywords of the join are some of them.
  have hpos : (kind.words full).length ≠ 0 := by cases kind <;> cases full <;> exact nofun
  rw [List.length_append] at hrounds
  obtain ⟨rounds, rfl⟩ := Nat.exists_eq_succ_of_ne_zero (n := rounds) (by omega)
  have hwith : leading (kind.words full ++ ks) ≠ .keyword .with :=
    ne_of_closesFactor (closesFactor_of_closesEntry (closesEntry_words full kind ks)) rfl
  obtain ⟨_, s₂, hhint, hs₂, -⟩ := ends_hintBehind (d := d) hs₁ hwith left'
  have hnext : Ends (nextJoin rule (factorOver d rule (tableReferenceAt d rule c)) left') s₂ after m (c + 1)
      fun joined => ∃ t', joined = some t' ∧ t'.bare = (TableRef.join kind left right condition columns).bare := by
    refine .bind (ends_joinKind hs₂) fun found s₃ hs₃ hfound => ?_
    rw [hfound]
    refine .bind (hright s₃ hs₃) fun right' s₄ hs₄ h => .bind (ends_joinedBy hby hs₄ hcounts hafter) fun by' s₅ hs₅ h' => ?_
    refine .pure hs₅ ⟨_, rfl, ?_⟩
    rw [TableRef.bare, TableRef.bare, hleft, h, h'.1, h'.2]
  obtain ⟨_, s₃, hjoin, hs₃, t', rfl, ht⟩ := hnext
  refine ⟨t', s₃, rounds, ?_, hs₃, by omega, ht⟩
  rw [hrun, joinsOver, bind_of_ok hhint, bind_of_ok hjoin]

theorem ends (h : ResumedJoins d rule c s after m t) (hafter : (leading after).keyword? = none) :
    Ends (tableReferenceAt d rule (c + 1)) s after m (c + 1) fun t' => t'.bare = t.bare := by
  obtain ⟨t', s₁, rounds, hrun, hs₁, -, ht⟩ := h
  cases rounds with
  | zero => exact ⟨t', s₁, hrun, hs₁, ht⟩
  | succ rounds =>
    have hwith : leading after ≠ .keyword .with := fun h => by rw [h] at hafter; cases hafter
    obtain ⟨_, s₂, hhint, hs₂, -⟩ := ends_hintBehind (d := d) hs₁ hwith t'
    obtain ⟨_, s₃, hkind, hs₃, rfl⟩ := ends_joinKind_of_none hs₂ hafter
    have hjoin : nextJoin rule (factorOver d rule (tableReferenceAt d rule c)) t' s₂ = .ok none s₃ := bind_of_ok hkind _
    refine ⟨t', s₃, ?_, hs₃, ht⟩
    rw [hrun, joinsOver, bind_of_ok hhint, bind_of_ok hjoin]
    rfl

end ResumedJoins

/-- An entry is read up to the joins that follow it. -/
def ResumesJoins (d : Dialect) (rule : Rule) (full : Bool) (t : TableRef) : Prop :=
  ∀ ⦃c s after n m⦄, State.Faces s (t.print full ++ after) n (c + 1) → Leaf.Counts n t.leaves m →
    closesEntry (leading after) = true → ResumedJoins d rule c s after m t

section
variable {full : Bool} {t : TableRef}

/-- An entry begins like an operand. -/
theorem begins_printEntry (t : TableRef) (ks : List Kind) : Expr.begins (leading (t.print full ++ ks)) = true := by
  induction t generalizing ks with
  | table schema name aliasName span => cases schema <;> rfl
  | join kind left right condition columns ihleft ihright =>
    rw [TableRef.print, List.append_assoc]
    exact ihleft _

theorem ends_factor_table (full : Bool) {schema aliasName : Option String} {name : String} {span : Span}
    (hs : s.Faces ((TableRef.table schema name aliasName span).print full ++ after) n c)
    (hafter : closesFactor (leading after) = true) :
    Ends (factorOver d rule entry) s after n c fun t' => t'.bare = (TableRef.table schema name aliasName span).bare := by
  apply ends_factorOver ?_ hafter
  · rw [TableRef.print, List.append_assoc, List.cons_append] at hs
    exact ends_plainFactor_table hs hafter
  · rw [hs.kind]
    exact ne_of_begins (begins_printEntry _ after) rfl

/-- A factor that is a join in parentheses. -/
theorem ends_factor_enclosed (ht : ResumesJoins d rule full t)
    (hs : s.Faces (.leftParen :: (t.print full ++ .rightParen :: after)) n (c + 1)) (hcounts : Leaf.Counts n t.leaves m)
    (hafter : closesFactor (leading after) = true) :
    Ends (factorOver d rule (tableReferenceAt d rule c)) s after m (c + 1) fun t' => t'.bare = t.bare := by
  apply ends_factorOver ?_ hafter
  · have hentry : ∀ s', s'.Faces (t.print full ++ .rightParen :: after) n c →
        Ends (tableReferenceAt d rule c) s' (.rightParen :: after) m c fun t' => t'.bare = t.bare := by
      intro s' hs'
      cases c with
      | zero => exact absurd hs'.fits (Nat.not_lt_zero _)
      | succ c => exact (ht hs' hcounts rfl).ends rfl
    exact (ends_plainFactor_enclosed hs (ne_of_begins (begins_printEntry t _) rfl) hentry).weaken
  · rw [hs.kind]
    exact nofun

theorem ends_right (ht : ResumesJoins d rule full t)
    (hs : s.Faces (TableRef.bracketed t (t.print full) ++ after) n (c + 1)) (hcounts : Leaf.Counts n t.leaves m)
    (hafter : closesFactor (leading after) = true) :
    Ends (factorOver d rule (tableReferenceAt d rule c)) s after m (c + 1) fun t' => t'.bare = t.bare := by
  cases t with
  | table schema name aliasName span =>
    obtain rfl := hcounts.eq_of_none rfl
    exact ends_factor_table full hs hafter
  | join kind left right condition columns =>
    rw [TableRef.bracketed, List.cons_append, List.append_assoc] at hs
    exact ends_factor_enclosed ht hs hcounts hafter

/-- **What is printed is read back**, up to the joins that follow it. -/
theorem resumesJoins (d : Dialect) (rule : Rule) (full : Bool) : t.Plain → ResumesJoins d rule full t := by
  induction t with
  | table schema name aliasName span =>
    intro _ c s after n m hs hcounts hafter
    obtain rfl := hcounts.eq_of_none rfl
    exact .of_factor (ends_factor_table full hs (closesFactor_of_closesEntry hafter))
  | join kind left right condition columns ihleft ihright =>
    intro h c s after n m hs hcounts hafter
    obtain ⟨hleft, hright, hby⟩ := h
    obtain ⟨k, hfirst, hrest⟩ := hcounts.split
    obtain ⟨k', hsecond, hthird⟩ := hrest.split
    simp only [TableRef.print, List.append_assoc] at hs
    have hfront := ihleft hleft hs hfirst (closesEntry_words full kind _)
    refine hfront.extend ?_ (fun s' hs' => ends_right (ihright hright) hs' hsecond ?_) hby hthird hafter
    · simp only [List.length_append]
      omega
    · exact closesFactor_printBy hby hafter

/-! ## Texts -/

/-- **The text of an entry is read back.**  In every dialect, the text of an entry whose parameters are numbered in the order
in which they are written is read to its end, as that entry but for places and the parentheses in its conditions. -/
theorem tableReference_text (d : Dialect) (rule : Rule) {q : Token.Quote} (hq : q ≠ .single) (full : Bool)
    (hplain : t.Plain) (hordinals : ∃ m, t.leaves.filterMap Leaf.ordinal? = List.range m) :
    ∃ t' s', tableReference d rule (State.ofSource (t.text q full)) = .ok t' s' ∧ s'.cursor.kind = .eof ∧
      t'.bare = t.bare := by
  obtain ⟨m, hordinals⟩ := hordinals
  have hcounts : Leaf.Counts 0 t.leaves m := ⟨Nat.zero_le m, by rw [hordinals, List.range_eq_range', Nat.sub_zero]⟩
  have hs := State.faces_ofSource (hplain.kinds_text hq full)
  have hfront : (State.ofSource (t.text q full)).Faces (t.print full ++ []) 0 ((t.print full).length + 1) := by
    rwa [List.append_nil]
  obtain ⟨t', s', hrun, hs', ht⟩ := (resumesJoins d rule full hplain hfront hcounts rfl).ends rfl
  refine ⟨t', s', ?_, hs'.kind, ht⟩
  show tableReferenceAt d rule ((State.ofSource (t.text q full)).cursor.rest.length + 1) _ = _
  rw [hs.rest, hrun]

/-- A join of a table with a join by columns, by a condition with a parameter, and a cross join behind it. -/
def printedEntry : TableRef :=
  .join .cross
    (.join .left (.table none "order" (some "o") ⟨0, 0⟩)
      (.join .inner (.table (some "s") "item" none ⟨0, 0⟩) (.table none "unit" (some "u") ⟨0, 0⟩) none ["id", "day"])
      (some (.binary .eq (.column (some "o") "id" ⟨0, 0⟩) (.placeholder 0 ⟨0, 0⟩))) [])
    (.table none "city" none ⟨0, 0⟩) none []

theorem tableReference_text_printedEntry : printedEntry.text .bracket true =
      "[order] AS [o] LEFT OUTER JOIN ( [s] . [item] INNER JOIN [unit] AS [u] USING ( [id] , [day] ) ) " ++
        "ON [o] . [id] = ? CROSS JOIN [city]" ∧
    ∃ t' s', tableReference .oracle .empty (State.ofSource (printedEntry.text .bracket true)) = .ok t' s' ∧
      s'.cursor.kind = .eof ∧ t'.bare = printedEntry.bare := by
  have hcondition : (Expr.binary .eq (.column (some "o") "id" ⟨0, 0⟩) (.placeholder 0 ⟨0, 0⟩)).Plain := by
    simp [Expr.Plain, Expr.nodes_eq, Expr.children, Expr.Printable]
  have hplain : printedEntry.Plain :=
    ⟨⟨trivial, ⟨trivial, trivial, .columns (by decide) (by decide)⟩, .condition (by decide) hcondition⟩, trivial, .nothing⟩
  have hleaves : printedEntry.leaves = [.table none "order" ⟨0, 0⟩, .table (some "s") "item" ⟨0, 0⟩,
      .table none "unit" ⟨0, 0⟩, .column (some "o") "id" ⟨0, 0⟩, .placeholder 0 ⟨0, 0⟩, .table none "city" ⟨0, 0⟩] := by
    simp [printedEntry, TableRef.leaves]
  exact ⟨by decide +kernel, tableReference_text .oracle .empty (by decide) true hplain ⟨1, by rw [hleaves]; rfl⟩⟩

end

end SelectRouting.Grammar
