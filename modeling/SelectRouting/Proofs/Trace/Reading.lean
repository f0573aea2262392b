import SelectRouting.Proofs.Trace.Step
/-!
# Parsers that read leaves

Most parsers return all that they have read, so the leaves of their value are those of their run, in the same order
(`Reads`); a parser that reads none is silent.  A clause puts what it has read into the statement and changes nothing
else (`Fills`).  Main statements: both go through the loop over items with commas between them
(`Reads.commaSeparated`, `Fills.eachSeparated`).
-/
namespace SelectRouting.Grammar

section
variable {d : Dialect} {rule : Rule} {m : Mode} {α β : Type} {before : List Leaf}

/-! ## Reading -/

/-- Behind some leaves, a parser reads on from a state to the leaves of its value. -/
def ReadsAt (d : Dialect) (rule : Rule) (m : Mode) (s : State) (before : List Leaf) (p : Parser α)
    (f : α → List Leaf) : Prop :=
  Traced d rule m s p fun a es _ => before ++ Event.leaves es = f a

/-- From every state. -/
def Reads (d : Dialect) (rule : Rule) (m : Mode) (before : List Leaf) (p : Parser α) (f : α → List Leaf) : Prop :=
  ∀ s, ReadsAt d rule m s before p f

/-- A parser that reads no leaf. -/
abbrev Silent (d : Dialect) (rule : Rule) (m : Mode) (p : Parser α) : Prop :=
  Reads d rule m [] p fun _ => []

theorem ReadsAt.advance_bind {s : State} {p : Parser α} {f : α → List Leaf} (hk : s.cursor.kind.Ordinary)
    (hp : Reads d rule m before p f) : ReadsAt d rule m s before (advance >>= fun _ => p) f :=
  Traced.advance_bind hk (hp s.advanced)

namespace Reads

variable {p : Parser α} {f : α → List Leaf} {g : α → Parser β} {h : β → List Leaf}

theorem pure {a : α} (hf : before = f a) : Reads d rule m before (Pure.pure a) f := by
  refine fun s => .pure ?_
  rw [Event.leaves_nil, List.append_nil, hf]

theorem bind (hp : Reads d rule m before p f) (hg : ∀ a, Reads d rule m (f a) (g a) h) :
    Reads d rule m before (p >>= g) h := by
  refine fun s => (hp s).bind fun a es s' hes => (hg a s').mono fun b es' _ hes' => ?_
  rw [Event.leaves_append, ← List.append_assoc, hes, hes']

theorem frame (hp : Reads d rule m [] p f) : Reads d rule m before p fun a => before ++ f a :=
  fun s => (hp s).mono fun _ _ _ hes => congrArg (before ++ ·) hes

/-- What is read next comes behind what was read before. -/
theorem andThen (hp : Reads d rule m [] p f) (hg : ∀ a, Reads d rule m (before ++ f a) (g a) h) :
    Reads d rule m before (p >>= g) h :=
  hp.frame.bind hg

theorem silent_bind (hp : Silent d rule m p) (hg : ∀ a, Reads d rule m before (g a) h) :
    Reads d rule m before (p >>= g) h :=
  hp.andThen fun a => (List.append_nil before).symm ▸ hg a

theorem look_bind {look? : Cursor → α} (hg : ∀ a, Reads d rule m before (g a) h) :
    Reads d rule m before (look look? >>= g) h :=
  fun s => .look_bind (hg _ s)

/-- Either way of a test that reads nothing. -/
theorem branch {test : Parser Bool} {x y : Parser β} (ht : Silent d rule m test) (hx : Reads d rule m before x h)
    (hy : Reads d rule m before y h) : Reads d rule m before (test >>= fun b => if b then x else y) h := by
  refine silent_bind ht fun b => ?_
  cases b with
  | true => exact hx
  | false => exact hy

theorem unexpected {expected : String} : Reads d rule m before (Grammar.unexpected expected) h :=
  fun _ => .unexpected

theorem unsupported {construct : String} : Reads d rule m before (Grammar.unsupported construct) h :=
  fun _ => .unsupported

end Reads

/-! ## Parsers without leaves -/

theorem silent_look {f : Cursor → α} : Silent d rule m (look f) :=
  fun _ _ => ⟨[], .refl rfl rfl, by simp, by simp, rfl⟩

theorem silent_skip {k : Token.Kind} (hk : k.Ordinary) : Silent d rule m (skip k) := by
  intro s
  rw [← bind_pure (skip k)]
  exact .skip_bind hk (fun _ => .pure rfl) (.pure rfl)

theorem silent_skipKeyword {k : Keyword} : Silent d rule m (skipKeyword k) := by
  intro s
  rw [← bind_pure (skipKeyword k)]
  exact .skipKeyword_bind (fun _ => .pure rfl) fun _ => .pure rfl

theorem silent_skipAny {ks : List Keyword} : Silent d rule m (skipAny ks) := by
  intro s
  rw [← bind_pure (skipAny ks)]
  exact .skipAny_bind (fun _ => .pure rfl) fun _ => .pure rfl

theorem silent_expect {k : Token.Kind} (hk : k.Ordinary) : Silent d rule m (expect k) := by
  intro s
  rw [← bind_pure (expect k)]
  exact .expect_bind hk fun _ => .pure rfl

theorem silent_expectKeyword {k : Keyword} : Silent d rule m (expectKeyword k) := by
  intro s
  rw [← bind_pure (expectKeyword k)]
  exact .expectKeyword_bind fun _ => .pure rfl

theorem silent_expectName : Silent d rule m expectName := by
  intro s
  rw [← bind_pure expectName]
  exact .expectName_bind fun _ _ => .pure rfl

/-! ## Clauses that are skipped -/

section
variable {k : Keyword} {p : Parser α} {q : Parser β} (hk : k ∈ d.skippedClauses)
include hk

theorem silent_skipClause {p q : Parser α} (hp : Skims d rule p) (hq : Silent d rule .reading q) :
    Silent d rule .reading (skipKeyword k >>= fun b => if b then p else q) := by
  intro s
  unfold skipKeyword
  rw [skipWhen_bind]
  refine .look_bind ?_
  cases hat : s.cursor.atKeyword k with
  | false => exact hq s
  | true => exact Traced.skip_clause (Cursor.kind_of_atKeyword hat) hk hp

theorem silent_expectClause (hp : Skims d rule p) : Silent d rule .reading (expectKeyword k >>= fun _ => p) := by
  intro s
  unfold expectKeyword skipKeyword
  rw [bind_assoc]
  refine .look_bind ?_
  rw [bind_assoc, skipWhen_bind]
  refine .look_bind ?_
  cases hat : s.cursor.atKeyword k with
  | false => exact Traced.unexpected_bind
  | true => exact Traced.skip_clause (Cursor.kind_of_atKeyword hat) hk hp

/-- A clause behind the keyword that has to stand here. -/
theorem Reads.expectClause_bind {γ : Type} {f : α → Parser γ} {h : γ → List Leaf} (hp : Skims d rule p)
    (hf : ∀ a, Reads d rule .reading before (f a) h) :
    Reads d rule .reading before (expectKeyword k >>= fun _ => p >>= f) h := by
  rw [← bind_assoc]
  exact .silent_bind (silent_expectClause hk hp) hf

end

/-! ## Lists -/

section
variable {item : Parser α} {f : α → List Leaf}

theorem Reads.separated (hi : Reads d rule m [] item f) (rounds : Nat) :
    Reads d rule m [] (separated item rounds) (·.flatMap f) := by
  induction rounds with
  | zero =>
    refine hi.andThen fun a => .pure ?_
    simp
  | succ rounds ih =>
    refine hi.andThen fun a => .branch (silent_skip ⟨nofun, nofun⟩) ?_ (.pure ?_)
    · refine ih.andThen fun as => .pure ?_
      simp
    · simp

theorem Reads.commaSeparated (hi : Reads d rule m [] item f) :
    Reads d rule m [] (commaSeparated item) (·.flatMap f) :=
  .look_bind (hi.separated ·)

end

/-! ## Filling the statement -/

/-- A change of the clauses of a statement. -/
structure Stores (put : Statement → Statement) : Prop where
  clauses : ∀ s, (put s).clauses = put s.clauses
  parameters : ∀ s, (put s).parameters = s.parameters
  edits : ∀ s, (put s).edits = s.edits

/-- A clause: how it changes the other clauses, and the leaves that it reads. -/
def Fills (d : Dialect) (rule : Rule) (p : Parser Unit) (U : Statement → Statement → List Leaf → Prop) : Prop :=
  ∀ s, Traced d rule .storing s p fun _ es s' => U s.statement.clauses s'.statement.clauses (Event.leaves es)

theorem Traced.store {s : State} {put : Statement → Statement} (hput : Stores put) :
    Traced d rule .storing s (modifyStatement put) fun _ es s' =>
      es = [.store] ∧ s' = { s with statement := put s.statement } := by
  intro hs
  refine ⟨[.store], .single ?_, List.forall_mem_singleton.2 rfl, List.forall_mem_singleton.2 trivial, rfl, rfl⟩
  exact
    { tokens := rfl
      sound := trivial
      ordinals := rfl
      parameters := hput.parameters _
      edits := hput.edits _
      clauses := .inl rfl }

theorem Traced.modifyStatement {s : State} {put : Statement → Statement} (hput : Stores put) :
    Traced d rule .storing s (modifyStatement put) fun _ es s' =>
      Event.leaves es = [] ∧ s'.statement.clauses = put s.statement.clauses := by
  refine (Traced.store hput).mono fun _ es s' => ?_
  rintro ⟨rfl, rfl⟩
  exact ⟨rfl, hput.clauses _⟩

namespace Fills

variable {p q : Parser Unit} {U V : Statement → Statement → List Leaf → Prop}

theorem mono (hp : Fills d rule p U) (h : ∀ c c' ls, U c c' ls → V c c' ls) : Fills d rule p V :=
  fun s => (hp s).mono fun _ _ _ => h _ _ _

theorem bind (hp : Fills d rule p U) (hq : Fills d rule q V) :
    Fills d rule (p >>= fun _ => q) fun c c'' ls => ∃ c' ls' ls'', U c c' ls' ∧ V c' c'' ls'' ∧ ls = ls' ++ ls'' := by
  intro s
  refine (hp s).bind fun _ es s' hes => (hq s').mono fun _ es' _ hes' => ?_
  exact ⟨_, _, _, hes, hes', Event.leaves_append es es'⟩

/-- What is read and not stored. -/
theorem of_traced {Q : Unit → List Event → State → Prop} (hp : ∀ s, Traced d rule .reading s p Q) :
    Fills d rule p fun c c' _ => c' = c :=
  fun s => (hp s).storing.mono fun _ _ _ h => h.2

theorem of_silent (hp : Silent d rule .reading p) : Fills d rule p fun c c' ls => c' = c ∧ ls = [] :=
  fun s => (hp s).storing.mono fun _ _ _ h => ⟨h.2, h.1⟩

/-- What is read and then stored. -/
theorem store {p : Parser α} {f : α → List Leaf} {put : α → Statement → Statement} (hp : Reads d rule .reading [] p f)
    (hput : ∀ a, Stores (put a)) : Fills d rule (p >>= fun a => modifyStatement (put a)) fun c c' ls =>
      ∃ a, ls = f a ∧ c' = put a c := by
  intro s
  refine (hp s).storing.bind fun a es s' ⟨hes, hc⟩ => (Traced.modifyStatement (hput a)).mono fun _ es' s'' => ?_
  rintro ⟨hes', hc'⟩
  refine ⟨a, ?_, by rw [hc', hc]⟩
  rw [Event.leaves_append, hes', List.append_nil]
  exact hes

/-- A clause behind its keyword, which may be missing. -/
theorem whenKeyword {k : Keyword} (hp : Fills d rule p U) :
    Fills d rule (skipKeyword k >>= fun b => if b then p else Pure.pure ()) fun c c' ls =>
      U c c' ls ∨ (c' = c ∧ ls = []) := by
  refine fun s => .skipKeyword_bind (fun _ => ?_) fun _ => ?_
  · exact (hp s.advanced).mono fun _ _ _ => .inl
  · exact .pure (.inr ⟨rfl, rfl⟩)

/-- What is stored behind a keyword, if it is there. -/
theorem storeWhenKeyword {k : Keyword} {f : α → List Leaf} {put : α → Statement → Statement}
    (hp : Fills d rule p fun c c' ls => ∃ a, ls = f a ∧ c' = put a c) :
    Fills d rule (skipKeyword k >>= fun b => if b then p else Pure.pure ()) fun c c' ls =>
      ∃ a? : Option α, ls = a?.toList.flatMap f ∧ c' = a?.elim c (put · c) := by
  refine hp.whenKeyword.mono ?_
  rintro c c' ls (⟨a, rfl, rfl⟩ | ⟨rfl, rfl⟩)
  · exact ⟨some a, (List.append_nil _).symm, rfl⟩
  · exact ⟨none, rfl, rfl⟩

/-- The items behind a keyword, of which there are none without it. -/
theorem listWhenKeyword {k : Keyword} {f : α → List Leaf} (put : List α → Statement → Statement)
    (hnil : ∀ c, put [] c = c) (hp : Fills d rule p fun c c' ls => ∃ as, ls = as.flatMap f ∧ c' = put as c) :
    Fills d rule (skipKeyword k >>= fun b => if b then p else Pure.pure ()) fun c c' ls =>
      ∃ as, ls = as.flatMap f ∧ c' = put as c := by
  refine hp.whenKeyword.mono ?_
  rintro c c' ls (h | ⟨rfl, rfl⟩)
  · exact h
  · exact ⟨[], rfl, (hnil c').symm⟩

theorem expectKeyword_bind {k : Keyword} (hp : Fills d rule p U) :
    Fills d rule (expectKeyword k >>= fun _ => p) U :=
  fun s => .expectKeyword_bind fun _ => hp s.advanced

/-- Items one by one, where the changes by two that follow each other are one change of the same kind. -/
theorem repeated {item : Parser Unit} (htrans : ∀ c c' c'' ls ls', U c c' ls → U c' c'' ls' → U c c'' (ls ++ ls'))
    (hi : Fills d rule item U) : Fills d rule (eachSeparated item) U := by
  -- The number of rounds is not known before the state is, so the induction is for all states.
  have hseparated : ∀ rounds s, Traced d rule .storing s (separated item rounds) fun _ es s' =>
      U s.statement.clauses s'.statement.clauses (Event.leaves es) := by
    intro rounds
    induction rounds with
    | zero => exact fun s => (hi s).bind fun _ es s' hes => .pure (by simpa using hes)
    | succ rounds ih =>
      refine fun s => (hi s).bind fun _ es s' hes => .skip_bind ⟨nofun, nofun⟩ (fun _ => ?_) ?_
      · refine (ih s'.advanced).bind fun _ es' s'' hes' => .pure ?_
        simpa [Event.leaf?] using htrans _ _ _ _ _ hes hes'
      · exact .pure (by simpa using hes)
  intro s
  unfold Grammar.eachSeparated commaSeparated
  rw [bind_assoc]
  exact .look_bind ((hseparated _ s).bind fun _ es s' hes => .pure (by simpa using hes))

/-- Items that are stored one by one. -/
theorem eachSeparated {item : Parser Unit} {f : α → List Leaf} (put : List α → Statement → Statement)
    (happend : ∀ as bs c, put bs (put as c) = put (as ++ bs) c)
    (hi : Fills d rule item fun c c' ls => ∃ a, ls = f a ∧ c' = put [a] c) :
    Fills d rule (eachSeparated item) fun c c' ls => ∃ as, ls = as.flatMap f ∧ c' = put as c := by
  refine .repeated ?_ (hi.mono fun c c' ls ⟨a, hls, hc⟩ => ⟨[a], by simp [hls], hc⟩)
  rintro c _ _ _ _ ⟨as, rfl, rfl⟩ ⟨bs, rfl, rfl⟩
  exact ⟨as ++ bs, (List.flatMap_append).symm, happend as bs c⟩

end Fills

end

end SelectRouting.Grammar
