import SelectRouting.Proofs.Likeness.Basic
import SelectRouting.Proofs.Trace.Outcome
/-!
# Steps side by side

The rules for the judgement that two parsers agree: for the four steps that parsers are made of, for sequences, tests and
lists, and for the parsers that every clause is built from.
-/
namespace SelectRouting.Grammar.Likeness

/-- Values that do not matter. -/
abbrev Whatever {α : Type} (_ _ : α) : Prop :=
  True

section
variable {rule rule' : Rule} {C : Likeness rule rule'} {α β : Type} {R : α → α → Prop} {T : β → β → Prop}

theorem Results.mono {R' : α → α → Prop} {r r' : EStateM.Result ParseError State α} (h : C.Results R r r')
    (hR : ∀ a a', R a a' → R' a a') : C.Results R' r r' := by
  cases h with
  | ok value state => exact .ok (hR _ _ value) state
  | error error => exact .error error

namespace Agrees

variable {p p' : Parser α} {f f' : α → Parser β}

/-! ## Sequences -/

theorem mono {R' : α → α → Prop} (h : C.Agrees R p p') (hR : ∀ a a', R a a' → R' a a') : C.Agrees R' p p' :=
  fun s s' hs => (h s s' hs).mono hR

theorem pure {a a' : α} (h : R a a') : C.Agrees R (Pure.pure a) (Pure.pure a') :=
  fun _ _ hs => .ok h hs

theorem bind (hp : C.Agrees R p p') (hf : ∀ a a', R a a' → C.Agrees T (f a) (f' a')) :
    C.Agrees T (p >>= f) (p' >>= f') := by
  intro s s' hs
  have hp := hp s s' hs
  rw [bind_apply, bind_apply]
  generalize p s = r, p' s' = r' at hp
  cases hp with
  | ok value state => exact hf _ _ value _ _ state
  | error error => exact .error error

/-- A parser with the same value in both runs. -/
theorem bind_eq (hp : C.Agrees Eq p p') (hf : ∀ a, C.Agrees T (f a) (f' a)) : C.Agrees T (p >>= f) (p' >>= f') := by
  refine hp.bind fun a a' h => ?_
  subst h
  exact hf a

/-- A parser whose value is not used. -/
theorem andThen (hp : C.Agrees Whatever p p') (hf : ∀ a a', C.Agrees T (f a) (f' a')) :
    C.Agrees T (p >>= f) (p' >>= f') :=
  hp.bind fun a a' _ => hf a a'

/-- Either way of a test. -/
theorem branch {test test' : Parser Bool} {x y x' y' : Parser β} (ht : C.Agrees Eq test test') (hx : C.Agrees T x x')
    (hy : C.Agrees T y y') :
    C.Agrees T (test >>= fun b => if b then x else y) (test' >>= fun b => if b then x' else y') := by
  refine ht.bind_eq fun b => ?_
  cases b with
  | true => exact hx
  | false => exact hy

/-! ## Looking -/

theorem inspect {g : State → α} (hg : ∀ s s', C.States s s' → R (g s) (g s')) :
    C.Agrees R (Grammar.inspect g) (Grammar.inspect g) :=
  fun s s' hs => .ok (hg s s' hs) hs

theorem look {g : Cursor → α} (hg : ∀ c c', C.Cursors c c' → R (g c) (g c')) :
    C.Agrees R (Grammar.look g) (Grammar.look g) :=
  inspect fun s s' hs => hg s.cursor s'.cursor hs.cursor

/-- The current token. -/
theorem current : C.Agrees C.token (Grammar.look (·.current)) (Grammar.look (·.current)) :=
  look fun _ _ hc => hc.current

theorem span : C.Agrees C.Places (Grammar.look (·.span)) (Grammar.look (·.span)) :=
  look fun c c' hc => ⟨c.current, c'.current, hc.current, rfl, rfl⟩

theorem check {k : Token.Kind} : C.Agrees Eq (Grammar.check k) (Grammar.check k) :=
  look fun _ _ hc => alike_eq hc.current k

theorem checkKeyword {k : Keyword} : C.Agrees Eq (Grammar.checkKeyword k) (Grammar.checkKeyword k) :=
  look fun _ _ hc => hc.atKeyword_eq k

theorem atSubquery : C.Agrees Eq (Grammar.look (·.atSubquery)) (Grammar.look (·.atSubquery)) :=
  look fun _ _ hc => hc.atSubquery_eq

theorem keyword? : C.Agrees Eq (Grammar.look (·.keyword?)) (Grammar.look (·.keyword?)) :=
  look fun _ _ hc => hc.keyword?_eq

theorem tokensLeft : C.Agrees Eq Grammar.tokensLeft Grammar.tokensLeft :=
  look fun _ _ hc => hc.rest.length_eq

/-! ## Moving -/

theorem moveCursor {g g' : Cursor → Cursor} (hg : ∀ c c', C.Cursors c c' → C.Cursors (g c) (g' c')) :
    C.Agrees Whatever (Grammar.moveCursor g) (Grammar.moveCursor g') :=
  fun s s' hs => .ok trivial { hs with cursor := hg s.cursor s'.cursor hs.cursor }

theorem advance : C.Agrees Whatever Grammar.advance Grammar.advance :=
  moveCursor fun _ _ hc => hc.advance

theorem skipWhen {test : Cursor → Bool} (ht : ∀ c c', C.Cursors c c' → test c = test c') :
    C.Agrees Eq (Grammar.skipWhen test) (Grammar.skipWhen test) :=
  branch (look ht) (advance.andThen fun _ _ => pure rfl) (pure rfl)

theorem skip {k : Token.Kind} : C.Agrees Eq (Grammar.skip k) (Grammar.skip k) :=
  skipWhen fun _ _ hc => alike_eq hc.current k

theorem skipKeyword {k : Keyword} : C.Agrees Eq (Grammar.skipKeyword k) (Grammar.skipKeyword k) :=
  skipWhen fun _ _ hc => hc.atKeyword_eq k

theorem skipAny {ks : List Keyword} : C.Agrees Eq (Grammar.skipAny ks) (Grammar.skipAny ks) :=
  skipWhen fun _ _ hc => hc.atAny_eq ks

/-- What may stand behind a keyword. -/
theorem whenKeyword {k : Keyword} {x x' : Parser Unit} (hx : C.Agrees Whatever x x') :
    C.Agrees Whatever (Grammar.skipKeyword k >>= fun b => if b then x else Pure.pure ())
      (Grammar.skipKeyword k >>= fun b => if b then x' else Pure.pure ()) :=
  branch skipKeyword hx (pure trivial)

/-! ## Failing -/

theorem fail {cause cause' : ParseError.Cause} {span span' : Span} (hcause : cause.map C.view = cause'.map C.view)
    (hspan : C.Places span span') :
    C.Agrees R (Grammar.fail cause span) (Grammar.fail cause' span') :=
  fun _ _ _ => .error ⟨hcause, hspan⟩

theorem unexpected {expected : String} :
    C.Agrees R (Grammar.unexpected expected) (Grammar.unexpected expected) := by
  refine current.bind fun t u htu => fail ?_ ⟨t, u, htu, rfl, rfl⟩
  exact congrArg (ParseError.Cause.unexpected expected) (C.kind htu)

theorem unsupportedNamed {construct construct' : String} (h : C.view.name construct = C.view.name construct') :
    C.Agrees R (Grammar.unsupported construct) (Grammar.unsupported construct') :=
  span.bind fun _ _ hspan => fail (congrArg ParseError.Cause.unsupported h) hspan

theorem unsupported {construct : String} :
    C.Agrees R (Grammar.unsupported construct) (Grammar.unsupported construct) :=
  unsupportedNamed rfl

/-! ## Demanding -/

theorem expect {k : Token.Kind} : C.Agrees Whatever (Grammar.expect k) (Grammar.expect k) :=
  span.bind fun _ _ _ => branch skip (pure trivial) unexpected

theorem expectKeyword {k : Keyword} : C.Agrees Whatever (Grammar.expectKeyword k) (Grammar.expectKeyword k) :=
  span.bind fun _ _ _ => branch skipKeyword (pure trivial) unexpected

theorem expectName : C.Agrees (Same C.view.name) Grammar.expectName Grammar.expectName := by
  have hname : C.Agrees (Same (Option.map C.view.name)) (Grammar.look (·.name?)) (Grammar.look (·.name?)) :=
    look fun _ _ hc => hc.name?_same
  refine hname.bind fun name? name?' h => ?_
  cases name? with
  | none =>
    rw [Option.map_eq_none_iff.1 h.symm]
    exact unexpected
  | some name =>
    obtain ⟨name', rfl, hsame⟩ := Option.map_eq_some_iff.1 h.symm
    exact advance.andThen fun _ _ => pure hsame.symm

theorem skipRegion : C.Agrees Whatever Grammar.skipRegion Grammar.skipRegion := by
  refine expect.andThen fun opening opening' => ?_
  have hclosing : C.Agrees (Option.Rel C.token) (Grammar.look (·.leaveRegion.1)) (Grammar.look (·.leaveRegion.1)) :=
    look fun _ _ hc => hc.leaveRegion.1
  refine hclosing.bind fun closing closing' h => (moveCursor fun _ _ hc => hc.leaveRegion.2).andThen fun _ _ => ?_
  cases h with
  | none => exact unexpected
  | some htoken => exact pure trivial

/-! ## Filling the statement -/

theorem modifyStatement {put put' : Statement → Statement}
    (h : ∀ s s', C.Statements s s' → C.Statements (put s) (put' s')) :
    C.Agrees Whatever (Grammar.modifyStatement put) (Grammar.modifyStatement put') :=
  fun s s' hs => .ok trivial { hs with statement := h s.statement s'.statement hs.statement }

theorem claimParameter : C.Agrees Eq Grammar.claimParameter Grammar.claimParameter := by
  refine (inspect fun s s' hs => hs.statement.parameters).bind_eq fun ordinal => ?_
  refine (modifyStatement fun s s' hs => ?_).andThen fun _ _ => pure rfl
  exact { hs with parameters := congrArg (· + 1) hs.parameters }

theorem recordTable {name name' : String} {t u : Token} (hname : C.view.name name = C.view.name name')
    (htu : C.token t u) : C.Agrees Whatever (Grammar.recordTable rule name t) (Grammar.recordTable rule' name' u) := by
  intro s s' hs
  have hedits := C.tableEdit htu hname hs.statement.edits
  have hrecord : ∀ (rule : Rule) name t (s : State), Grammar.recordTable rule name t s = .ok ()
      { s with statement := { s.statement with
        edits := if rule.containsTable name then (Edit.table t.span.start t.text).insert s.statement.edits
          else s.statement.edits } } := by
    intro rule name t s
    unfold Grammar.recordTable
    split <;> rfl
  rw [hrecord, hrecord]
  exact .ok trivial { hs with statement := { hs.statement with edits := hedits } }

/-! ## Lists -/

section
variable {γ : Type} {g : α → γ} {item item' : Parser α}

theorem separated (hi : C.Agrees (Same g) item item') (rounds : Nat) :
    C.Agrees (Same (List.map g)) (Grammar.separated item rounds) (Grammar.separated item' rounds) := by
  induction rounds with
  | zero => exact hi.bind fun a a' h => pure (congrArg ([·]) h)
  | succ rounds ih =>
    refine hi.bind fun a a' h => branch skip ?_ (pure (congrArg ([·]) h))
    exact ih.bind fun as as' hs => pure (congrArg₂ List.cons h hs)

theorem commaSeparated (hi : C.Agrees (Same g) item item') :
    C.Agrees (Same (List.map g)) (Grammar.commaSeparated item) (Grammar.commaSeparated item') :=
  tokensLeft.bind_eq fun rounds => hi.separated rounds

theorem eachSeparated {item item' : Parser Unit} (hi : C.Agrees Whatever item item') :
    C.Agrees Whatever (Grammar.eachSeparated item) (Grammar.eachSeparated item') := by
  have hsame : C.Agrees (Same id) item item' := hi.mono fun _ _ _ => rfl
  exact hsame.commaSeparated.bind fun _ _ _ => pure trivial

end

end Agrees

end

end SelectRouting.Grammar.Likeness
