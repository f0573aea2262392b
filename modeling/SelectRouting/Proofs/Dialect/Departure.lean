import SelectRouting.Proofs.Trace.Session
/-!
# Where a dialect departs from the generic one

A dialect has words of its own (`Dialect.ownWords`), and where none of them is ahead its parsers do what the generic
ones do.  Where one of them leads a parser another way, the generic parser fails, or it stops in front of a word that
nothing behind it passes (`Follows`).  What is behind then fails too, or it stops at such a word again (`Leads`), so the
judgement goes through whatever parsers are made of (`Follows.bind`, `Follows.commaSeparated`).
-/
namespace SelectRouting

/-- The words with a meaning of their own in a dialect. -/
def Dialect.ownWords : Dialect → List Keyword
  | generic => []
  | oracle => [.unique, .connectByRoot, .rollup, .cube, .grouping, .only, .sample, .partition, .subpartition, .pivot,
      .unpivot, .versions, .of, .start, .connect, .model, .for]
  | sqlServer => [.top, .rowNumber, .with, .offset, .for, .nulls]

namespace Cursor

variable {c : Cursor} {k : Keyword} {ks ls : List Keyword}

theorem keyword?_of_kind (h : c.kind = .keyword k) : c.keyword? = some k := by
  rw [keyword?, h]
  rfl

theorem atAny_of_kind (h : c.kind = .keyword k) : c.atAny ks = ks.contains k := by
  rw [atAny, keyword?_of_kind h, Option.any_some]

theorem atAny_iff : c.atAny ks = true ↔ ∃ k ∈ ks, c.kind = .keyword k := by
  refine ⟨exists_kind_of_atAny, ?_⟩
  rintro ⟨k, hk, hkind⟩
  rw [atAny_of_kind hkind]
  exact List.contains_iff_mem.2 hk

@[simp] theorem atAny_nil : c.atAny [] = false := by
  unfold atAny
  cases c.keyword? <;> rfl

theorem atAny_cons : c.atAny (k :: ks) = (c.atKeyword k || c.atAny ks) := by
  unfold atAny atKeyword
  cases c.keyword? with
  | none => rfl
  | some w =>
    rw [Option.any_some, Option.any_some, List.contains_cons, Bool.beq_eq_decide_eq]
    simp

theorem atAny_mono (hks : ∀ k ∈ ks, k ∈ ls) (h : c.atAny ks = true) : c.atAny ls = true := by
  obtain ⟨k, hk, hkind⟩ := exists_kind_of_atAny h
  exact atAny_iff.2 ⟨k, hks k hk, hkind⟩

/-- In front of one of some words no other word stands. -/
theorem atKeyword_of_atAny (h : c.atAny ks = true) (hk : k ∉ ks) : c.atKeyword k = false := by
  refine Bool.eq_false_iff.2 fun hat => ?_
  rw [atAny_of_kind (kind_of_atKeyword hat)] at h
  exact hk (List.contains_iff_mem.1 h)

theorem atKeyword_of_atAny_eq_false (h : c.atAny ks = false) (hk : k ∈ ks) : c.atKeyword k = false := by
  refine Bool.eq_false_iff.2 fun hat => ?_
  rw [atAny_of_kind (kind_of_atKeyword hat), List.contains_iff_mem.2 hk] at h
  cases h

theorem atKeyword_iff : c.atKeyword k = true ↔ c.kind = .keyword k := by
  refine ⟨kind_of_atKeyword, fun h => ?_⟩
  rw [atKeyword, keyword?_of_kind h]
  exact decide_eq_true rfl

end Cursor

namespace Grammar

/-- One of some words is the current token or behind it. -/
def State.Ahead (ws : List Keyword) (s : State) : Prop :=
  ∃ t ∈ s.cursor.tokens, ∃ k ∈ ws, t.kind = .keyword k

variable {d : Dialect} {rule : Rule} {ws ks ls ms : List Keyword} {s s' : State} {α β : Type}

theorem State.ahead_of_atAny (h : s.cursor.atAny ws = true) : s.Ahead ws :=
  ⟨s.cursor.current, List.mem_cons_self, Cursor.exists_kind_of_atAny h⟩

theorem State.ahead_of_next {k : Keyword} (h : s.cursor.nextIsKeyword k = true) (hk : k ∈ ws) : s.Ahead ws := by
  have hkeyword : s.cursor.next.kind.keyword? = some k := of_decide_eq_true h
  have hkind : s.cursor.next.kind = .keyword k := by
    unfold Token.Kind.keyword? at hkeyword
    split at hkeyword
    · next hkind => rw [hkind, Option.some.inj hkeyword]
    · cases hkeyword
  refine ⟨s.cursor.next, ?_, k, hk, hkind⟩
  unfold Cursor.next Cursor.tokens
  cases s.cursor.rest with
  | nil => exact List.mem_cons_self
  | cons t ts => exact List.mem_cons_of_mem _ List.mem_cons_self

theorem State.Ahead.mono {vs : List Keyword} (h : s.Ahead vs) (hvs : ∀ k ∈ vs, k ∈ ws) : s.Ahead ws := by
  obtain ⟨t, ht, k, hk, hkind⟩ := h
  exact ⟨t, ht, k, hvs k hk, hkind⟩

/-- What is ahead behind a run was ahead in front of it. -/
theorem State.Ahead.of_run {es : List Event} (h : s'.Ahead ws) (hrun : Run rule s es s') : s.Ahead ws := by
  obtain ⟨t, ht, hk⟩ := h
  refine ⟨t, ?_, hk⟩
  rw [hrun.tokens_eq]
  exact List.mem_append_right _ ht

theorem State.Ahead.of_advanced (h : s.advanced.Ahead ws) (hs : Token.Complete s.cursor.tokens) : s.Ahead ws := by
  obtain ⟨es, hrun⟩ : ∃ es, Run .empty s es s.advanced := Runs.advance s hs
  exact h.of_run hrun

/-! ## From word to word -/

/-- In front of one of some words, a parser fails or stops in front of one of others. -/
def Leads (ks ls : List Keyword) (p : Parser α) : Prop :=
  ∀ s a s', s.cursor.atAny ks = true → p s = .ok a s' → s'.cursor.atAny ls = true

/-- In front of one of some words, a parser fails. -/
abbrev Fails (ks : List Keyword) (p : Parser α) : Prop :=
  Leads ks [] p

theorem ok_of_bind {p : Parser α} {f : α → Parser β} {b : β} {s'' : State} (h : (p >>= f) s = .ok b s'') :
    ∃ a s', p s = .ok a s' ∧ f a s' = .ok b s'' := by
  rw [bind_apply] at h
  cases hp : p s with
  | error e s' =>
    rw [hp] at h
    cases h
  | ok a s' =>
    rw [hp] at h
    exact ⟨a, s', rfl, h⟩

theorem bind_of_ok {p : Parser α} {a : α} (h : p s = .ok a s') (f : α → Parser β) : (p >>= f) s = f a s' := by
  rw [bind_apply, h]

theorem bind_of_error {p : Parser α} {e : ParseError} (h : p s = .error e s') (f : α → Parser β) :
    (p >>= f) s = .error e s' := by
  rw [bind_apply, h]

theorem skipWhen_of_true {test : Cursor → Bool} (h : test s.cursor = true) : skipWhen test s = .ok true s.advanced := by
  unfold skipWhen
  rw [look_bind_apply, h]
  rfl

theorem skipWhen_of_false {test : Cursor → Bool} (h : test s.cursor = false) : skipWhen test s = .ok false s := by
  unfold skipWhen
  rw [look_bind_apply, h]
  rfl

theorem skipKeyword_of_true {k : Keyword} (h : s.cursor.kind = .keyword k) : skipKeyword k s = .ok true s.advanced :=
  skipWhen_of_true (Cursor.atKeyword_iff.2 h)

theorem skipKeyword_of_false {k : Keyword} (h : s.cursor.atKeyword k = false) : skipKeyword k s = .ok false s :=
  skipWhen_of_false h

theorem expectKeyword_of_true {k : Keyword} (h : s.cursor.kind = .keyword k) :
    expectKeyword k s = .ok s.cursor.span s.advanced :=
  bind_of_ok (skipKeyword_of_true h) _

theorem expectKeyword_of_false {k : Keyword} (h : s.cursor.atKeyword k = false) :
    expectKeyword k s = .error ⟨.unexpected k.text s.cursor.kind, s.cursor.span⟩ s :=
  bind_of_ok (skipKeyword_of_false h) _

/-- A clause behind two keywords, of which the first may be missing. -/
def behindWords (k k' : Keyword) (x : Parser Unit) : Parser Unit :=
  skipKeyword k >>= fun b => if b then expectKeyword k' >>= fun _ => x else pure ()

/-- Whether such a clause is missing, broken off or read does not depend on what stands behind the keywords. -/
theorem behindWords_cases (k k' : Keyword) (s : State) :
    (∀ x, behindWords k k' x s = .ok () s) ∨ (∃ e s', ∀ x, behindWords k k' x s = .error e s') ∨
      s.cursor.kind = .keyword k ∧ s.advanced.cursor.kind = .keyword k' ∧
        ∀ x, behindWords k k' x s = x s.advanced.advanced := by
  cases hat : s.cursor.atKeyword k with
  | false => exact .inl fun x => bind_of_ok (skipKeyword_of_false hat) _
  | true =>
    have hkind := Cursor.kind_of_atKeyword hat
    have hpast : ∀ x, behindWords k k' x s = (expectKeyword k' >>= fun _ => x) s.advanced :=
      fun x => bind_of_ok (skipKeyword_of_true hkind) _
    cases hat' : s.advanced.cursor.atKeyword k' with
    | false => exact .inr (.inl ⟨_, _, fun x => (hpast x).trans (bind_of_error (expectKeyword_of_false hat') _)⟩)
    | true =>
      have hkind' := Cursor.kind_of_atKeyword hat'
      exact .inr (.inr ⟨hkind, hkind', fun x => (hpast x).trans (bind_of_ok (expectKeyword_of_true hkind') _)⟩)

namespace Leads

variable {p : Parser α} {f : α → Parser β}

theorem pure {a : α} (hks : ∀ k ∈ ks, k ∈ ls) : Leads ks ls (Pure.pure a) := by
  intro s b s' hs h
  cases h
  exact Cursor.atAny_mono hks hs

/-- Nothing is done. -/
theorem stay {a : α} : Leads ks ks (Pure.pure a) :=
  pure fun _ hk => hk

theorem bind (hp : Leads ks ls p) (hf : ∀ a, Leads ls ms (f a)) : Leads ks ms (p >>= f) := by
  intro s b s'' hs h
  obtain ⟨a, s', ha, hb⟩ := ok_of_bind h
  exact hf a s' b s'' (hp s a s' hs ha) hb

/-- No cursor stands in front of one of no words. -/
theorem nowhere : Leads [] ls p :=
  fun _ _ _ hs => absurd hs (by simp)

/-- A parser that fails in front of some words fails with all that stands behind it. -/
theorem fails_bind (hp : Fails ks p) : Leads ks ls (p >>= f) :=
  .bind hp fun _ => .nowhere

theorem unexpected {expected : String} : Leads ks ls (Grammar.unexpected expected : Parser α) :=
  fun _ _ _ _ h => nomatch h

theorem unsupported {construct : String} : Leads ks ls (Grammar.unsupported construct : Parser α) :=
  fun _ _ _ _ h => nomatch h

theorem look_bind {look? : Cursor → α} (hf : ∀ a, Leads ks ls (f a)) : Leads ks ls (look look? >>= f) :=
  fun s b s' hs h => hf (look? s.cursor) s b s' hs h

/-- A test that none of the words passes. -/
theorem skipWhen_bind {test : Cursor → Bool} {g : Bool → Parser β} (ht : ∀ c, c.atAny ks = true → test c = false)
    (hg : Leads ks ls (g false)) : Leads ks ls (skipWhen test >>= g) := by
  intro s b s' hs h
  rw [bind_of_ok (skipWhen_of_false (ht s.cursor hs))] at h
  exact hg s b s' hs h

theorem skipKeyword_bind {k : Keyword} {g : Bool → Parser β} (hk : k ∉ ks) (hg : Leads ks ls (g false)) :
    Leads ks ls (skipKeyword k >>= g) :=
  skipWhen_bind (fun _ hc => Cursor.atKeyword_of_atAny hc hk) hg

theorem skip_bind {k : Token.Kind} {g : Bool → Parser β} (hk : k.Bare) (hg : Leads ks ls (g false)) :
    Leads ks ls (skip k >>= g) := by
  refine skipWhen_bind (fun c hc => Bool.eq_false_iff.2 fun hat => ?_) hg
  obtain ⟨w, -, hw⟩ := Cursor.exists_kind_of_atAny hc
  rw [← Token.Kind.eq_of_alike hat hk, hw] at hk
  exact hk

theorem expect {k : Token.Kind} (hk : k.Bare) : Leads ks ls (Grammar.expect k) :=
  look_bind fun _ => skip_bind hk unexpected

/-- No reserved word is a name. -/
theorem expectName (hks : ∀ k ∈ ks, k.reserved = true) : Leads ks ls Grammar.expectName := by
  intro s a s' hs h
  obtain ⟨k, hk, hkind⟩ := Cursor.exists_kind_of_atAny hs
  have hname : s.cursor.name? = none := by simp [Cursor.name?, hkind, hks k hk]
  rw [expectName_of_none hname] at h
  cases h

theorem modifyStatement {put : Statement → Statement} : Leads ks ks (Grammar.modifyStatement put) := by
  intro s a s' hs h
  cases h
  exact hs

/-- A clause that may be missing, and does not start with one of the words. -/
theorem whenKeyword {k : Keyword} {x : Parser Unit} (hk : k ∉ ks) :
    Leads ks ks (skipKeyword k >>= fun b => if b then x else Pure.pure ()) :=
  skipKeyword_bind hk stay

end Leads

/-! ## Following -/

theorem Runs.unsupported {construct : String} : Runs rule (Grammar.unsupported construct : Parser α) :=
  fun _ _ => ⟨[], .refl rfl rfl⟩

theorem Runs.store {put : Statement → Statement} (hput : Stores put) : Runs rule (modifyStatement put) :=
  .of_traced (d := .generic) fun _ => Traced.modifyStatement hput

theorem Runs.exists_run {p : Parser α} (hp : Runs rule p) (hs : Token.Complete s.cursor.tokens) {a : α}
    (h : p s = .ok a s') : ∃ es, Run rule s es s' := by
  have hrun := hp s hs
  rwa [State.after, h] at hrun

/-- The parser of a dialect does what the generic one does, unless a word of the dialect is ahead and the generic parser
fails, or stops in front of one of the given words. -/
structure Follows (d : Dialect) (rule : Rule) (ks : List Keyword) (p q : Parser α) : Prop where
  runs : Runs rule p
  same_or : ∀ s, Token.Complete s.cursor.tokens →
    q s = p s ∨ s.Ahead d.ownWords ∧ ∀ a s', p s = .ok a s' → s'.cursor.atAny ks = true

namespace Follows

variable {p q : Parser α} {f g : α → Parser β}

theorem refl (hp : Runs rule p) : Follows d rule ks p p :=
  ⟨hp, fun _ _ => .inl rfl⟩

/-- Where the dialect has departed, what is behind has to lead on to words that are not passed either. -/
theorem bind (hp : Follows d rule ks p q) (hf : ∀ a, Follows d rule ls (f a) (g a)) (hleads : ∀ a, Leads ks ls (f a)) :
    Follows d rule ls (p >>= f) (q >>= g) := by
  refine ⟨hp.runs.bind fun a => (hf a).runs, fun s hs => ?_⟩
  rcases hp.same_or s hs with hsame | ⟨hahead, hstop⟩
  · cases hr : p s with
    | error e s' => exact .inl (by rw [bind_of_error (hsame.trans hr), bind_of_error hr])
    | ok a s' =>
      obtain ⟨es, hrun⟩ := hp.runs.exists_run hs hr
      rw [bind_of_ok hr, bind_of_ok (hsame.trans hr)]
      exact ((hf a).same_or s' (hrun.complete hs)).imp_right fun ⟨hahead, hstop⟩ => ⟨hahead.of_run hrun, hstop⟩
  · refine .inr ⟨hahead, fun b s'' hb => ?_⟩
    obtain ⟨a, s', ha, hb⟩ := ok_of_bind hb
    exact hleads a s' b s'' (hstop a s' ha) hb

/-- A parser that is the same in all dialects, in front of one that is not. -/
theorem before {p : Parser α} (hp : Runs rule p) (hf : ∀ a, Follows d rule ls (f a) (g a)) :
    Follows d rule ls (p >>= f) (p >>= g) :=
  .bind (.refl hp) hf fun _ => .nowhere

/-- Either way of a test. -/
theorem branch {test : Parser Bool} {x y x' y' : Parser β} (ht : Runs rule test) (hx : Follows d rule ks x x')
    (hy : Follows d rule ks y y') :
    Follows d rule ks (test >>= fun b => if b then x else y) (test >>= fun b => if b then x' else y') := by
  refine before ht fun b => ?_
  cases b with
  | true => exact hx
  | false => exact hy

/-- What a dialect puts behind a parser. -/
theorem andThen {r : α → Parser α} (hp : Follows d rule ks p q) (hr : ∀ a, Follows d rule ks (Pure.pure a) (r a)) :
    Follows d rule ks p (q >>= r) := by
  have h := hp.bind hr fun _ => .stay
  rwa [bind_pure] at h

/-- What a dialect puts in front of a parser. -/
theorem skipping (ks : List Keyword) {r : Parser Unit} (hr : Follows d rule ks (Pure.pure ()) r)
    (hp : Follows d rule ls p q) (hleads : Leads ks ls p) : Follows d rule ls p (r >>= fun _ => q) := by
  have h := hr.bind (fun _ => hp) fun _ => hleads
  rwa [pure_bind] at h

/-- A parser that goes another way only in front of some words of the dialect. -/
theorem of_words (ws : List Keyword) (hp : Runs rule p) (hsame : ∀ s, s.cursor.atAny ws = false → q s = p s)
    (hown : ∀ k ∈ ws, k ∈ d.ownWords) (hleads : Leads ws ks p) : Follows d rule ks p q := by
  refine ⟨hp, fun s _ => ?_⟩
  cases hat : s.cursor.atAny ws with
  | false => exact .inl (hsame s hat)
  | true => exact .inr ⟨State.ahead_of_atAny (Cursor.atAny_mono hown hat), fun a s' => hleads s a s' hat⟩

/-- A clause of the dialect alone: it does nothing, unless one of its words stands here. -/
theorem clause (ws : List Keyword) {q : Parser Unit} (hq : ∀ s, s.cursor.atAny ws = false → q s = .ok () s)
    (hown : ∀ k ∈ ws, k ∈ d.ownWords) (hks : ∀ k ∈ ws, k ∈ ks) : Follows d rule ks (Pure.pure ()) q :=
  .of_words ws .pure hq hown (.pure hks)

/-- A clause of the dialect alone that starts with a word. -/
theorem whenKeyword {k : Keyword} {x : Parser Unit} (hown : k ∈ d.ownWords) (hks : k ∈ ks) :
    Follows d rule ks (Pure.pure ()) (skipKeyword k >>= fun b => if b then x else Pure.pure ()) := by
  refine clause [k] (fun s hs => ?_) (List.forall_mem_singleton.2 hown) (List.forall_mem_singleton.2 hks)
  exact bind_of_ok (skipKeyword_of_false (Cursor.atKeyword_of_atAny_eq_false hs List.mem_cons_self)) _

/-! ### Lists -/

theorem separated {item item' : Parser α} (hi : Follows d rule ks item item') (rounds : Nat) :
    Follows d rule ks (separated item rounds) (Grammar.separated item' rounds) := by
  induction rounds with
  | zero => exact .bind hi (fun _ => .refl .pure) fun _ => .stay
  | succ rounds ih =>
    refine .bind hi (fun a => .branch .skipWhen (.bind ih (fun _ => .refl .pure) fun _ => .stay) (.refl .pure)) ?_
    exact fun a => .skip_bind trivial .stay

theorem commaSeparated {item item' : Parser α} (hi : Follows d rule ks item item') :
    Follows d rule ks (commaSeparated item) (Grammar.commaSeparated item') :=
  before .look fun rounds => hi.separated rounds

theorem eachSeparated {item item' : Parser Unit} (hi : Follows d rule ks item item') :
    Follows d rule ks (eachSeparated item) (Grammar.eachSeparated item') :=
  .bind hi.commaSeparated (fun _ => .refl .pure) fun _ => .stay

end Follows

end Grammar

end SelectRouting
