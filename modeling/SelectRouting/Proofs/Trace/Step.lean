import SelectRouting.Grammar.Basic
import SelectRouting.Proofs.Token.Closing
import SelectRouting.Proofs.Trace.Outcome
/-!
# The steps that parsers are made of

What each of them does to the state: passing a token, demanding one, skipping a region, and recording the edit of a
table. A region in parentheses is skipped with all that stands in it (`skims_region`); the clause it belongs to is a
single event of the run (`Traced.skip_clause`).
-/
namespace SelectRouting

/-! ## Kinds of tokens -/

/-- Neither a parameter nor the end of the input. -/
def Token.Kind.Ordinary (k : Kind) : Prop :=
  k ≠ .question ∧ k ≠ .eof

theorem Token.Kind.Ordinary.of_eq {a b : Kind} (h : a = b) (hb : b.Ordinary) : a.Ordinary :=
  h ▸ hb

theorem Token.Kind.Ordinary.of_alike {a b : Kind} (hb : b.Ordinary) (h : a.alike b = true) : a.Ordinary := by
  unfold alike at h
  split at h
  case h_7 => exact of_decide_eq_true h ▸ hb
  all_goals exact ⟨nofun, nofun⟩

/-- A kind without a value. -/
def Token.Kind.Bare : Kind → Prop
  | .integer _ | .float _ | .string _ | .identifier _ | .keyword _ | .error _ => False
  | _ => True

theorem Token.Kind.eq_of_alike {a b : Kind} (h : a.alike b = true) (hb : b.Bare) : a = b := by
  unfold alike at h
  split at h
  case h_7 => exact of_decide_eq_true h
  all_goals exact hb.elim

theorem Token.Kind.ordinary_keyword (k : Keyword) : (keyword k).Ordinary :=
  ⟨nofun, nofun⟩

namespace Cursor

variable {c : Cursor}

theorem tokens_advance (h : Token.Complete c.tokens) (hk : c.kind ≠ .eof) :
    c.tokens = c.current :: c.advance.tokens := by
  obtain ⟨source, t, ts⟩ := c
  rcases h with ⟨ht, -⟩ | ⟨-, h⟩
  · exact absurd ht hk
  · cases ts with
    | nil => exact h.elim
    | cons u us =>
      unfold advance
      split
      · exact absurd ‹_› hk
      · contradiction
      · next heq _ =>
        obtain ⟨rfl, rfl⟩ := List.cons.inj heq
        rfl

theorem length_rest_advance (h : Token.Complete c.tokens) (hk : c.kind ≠ .eof) :
    c.advance.rest.length + 1 = c.rest.length := by
  have hlength := congrArg List.length (tokens_advance h hk)
  exact (Nat.succ.inj hlength).symm

theorem advance_of_eof (hk : c.kind = .eof) : c.advance = c := by
  unfold advance
  rw [hk]

/-- At the end of the input there is nothing behind a cursor. -/
theorem tokens_of_eof (h : Token.Complete c.tokens) (hk : c.kind = .eof) : c.tokens = [c.current] := by
  rcases h with ⟨-, hnil⟩ | ⟨hne, -⟩
  · rw [tokens, hnil]
  · exact absurd hk hne

theorem kind_of_rest_nil (h : Token.Complete c.tokens) (hrest : c.rest = []) : c.kind = .eof := by
  rcases h with ⟨heof, -⟩ | ⟨-, h⟩
  · exact heof
  · rw [hrest] at h
    exact h.elim

theorem complete_advance (h : Token.Complete c.tokens) : Token.Complete c.advance.tokens := by
  by_cases hk : c.kind = .eof
  · rw [advance_of_eof hk]
    exact h
  · rw [tokens_advance h hk] at h
    exact .of_append (a := [c.current]) (List.cons_ne_nil _ _) h

theorem kind_of_atKeyword {k : Keyword} (h : c.atKeyword k = true) : c.kind = .keyword k := by
  have h := of_decide_eq_true h
  unfold keyword? Token.Kind.keyword? at h
  split at h
  · next hk => rw [hk, Option.some.inj h]
  · cases h

theorem exists_kind_of_atAny {ks : List Keyword} (h : c.atAny ks = true) : ∃ k ∈ ks, c.kind = .keyword k := by
  obtain ⟨k, hk, hmem⟩ := (Option.any_eq_true _ _).1 h
  exact ⟨k, List.contains_iff_mem.1 hmem, kind_of_atKeyword (decide_eq_true hk)⟩

theorem ordinary_of_name? {name : String} (h : c.name? = some name) : c.kind.Ordinary := by
  rw [kind]
  rcases Token.name?_eq_some.1 h with hk | ⟨k, hk, -⟩
  · exact hk ▸ ⟨nofun, nofun⟩
  · exact hk ▸ Token.Kind.ordinary_keyword k

end Cursor

namespace Grammar

section
variable {d : Dialect} {rule : Rule} {m : Mode} {s s' : State} {α β : Type}

/-! ## Passing tokens -/

theorem Step.pass (hs : Token.Complete s.cursor.tokens) (hk : s.cursor.kind ≠ .eof) :
    Step rule s (.pass s.cursor.current) s.advanced where
  tokens := Cursor.tokens_advance hs hk
  sound := trivial
  ordinals := rfl
  parameters := rfl
  edits := rfl
  clauses := .inr rfl

theorem Traced.advance (hk : s.cursor.kind.Ordinary) :
    Traced d rule m s advance fun _ es s' => es = [.pass s.cursor.current] ∧ s' = s.advanced := by
  intro hs
  refine ⟨[.pass s.cursor.current], .single (.pass hs hk.2), ?_, ?_, rfl, rfl⟩
  · exact List.forall_mem_singleton.2 (Event.allowed_pass hk.1)
  · exact List.forall_mem_singleton.2 trivial

theorem Traced.advance_bind {f : Unit → Parser α} {Q : α → List Event → State → Prop} (hk : s.cursor.kind.Ordinary)
    (h : Traced d rule m s.advanced (f ()) fun a es => Q a (.pass s.cursor.current :: es)) :
    Traced d rule m s (Grammar.advance >>= f) Q := by
  refine (Traced.advance hk).bind fun _ es s' => ?_
  rintro ⟨rfl, rfl⟩
  exact h

theorem skipWhen_bind (test : Cursor → Bool) (f : Bool → Parser α) : skipWhen test >>= f = look test >>= fun b =>
    if b then advance >>= fun _ => f true else f false := by
  unfold skipWhen
  rw [bind_assoc]
  refine bind_congr fun b => ?_
  cases b with
  | false => rfl
  | true => simp only [if_true, bind_assoc, pure_bind]

/-- Either the test holds and a token is passed, or it fails and nothing is done. -/
theorem Traced.skipWhen_bind {test : Cursor → Bool} {f : Bool → Parser α} {Q : α → List Event → State → Prop}
    (hk : test s.cursor = true → s.cursor.kind.Ordinary)
    (htrue : test s.cursor = true →
      Traced d rule m s.advanced (f true) fun a es => Q a (.pass s.cursor.current :: es))
    (hfalse : test s.cursor = false → Traced d rule m s (f false) Q) :
    Traced d rule m s (skipWhen test >>= f) Q := by
  rw [Grammar.skipWhen_bind]
  refine look_bind ?_
  cases ht : test s.cursor with
  | false => exact hfalse ht
  | true => exact advance_bind (hk ht) (htrue ht)

theorem Traced.skip_bind {k : Token.Kind} {f : Bool → Parser α} {Q : α → List Event → State → Prop} (hk : k.Ordinary)
    (htrue : s.cursor.kind.alike k = true →
      Traced d rule m s.advanced (f true) fun a es => Q a (.pass s.cursor.current :: es))
    (hfalse : Traced d rule m s (f false) Q) : Traced d rule m s (skip k >>= f) Q :=
  skipWhen_bind hk.of_alike htrue fun _ => hfalse

theorem Traced.skipKeyword_bind {k : Keyword} {f : Bool → Parser α} {Q : α → List Event → State → Prop}
    (htrue : s.cursor.kind = .keyword k →
      Traced d rule m s.advanced (f true) fun a es => Q a (.pass s.cursor.current :: es))
    (hfalse : s.cursor.kind ≠ .keyword k → Traced d rule m s (f false) Q) :
    Traced d rule m s (skipKeyword k >>= f) Q := by
  refine skipWhen_bind (fun h => Cursor.kind_of_atKeyword h ▸ Token.Kind.ordinary_keyword k)
    (fun h => htrue (Cursor.kind_of_atKeyword h)) fun h => hfalse fun hk => ?_
  rw [Cursor.atKeyword, Cursor.keyword?, hk] at h
  simp [Token.Kind.keyword?] at h

theorem Traced.skipAny_bind {ks : List Keyword} {f : Bool → Parser α} {Q : α → List Event → State → Prop}
    (htrue : (∃ k ∈ ks, s.cursor.kind = .keyword k) →
      Traced d rule m s.advanced (f true) fun a es => Q a (.pass s.cursor.current :: es))
    (hfalse : s.cursor.atAny ks = false → Traced d rule m s (f false) Q) :
    Traced d rule m s (skipAny ks >>= f) Q := by
  refine skipWhen_bind (fun h => ?_) (fun h => htrue (Cursor.exists_kind_of_atAny h)) hfalse
  obtain ⟨k, -, hk⟩ := Cursor.exists_kind_of_atAny h
  exact hk ▸ Token.Kind.ordinary_keyword k

/-! ## Demanding tokens -/

theorem Traced.unexpected_bind {expected : String} {f : α → Parser β} {Q : β → List Event → State → Prop} :
    Traced d rule m s (Grammar.unexpected expected >>= f) Q :=
  (unexpected (Q := fun _ _ _ => False)).bind fun _ _ _ h => h.elim

theorem Traced.expect_bind {k : Token.Kind} {f : Span → Parser α} {Q : α → List Event → State → Prop} (hk : k.Ordinary)
    (h : s.cursor.kind.alike k = true →
      Traced d rule m s.advanced (f s.cursor.span) fun a es => Q a (.pass s.cursor.current :: es)) :
    Traced d rule m s (expect k >>= f) Q := by
  unfold expect
  rw [bind_assoc]
  refine look_bind ?_
  rw [bind_assoc]
  exact skip_bind hk h unexpected_bind

theorem Traced.expectKeyword_bind {k : Keyword} {f : Span → Parser α} {Q : α → List Event → State → Prop}
    (h : s.cursor.kind = .keyword k →
      Traced d rule m s.advanced (f s.cursor.span) fun a es => Q a (.pass s.cursor.current :: es)) :
    Traced d rule m s (expectKeyword k >>= f) Q := by
  unfold expectKeyword
  rw [bind_assoc]
  refine look_bind ?_
  rw [bind_assoc]
  exact skipKeyword_bind h fun _ => unexpected_bind

theorem look_bind_apply (f : Cursor → α) (g : α → Parser β) (s : State) : (look f >>= g) s = g (f s.cursor) s :=
  rfl

theorem unsupportedIf_of_false {test : Cursor → Bool} {construct : String} (p : Parser α)
    (h : test s.cursor = false) : (look test >>= fun b => if b then unsupported construct else p) s = p s := by
  rw [look_bind_apply, h]
  rfl

theorem unsupportedIf_of_true {test : Cursor → Bool} {construct : String} (p : Parser α) (h : test s.cursor = true) :
    (look test >>= fun b => if b then unsupported construct else p) s = (unsupported construct : Parser α) s := by
  rw [look_bind_apply, h]
  rfl

theorem expectName_of_some {name : String} (h : s.cursor.name? = some name) :
    expectName s = .ok name s.advanced := by
  unfold expectName
  rw [look_bind_apply, h]
  rfl

theorem expectName_of_none (h : s.cursor.name? = none) : expectName s = unexpected "identifier" s := by
  unfold expectName
  rw [look_bind_apply, h]

theorem Traced.expectName_bind {f : String → Parser α} {Q : α → List Event → State → Prop}
    (h : ∀ name, s.cursor.name? = some name →
      Traced d rule m s.advanced (f name) fun a es => Q a (.pass s.cursor.current :: es)) :
    Traced d rule m s (expectName >>= f) Q := by
  intro hs
  rw [bind_apply]
  cases hn : s.cursor.name? with
  | none =>
    rw [expectName_of_none hn]
    exact unexpected_bind (f := f) hs
  | some name =>
    have hk := Cursor.ordinary_of_name? hn
    rw [expectName_of_some hn]
    exact Traced.step (.pass hs hk.2) (Event.allowed_pass hk.1) trivial (h name hn) hs

end

end Grammar

/-! ## Regions -/

namespace Cursor

theorem Inside.depthAfter {depth : Nat} {region : List Token} (h : Inside depth region) {close : Token}
    (hclose : close.kind = .rightParen) : Token.depthAfter (depth + 1) (region ++ [close]) = some 0 := by
  induction h with
  | nil => exact Token.depthAfter_rightParen hclose 0 []
  | opening head _ ih => rw [List.cons_append, Token.depthAfter_leftParen head, ih]
  | closing head _ ih => rw [List.cons_append, Token.depthAfter_rightParen head, ih]
  | pass left right _ _ ih => rw [List.cons_append, Token.depthAfter_inner left right, ih]

end Cursor

namespace Grammar

section
variable {d : Dialect} {rule : Rule} {m : Mode} {s s' : State} {α β : Type}

/-- A parser that passes tokens without looking into them; with a value it leaves no region open. -/
def Skims (d : Dialect) (rule : Rule) (p : Parser α) : Prop :=
  ∀ s, Traced d rule .skimming s p fun _ es _ => Token.Enclosed (Event.passed es)

theorem Outcome.pass {a : α} (ts : List Token) {Q : α → List Event → State → Prop}
    (ht : s.cursor.tokens = ts ++ s'.cursor.tokens) (hs : s'.statement = s.statement) (h : Q a (ts.map .pass) s') :
    Outcome d rule .skimming s (.ok a s') Q :=
  ⟨ts.map .pass, .pass ht hs, by simp [Event.Allowed], by simp [Event.Whole], h⟩

theorem Outcome.pass_error {e : ParseError} {ts : List Token} {Q : α → List Event → State → Prop}
    (ht : s.cursor.tokens = ts ++ s'.cursor.tokens) (hs : s'.statement = s.statement) :
    Outcome d rule .skimming s (.error e s' : EStateM.Result _ _ α) Q :=
  ⟨ts.map .pass, .pass ht hs, by simp [Event.Allowed]⟩

@[simp] theorem passed_map_pass (ts : List Token) : Event.passed (ts.map .pass) = ts := by
  induction ts with
  | nil => rfl
  | cons t ts ih => rw [List.map_cons, Event.passed_cons, ih]; rfl

theorem moveCursor_bind_apply (f : Cursor → Cursor) (p : Unit → Parser α) (s : State) :
    (moveCursor f >>= p) s = p () { s with cursor := f s.cursor } :=
  rfl

/-- A region is passed from its first parenthesis to the one that closes it. -/
theorem skims_region : Skims d rule skipRegion := by
  intro s
  refine Traced.expect_bind ⟨nofun, nofun⟩ fun hk hs => ?_
  have hk : s.cursor.kind = .leftParen := Token.Kind.eq_of_alike hk trivial
  rw [look_bind_apply, moveCursor_bind_apply]
  rcases (Cursor.leaveRegion_cases hs).2 with
    ⟨region, close, hclose, hkind, hinside, ht⟩ | ⟨hclose, -, -, hlast, passed, ht⟩
  · rw [hclose]
    refine .pass (region ++ [close]) (by rw [ht, List.append_assoc]; rfl) rfl ?_
    rw [Event.passed_cons, passed_map_pass]
    exact (Token.depthAfter_leftParen hk 0 _).trans (hinside.depthAfter hkind)
  · rw [hclose]
    rw [← hlast] at ht
    exact .pass_error ht rfl

/-! ## Parsers that skim -/

namespace Skims

theorem pure {a : α} : Skims d rule (Pure.pure a) :=
  fun _ => .pure Token.enclosed_nil

theorem bind {p : Parser α} {f : α → Parser β} (hp : Skims d rule p) (hf : ∀ a, Skims d rule (f a)) :
    Skims d rule (p >>= f) := by
  intro s
  refine (hp s).bind fun a es s' hes => (hf a s').mono fun b es' _ hes' => ?_
  rw [Event.passed_append]
  exact hes.append hes'

theorem unexpected {expected : String} : Skims d rule (Grammar.unexpected expected : Parser α) :=
  fun _ => .unexpected

theorem unsupported {construct : String} : Skims d rule (Grammar.unsupported construct : Parser α) :=
  fun _ => .unsupported

theorem check_bind {k : Token.Kind} {f : Bool → Parser α} (hf : ∀ b, Skims d rule (f b)) :
    Skims d rule (check k >>= f) :=
  fun s => .look_bind (hf _ s)

theorem skipKeyword_bind {k : Keyword} {f : Bool → Parser α} (hf : ∀ b, Skims d rule (f b)) :
    Skims d rule (skipKeyword k >>= f) :=
  fun s => .skipKeyword_bind (fun hk => (hf true _).mono fun _ _ _ => .keyword hk) fun _ => hf false s

theorem skipAny_bind {ks : List Keyword} {f : Bool → Parser α} (hf : ∀ b, Skims d rule (f b)) :
    Skims d rule (skipAny ks >>= f) := by
  refine fun s => .skipAny_bind (fun hk => ?_) fun _ => hf false s
  obtain ⟨k, -, hk⟩ := hk
  exact (hf true _).mono fun _ _ _ => .keyword hk

theorem branch {k : Keyword} {x y : Parser α} (hx : Skims d rule x) (hy : Skims d rule y) :
    Skims d rule (skipKeyword k >>= fun b => if b then x else y) := by
  refine skipKeyword_bind fun b => ?_
  cases b with
  | true => exact hx
  | false => exact hy

theorem branchAny {ks : List Keyword} {x y : Parser α} (hx : Skims d rule x) (hy : Skims d rule y) :
    Skims d rule (skipAny ks >>= fun b => if b then x else y) := by
  refine skipAny_bind fun b => ?_
  cases b with
  | true => exact hx
  | false => exact hy

theorem expectKeyword_bind {k : Keyword} {f : Span → Parser α} (hf : ∀ span, Skims d rule (f span)) :
    Skims d rule (expectKeyword k >>= f) :=
  fun s => .expectKeyword_bind fun hk => (hf s.cursor.span _).mono fun _ _ _ => .keyword hk

theorem expectName_bind {f : String → Parser α} (hf : ∀ name, Skims d rule (f name)) :
    Skims d rule (expectName >>= f) := by
  refine fun s => .expectName_bind fun name hname => (hf name _).mono fun _ _ _ => ?_
  rcases Token.name?_eq_some.1 hname with hk | ⟨k, hk, -⟩
  · exact .cons (hk ▸ nofun) (hk ▸ nofun) (hk ▸ nofun)
  · exact .keyword hk

theorem region_bind {f : Span → Parser α} (hf : ∀ span, Skims d rule (f span)) : Skims d rule (skipRegion >>= f) :=
  skims_region.bind hf

end Skims

/-! ## Clauses that are skipped -/

theorem Step.skip {es : List Event} (h : Run rule s es s') (hes : ∀ ev ∈ es, ∃ t, ev = .pass t) :
    Step rule s (.skip (Event.passed es)) s' where
  tokens := h.tokens_eq
  sound := trivial
  ordinals := rfl
  parameters := congrArg Statement.parameters (h.statement_eq hes)
  edits := congrArg Statement.edits (h.statement_eq hes)
  clauses := .inr (congrArg Statement.clauses (h.statement_eq hes))

/-- A clause that is skipped from its keyword on is one event. -/
theorem Traced.skip_clause {k : Keyword} {p : Parser α} (hk : s.cursor.kind = .keyword k) (hmem : k ∈ d.skippedClauses)
    (hp : Skims d rule p) :
    Traced d rule .reading s (Grammar.advance >>= fun _ => p) fun _ es _ => Event.leaves es = [] := by
  intro hs
  show Outcome d rule .reading s (p s.advanced) _
  have hpass : Run rule s [.pass s.cursor.current] s.advanced := .single (.pass hs (hk ▸ nofun))
  -- The keyword and all that is passed behind it become one event, also where the clause is broken off.
  have hskip : ∀ {es : List Event} {s' : State}, Run rule s.advanced es s' → (∀ ev ∈ es, ev.Allowed d .skimming) →
      Run rule s [.skip (s.cursor.current :: Event.passed es)] s' := fun hrun hall =>
    .single (.skip (hpass.append hrun) (List.forall_mem_cons.2 ⟨⟨_, rfl⟩, fun ev hev => (hall ev hev).eq_pass⟩))
  have hallowed : ∀ ts, (Event.skip (s.cursor.current :: ts)).Allowed d .reading := fun ts => ⟨_, _, k, rfl, hk, hmem⟩
  have hout := hp s.advanced (hpass.complete hs)
  cases hr : p s.advanced with
  | error e s' =>
    rw [hr] at hout
    obtain ⟨es, hrun, hall⟩ := hout
    exact ⟨_, hskip hrun hall, List.forall_mem_singleton.2 (hallowed _)⟩
  | ok a s' =>
    rw [hr] at hout
    obtain ⟨es, hrun, hall, -, hes⟩ := hout
    exact ⟨_, hskip hrun hall, List.forall_mem_singleton.2 (hallowed _),
      List.forall_mem_singleton.2 (Token.Enclosed.keyword hk hes), rfl⟩

end

end Grammar

end SelectRouting
