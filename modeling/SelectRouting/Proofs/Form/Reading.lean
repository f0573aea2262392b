import SelectRouting.Proofs.Form.Basic
import SelectRouting.Proofs.Region
/-!
# Parsers that recognize a form

A parser that only skips tokens recognizes a form if it succeeds in front of a derivation that takes what it can and ends
behind it, and fails in front of anything else (`Recognizes`).  Some tokens it refuses as unsupported; which, a condition
on them says.  The judgement goes through the steps that such parsers are made of: where one part follows another the
condition of the second is asked behind a derivation of the first (`Form.Before`).
-/
namespace SelectRouting

/-- A form begins some tokens, and what is behind it meets a condition. -/
def Form.Before (f : Form) (V : List Token → Prop) (ts : List Token) : Prop :=
  ∃ T rest, Form.Greedy f T rest ∧ ts = T.tokens ++ rest ∧ V rest

namespace Form.Before

variable {f g : Form} {V W : List Token → Prop} {ts : List Token}

theorem seq_eq (f g : Form) (V : List Token → Prop) : (f.seq g).Before V = f.Before (g.Before V) := by
  funext ts
  refine propext ⟨?_, ?_⟩
  · rintro ⟨T, rest, hT, rfl, hV⟩
    cases hT with
    | @seq _ _ A B _ hA hB => exact ⟨A, B.tokens ++ rest, hA, List.append_assoc .., B, rest, hB, rfl, hV⟩
  · rintro ⟨A, _, hA, rfl, B, rest, hB, rfl, hV⟩
    exact ⟨.pair A B, rest, .seq hA hB, (List.append_assoc ..).symm, hV⟩

theorem or_eq (f : Form) (V W : List Token → Prop) :
    f.Before (fun ts => V ts ∨ W ts) = fun ts => f.Before V ts ∨ f.Before W ts := by
  funext ts
  simp only [Form.Before, and_or_left, exists_or]

/-- A form that takes at least one token begins with one of its openers. -/
theorem begins (hnullable : f.nullable = false) (h : f.Before V ts) : Opener.Begin f.openers ts := by
  obtain ⟨T, rest, hT, rfl, -⟩ := h
  refine hT.derives.begins (fun hnil => ?_) rest
  cases (hT.derives.nullable hnil).symm.trans hnullable

section
variable (hclear : f.clear = true) (hclosed : f.extenders = [])
include hclear hclosed

/-- Of a form that ends by itself every derivation counts. -/
theorem iff_derives : f.Before V ts ↔ ∃ T rest, f.Derives T ∧ ts = T.tokens ++ rest ∧ V rest := by
  constructor
  · rintro ⟨T, rest, hT, hts, hV⟩
    exact ⟨T, rest, hT.derives, hts, hV⟩
  · rintro ⟨T, rest, hT, hts, hV⟩
    exact ⟨T, rest, hT.greedy_of_closed hclear hclosed, hts, hV⟩

theorem iff_heads : f.Before (fun _ => True) ts ↔ f.Heads ts := by
  rw [iff_derives hclear hclosed]
  constructor
  · rintro ⟨T, rest, hT, hts, -⟩
    exact ⟨T, hT, rest, hts.symm⟩
  · rintro ⟨T, hT, rest, hts⟩
    exact ⟨T, rest, hT, hts.symm, trivial⟩

end

end Form.Before

namespace Grammar

open Cursor (Reaches)
open Form (Greedy)
open Token (Complete)

/-- What a parser that skips a form makes of the tokens of a state. -/
inductive Recognized {α : Type} (f : Form) (U : List Token → Prop) (s : State) :
    EStateM.Result ParseError State α → Prop where
  | ok {a : α} {c : Cursor} {T : Tree} (derived : Greedy f T c.tokens) (reached : Reaches s.cursor T.tokens c)
    (allowed : ¬ U s.cursor.tokens) : Recognized f U s (.ok a (s.moved c))
  | error {e : ParseError} {c : Cursor} (underived : ∀ T rest, Greedy f T rest → s.cursor.tokens ≠ T.tokens ++ rest)
    (refused : e.isUnsupported = true ↔ U s.cursor.tokens)
    (syntactic : e.isUnsupported = false → ∃ expected, e = ⟨.unexpected expected c.kind, c.span⟩) :
    Recognized f U s (.error e (s.moved c))

def Recognizes {α : Type} (f : Form) (U : List Token → Prop) (p : Parser α) : Prop :=
  ∀ s, Complete s.cursor.tokens → Recognized f U s (p s)

/-- Nothing is refused as unsupported. -/
def Never : List Token → Prop :=
  fun _ => False

variable {α β : Type} {f g : Form} {U V : List Token → Prop} {s : State} {p : Parser α} {q : α → Parser β}

namespace Recognized

variable {r : EStateM.Result ParseError State α}

theorem congr (hU : U s.cursor.tokens ↔ V s.cursor.tokens) (h : Recognized f U s r) : Recognized f V s r := by
  cases h with
  | ok derived reached allowed => exact .ok derived reached (hU.not.1 allowed)
  | error underived refused syntactic => exact .error underived (refused.trans hU) syntactic

/-- Another form that begins the same tokens. -/
theorem congrForm (hf : ∀ ts rest, (∃ T, Greedy f T rest ∧ T.tokens = ts) ↔ ∃ T, Greedy g T rest ∧ T.tokens = ts)
    (h : Recognized f U s r) : Recognized g U s r := by
  cases h with
  | ok derived reached allowed =>
    obtain ⟨T, hT, htokens⟩ := (hf _ _).1 ⟨_, derived, rfl⟩
    exact .ok hT (htokens ▸ reached) allowed
  | error underived refused syntactic =>
    refine .error (fun T rest hT htokens => ?_) refused syntactic
    obtain ⟨T', hT', hsame⟩ := (hf _ _).2 ⟨T, hT, rfl⟩
    exact underived T' rest hT' (hsame ▸ htokens)

/-- The first of two parts, where a token begins it. -/
theorem left (hnullable : f.nullable = false) (hdisjoint : Opener.disjoint f.openers g.openers = true)
    (hbegin : Opener.Begin f.openers s.cursor.tokens) (h : Recognized f U s r) : Recognized (.either f g) U s r := by
  have hne : ∀ T, f.Derives T → T.tokens ≠ [] := fun T hT hnil => by
    cases (hT.nullable hnil).symm.trans hnullable
  cases h with
  | ok derived reached allowed =>
    exact .ok (.left derived fun hnil => absurd hnil (hne _ derived.derives)) reached allowed
  | error underived refused syntactic =>
    refine .error (fun T rest hT htokens => ?_) refused syntactic
    cases hT with
    | left hA => exact underived _ rest hA htokens
    | @right _ _ B _ hB settled =>
      by_cases hnil : B.tokens = []
      · exact settled hnil (by rwa [htokens, Tree.tokens, hnil] at hbegin)
      · exact Opener.not_begin_of_disjoint hdisjoint hbegin (htokens ▸ hB.derives.begins hnil rest)

/-- The second of two parts, where no token begins the first one. -/
theorem right (hnullable : f.nullable = false) (hbegin : ¬ Opener.Begin f.openers s.cursor.tokens)
    (h : Recognized g U s r) : Recognized (.either f g) U s r := by
  cases h with
  | ok derived reached allowed =>
    refine .ok (.right derived fun hnil => ?_) reached allowed
    rwa [reached.tokens, hnil] at hbegin
  | error underived refused syntactic =>
    refine .error (fun T rest hT htokens => ?_) refused syntactic
    cases hT with
    | right hB => exact underived _ rest hB htokens
    | @left _ _ A _ hA =>
      by_cases hnil : A.tokens = []
      · cases (hA.derives.nullable hnil).symm.trans hnullable
      · exact hbegin (htokens ▸ hA.derives.begins hnil rest)

/-- Where the first of two parts is refused, so are both. -/
theorem seq_of_error {e : ParseError} {t : State} (h : Recognized f U s (.error e t : EStateM.Result _ _ α)) :
    Recognized (.seq f g) (fun ts => U ts ∨ f.Before V ts) s (.error e t : EStateM.Result _ _ β) := by
  cases h with
  | error underived refused syntactic =>
    refine .error (fun T rest hT htokens => ?_) ⟨fun he => .inl (refused.1 he), ?_⟩ syntactic
    · cases hT with
      | seq head tail =>
        rw [Tree.tokens, List.append_assoc] at htokens
        exact underived _ _ head htokens
    · rintro (hU | ⟨T, rest, hT, htokens, -⟩)
      · exact refused.2 hU
      · exact absurd htokens (underived T rest hT)

/-- The second of two parts, behind the first one. -/
theorem seq (hclear : f.clear = true) {c : Cursor} {T : Tree} (derived : Greedy f T c.tokens)
    (reached : Reaches s.cursor T.tokens c) (allowed : ¬ U s.cursor.tokens) (h : Recognized g V (s.moved c) r) :
    Recognized (.seq f g) (fun ts => U ts ∨ f.Before V ts) s r := by
  -- There is one derivation of the first part only, so the second one begins behind it.
  have hbehind : ∀ T' rest, Greedy f T' rest → s.cursor.tokens = T'.tokens ++ rest → c.tokens = rest :=
    fun T' rest hT' htokens => (derived.unique hclear hT' (reached.tokens.symm.trans htokens)).2
  have hbefore : f.Before V s.cursor.tokens ↔ V c.tokens := by
    refine ⟨?_, fun hV => ⟨T, c.tokens, derived, reached.tokens, hV⟩⟩
    rintro ⟨T', rest, hT', htokens, hV⟩
    rwa [hbehind T' rest hT' htokens]
  cases h with
  | ok derived' reached' allowed' =>
    refine .ok (.seq ?_ derived') (reached.trans reached') (not_or.2 ⟨allowed, fun h => allowed' (hbefore.1 h)⟩)
    rw [← reached'.tokens]
    exact derived
  | error underived refused syntactic =>
    refine .error (fun T' rest hT' htokens => ?_) ⟨fun he => .inr (hbefore.2 (refused.1 he)), ?_⟩ syntactic
    · cases hT' with
      | seq head tail =>
        rw [Tree.tokens, List.append_assoc] at htokens
        exact underived _ rest tail (hbehind _ _ head htokens)
    · rintro (hU | hV)
      · exact absurd hU allowed
      · exact refused.2 (hbefore.1 hV)

/-- In front of a form that ends by itself a parser succeeds if and only if a derivation is there. -/
theorem ok_iff (hclear : f.clear = true) (hclosed : f.extenders = []) (h : Recognized f U s r) :
    (∃ a t, r = .ok a t) ↔ f.Heads s.cursor.tokens := by
  rw [← Form.Before.iff_heads hclear hclosed]
  cases h with
  | @ok a c T derived reached => exact iff_of_true ⟨a, s.moved c, rfl⟩ ⟨T, c.tokens, derived, reached.tokens, trivial⟩
  | error underived =>
    refine iff_of_false ?_ fun ⟨T, rest, hT, htokens, _⟩ => underived T rest hT htokens
    rintro ⟨a, t, h⟩
    cases h

end Recognized

namespace Recognizes

theorem congr (hU : ∀ ts, U ts ↔ V ts) (h : Recognizes f U p) : Recognizes f V p :=
  fun s hs => (h s hs).congr (hU s.cursor.tokens)

/-- Where nothing behind a part is refused, nothing is. -/
theorem clean (h : Recognizes f (g.Before Never) p) : Recognizes f Never p :=
  h.congr fun _ => ⟨fun ⟨_, _, _, _, hnever⟩ => hnever, False.elim⟩

theorem pure {a : α} : Recognizes .empty Never (Pure.pure a : Parser α) :=
  fun s _ => .ok (c := s.cursor) .empty .refl id

/-- One part behind another. -/
theorem bind (hclear : f.clear = true) (hp : Recognizes f U p) (hq : ∀ a, Recognizes g V (q a)) :
    Recognizes (.seq f g) (fun ts => U ts ∨ f.Before V ts) (p >>= q) := by
  intro s hs
  have hfirst := hp s hs
  cases hr : p s with
  | error e t =>
    rw [hr] at hfirst
    rw [bind_of_error hr]
    exact hfirst.seq_of_error
  | ok a t =>
    rw [hr] at hfirst
    rw [bind_of_ok hr]
    cases hfirst with
    | ok derived reached allowed => exact (hq a _ (reached.complete hs)).seq hclear derived reached allowed

/-- The first part refuses nothing. -/
theorem andThen (hclear : f.clear = true) (hp : Recognizes f Never p) (hq : ∀ a, Recognizes g V (q a)) :
    Recognizes (.seq f g) (f.Before V) (p >>= q) :=
  (bind hclear hp hq).congr fun _ => or_iff_right id

/-- What follows refuses nothing. -/
theorem before (hclear : f.clear = true) (hp : Recognizes f U p) (hq : ∀ a, Recognizes g Never (q a)) :
    Recognizes (.seq f g) U (p >>= q) :=
  (bind hclear hp hq).congr fun _ => or_iff_left fun ⟨_, _, _, _, hnever⟩ => hnever

theorem map {b : β} (hp : Recognizes f U p) : Recognizes f U (p >>= fun _ => Pure.pure b) := by
  intro s hs
  have hfirst := hp s hs
  cases hr : p s with
  | error e t =>
    rw [hr] at hfirst
    rw [bind_of_error hr]
    cases hfirst with
    | error underived refused syntactic => exact .error underived refused syntactic
  | ok a t =>
    rw [hr] at hfirst
    rw [bind_of_ok hr]
    cases hfirst with
    | ok derived reached allowed => exact .ok derived reached allowed

/-! ## Demanding -/

/-- A parser that demands a token recognizes a form of one token. -/
theorem demand {p : Parser α} {value? : Token → Option α} {expected : String} (hp : Demands p value? expected)
    (heof : ∀ t a, value? t = some a → t.kind ≠ .eof)
    (hf : ∀ T rest, Greedy f T rest ↔ ∃ t, T = .token t ∧ (value? t).isSome) : Recognizes f Never p := by
  intro s hs
  rw [hp s]
  cases hv : value? s.cursor.current with
  | some a =>
    exact .ok ((hf (.token s.cursor.current) _).2 ⟨_, rfl, hv ▸ rfl⟩) (.advance hs (heof _ a hv)) id
  | none =>
    refine .error (c := s.cursor) (fun T rest hT htokens => ?_) ⟨nofun, False.elim⟩ fun _ => ⟨expected, rfl⟩
    obtain ⟨t, rfl, ht⟩ := (hf T rest).1 hT
    obtain rfl : s.cursor.current = t := (List.cons.inj htokens).1
    rw [hv] at ht
    cases ht

theorem word_iff {ks : List Keyword} {T : Tree} {rest : List Token} :
    Greedy (.word ks) T rest ↔ ∃ t, T = .token t ∧ ∃ k ∈ ks, t.kind = .keyword k := by
  constructor
  · intro h
    cases h with
    | word mem kind => exact ⟨_, rfl, _, mem, kind⟩
  · rintro ⟨t, rfl, k, mem, kind⟩
    exact .word mem kind

theorem name_iff {T : Tree} {rest : List Token} : Greedy .name T rest ↔ ∃ t, T = .token t ∧ t.name?.isSome := by
  constructor
  · intro h
    cases h with
    | name named => exact ⟨_, rfl, named⟩
  · rintro ⟨t, rfl, named⟩
    exact .name named

theorem expectKeyword {k : Keyword} : Recognizes (.word [k]) Never (Grammar.expectKeyword k) := by
  have hplace : ∀ t, (placeIf (fun t => decide (t.kind.keyword? = some k)) t).isSome ↔ t.kind = .keyword k := by
    intro t
    refine ⟨fun h => ?_, fun hk => ?_⟩
    · obtain ⟨span, hspan⟩ := Option.isSome_iff_exists.1 h
      exact Token.Kind.eq_of_keyword? (of_decide_eq_true (test_of_placeIf hspan))
    · rw [placeIf, if_pos (decide_eq_true (hk ▸ rfl))]
      rfl
  refine demand (demands_expectKeyword k) (fun t a h => ?_) fun T rest => ?_
  · rw [(hplace t).1 (h ▸ rfl)]
    intro heof
    cases heof
  · simp only [word_iff, List.mem_singleton, exists_eq_left, hplace]

theorem expectName : Recognizes .name Never Grammar.expectName :=
  demand demands_expectName (fun _ _ h => (eof_of_name? h).1) fun _ _ => name_iff

/-- The value of one of some keywords. -/
def anyOf? (ks : List Keyword) (t : Token) : Option Unit :=
  if t.kind.keyword?.any ks.contains then some () else none

theorem isSome_anyOf? {ks : List Keyword} {t : Token} : (anyOf? ks t).isSome ↔ ∃ k ∈ ks, t.kind = .keyword k := by
  have hany : t.kind.keyword?.any ks.contains = true ↔ ∃ k ∈ ks, t.kind = .keyword k := by
    rw [Option.any_eq_true]
    constructor
    · rintro ⟨k, hk, hmem⟩
      exact ⟨k, List.contains_iff_mem.1 hmem, Token.Kind.eq_of_keyword? hk⟩
    · rintro ⟨k, hmem, hk⟩
      exact ⟨k, by rw [hk]; rfl, List.contains_iff_mem.2 hmem⟩
  rw [← hany, anyOf?]
  split <;> simp [*]

theorem expectAny {ks : List Keyword} {expected : String} : Recognizes (.word ks) Never
    (Grammar.skipAny ks >>= fun b => if b then Pure.pure () else unexpected expected) := by
  have hdemands : Demands (Grammar.skipAny ks >>= fun b => if b then Pure.pure () else unexpected expected) (anyOf? ks)
      expected := by
    intro s
    cases ht : s.cursor.atAny ks with
    | true =>
      rw [anyOf?, if_pos (show s.cursor.current.kind.keyword?.any ks.contains = true from ht)]
      exact bind_of_ok (skipWhen_of_true ht) _
    | false =>
      rw [anyOf?, if_neg (Bool.eq_false_iff.1 (show s.cursor.current.kind.keyword?.any ks.contains = false from ht))]
      exact bind_of_ok (skipWhen_of_false ht) _
  refine demand hdemands (fun t a h => ?_) fun T rest => ?_
  · obtain ⟨k, -, hk⟩ := isSome_anyOf?.1 (h ▸ rfl : (anyOf? ks t).isSome)
    rw [hk]
    exact nofun
  · simp only [word_iff, isSome_anyOf?]

/-! ## Choosing by a word -/

variable {ks : List Keyword} {p' : Parser α}

theorem atAny_iff {c : Cursor} : c.atAny ks = true ↔ Opener.Begin (ks.map .word) c.tokens := by
  have hany : c.atAny ks = true ↔ ∃ k ∈ ks, c.current.kind = .keyword k := by
    rw [← isSome_anyOf?, anyOf?, show c.atAny ks = c.current.kind.keyword?.any ks.contains from rfl]
    split <;> simp [*]
  rw [hany]
  constructor
  · rintro ⟨k, hmem, hk⟩
    exact ⟨.word k, List.mem_map_of_mem hmem, c.current, rfl, hk⟩
  · rintro ⟨o, ho, t, ⟨⟩, hfits⟩
    obtain ⟨k, hmem, rfl⟩ := List.mem_map.1 ho
    exact ⟨k, hmem, hfits⟩

theorem not_begin_of_atAny (hk : s.cursor.atAny ks = false) : ¬ Opener.Begin (ks.map .word) s.cursor.tokens := by
  rw [← atAny_iff, hk]
  exact Bool.false_ne_true

/-- Behind a word that has been passed. -/
theorem behindWord (hs : Complete s.cursor.tokens) (hk : s.cursor.atAny ks = true) (hp : Recognizes f U p) :
    Recognized (.seq (.word ks) f) ((Form.word ks).Before U) s (p s.advanced) := by
  have hskip : (Grammar.skipAny ks >>= fun b => if b then Pure.pure () else unexpected "" : Parser Unit) s =
      .ok () s.advanced := bind_of_ok (skipWhen_of_true hk) _
  have hword : Recognizes (.word ks) Never (Grammar.skipAny ks >>= fun b => if b then Pure.pure () else unexpected "") :=
    expectAny
  have hpassed := andThen rfl hword (fun _ => hp) s hs
  rwa [bind_of_ok hskip] at hpassed

/-- What one of some words begins, and another part where none of them stands. -/
theorem branch (hdisjoint : Opener.disjoint (ks.map .word) g.openers = true) (hp : Recognizes f U p)
    (hp' : Recognizes g Never p') :
    Recognizes (.either (.seq (.word ks) f) g) ((Form.word ks).Before U)
      (Grammar.skipAny ks >>= fun b => if b then p else p') := by
  have hopeners : (Form.seq (.word ks) f).openers = ks.map .word := List.append_nil _
  intro s hs
  cases hk : s.cursor.atAny ks with
  | true =>
    have hskip : Grammar.skipAny ks s = .ok true s.advanced := skipWhen_of_true hk
    rw [bind_of_ok hskip]
    refine (behindWord hs hk hp).left rfl (hopeners ▸ hdisjoint) ?_
    rw [hopeners]
    exact atAny_iff.1 hk
  | false =>
    have hbegin := not_begin_of_atAny hk
    have hskip : Grammar.skipAny ks s = .ok false s := skipWhen_of_false hk
    have hnever : Never s.cursor.tokens ↔ (Form.word ks).Before U s.cursor.tokens :=
      ⟨False.elim, fun h => hbegin (h.begins rfl)⟩
    rw [bind_of_ok hskip]
    exact ((hp' s hs).congr hnever).right rfl (hopeners ▸ hbegin)

/-- A part that begins with one of some words and may be missing. -/
theorem optional {p : Parser Unit} (hp : Recognizes f U p) :
    Recognizes (.optional (.seq (.word ks) f)) ((Form.word ks).Before U)
      (Grammar.skipAny ks >>= fun b => if b then p else Pure.pure ()) :=
  branch (List.all_eq_true.2 fun _ _ => rfl) hp pure

/-- A part that has to begin with one of some words. -/
theorem demandAny {expected : String} (hp : Recognizes f U p) : Recognizes (.seq (.word ks) f) ((Form.word ks).Before U)
    (Grammar.skipAny ks >>= fun b => if b then p else unexpected expected) := by
  have hsplit : (Grammar.skipAny ks >>= fun b => if b then p else unexpected expected) =
      (Grammar.skipAny ks >>= fun b => if b then Pure.pure () else unexpected expected) >>= fun _ => p := by
    rw [bind_assoc]
    refine bind_congr fun b => ?_
    cases b <;> rfl
  rw [hsplit]
  exact andThen rfl expectAny fun _ => hp

/-- A word that may be missing. -/
theorem skipAny : Recognizes (.optional (.word ks)) Never (Grammar.skipAny ks) := by
  intro s hs
  cases hk : s.cursor.atAny ks with
  | true =>
    have hskip : Grammar.skipAny ks s = .ok true s.advanced := skipWhen_of_true hk
    obtain ⟨k, hmem, hkind⟩ := Cursor.exists_kind_of_atAny hk
    rw [hskip]
    exact .ok (.left (.word hmem hkind) nofun) (.advance hs (hkind ▸ nofun)) id
  | false =>
    have hskip : Grammar.skipAny ks s = .ok false s := skipWhen_of_false hk
    have hbegin := not_begin_of_atAny hk
    rw [hskip]
    exact .ok (c := s.cursor) (.right .empty fun _ => hbegin) .refl id

/-! ## Regions -/

theorem skipRegion : Recognizes .region Never Grammar.skipRegion := by
  intro s hs
  rcases skipRegion_cases hs with
    ⟨hk, inner, close, c, hinner, hclose, hreach, hrun⟩ | ⟨hk, hopen, ts, c, hreach, heof, hrun⟩ | ⟨hk, hrun⟩
  · rw [hrun]
    exact .ok (.region (.intro hk hinner hclose)) hreach id
  · rw [hrun, ← heof]
    refine .error (fun T rest hT htokens => ?_) ⟨nofun, False.elim⟩ fun _ => ⟨_, rfl⟩
    cases hT with
    | region region =>
      cases region with
      | @intro opening close inner opened balanced closed =>
        refine hopen inner close rest ?_ balanced closed
        exact (List.cons.inj htokens).2.trans (List.append_cons inner close rest).symm
  · rw [hrun]
    refine .error (c := s.cursor) (fun T rest hT htokens => ?_) ⟨nofun, False.elim⟩ fun _ => ⟨_, rfl⟩
    cases hT with
    | region region =>
      obtain ⟨t, us, rfl, ht⟩ := region.exists_opening
      obtain rfl : s.cursor.current = t := (List.cons.inj htokens).1
      exact hk ht

/-- A region; anything but an opening parenthesis is refused. -/
theorem regionOrRefused {construct : String} (hp : Recognizes .region Never p) :
    Recognizes .region (fun ts => ∃ t ∈ ts.head?, t.kind ≠ .leftParen)
      (check .leftParen >>= fun b => if b then p else unsupported construct) := by
  intro s hs
  have hcheck : check .leftParen s = .ok (s.cursor.kind.alike .leftParen) s := rfl
  rw [bind_of_ok hcheck]
  cases hk : s.cursor.kind.alike .leftParen with
  | true =>
    refine (hp s hs).congr ⟨False.elim, ?_⟩
    rintro ⟨t, ⟨⟩, hne⟩
    exact absurd (Token.Kind.eq_of_alike hk trivial) hne
  | false =>
    have hne : s.cursor.kind ≠ .leftParen := by
      intro h
      rw [h] at hk
      cases hk
    refine .error (c := s.cursor) (fun T rest hT htokens => ?_) ⟨fun _ => ⟨_, rfl, hne⟩, fun _ => rfl⟩ nofun
    cases hT with
    | region region =>
      obtain ⟨t, us, rfl, ht⟩ := region.exists_opening
      obtain rfl : s.cursor.current = t := (List.cons.inj htokens).1
      exact hne ht

/-! ## Refusing a construct -/

/-- In front of another part, a construct that begins with one of some words is passed as a whole and then refused. -/
theorem refuse {construct : String} {p : Parser β} (hnullable : g.nullable = false)
    (hdisjoint : Opener.disjoint (ks.map .word) g.openers = true) (hU : ∀ ts, U ts → Opener.Begin g.openers ts)
    (hp : Recognizes f Never p) (hp' : Recognizes g U p') :
    Recognizes g (fun ts => (Form.seq (.word ks) f).Before (fun _ => True) ts ∨ U ts)
      ((Grammar.skipAny ks >>= fun b => if b then p >>= fun _ => unsupported construct else Pure.pure ()) >>=
        fun _ => p') := by
  have hopeners : (Form.seq (.word ks) f).openers = ks.map .word := List.append_nil _
  intro s hs
  rw [bind_assoc]
  cases hk : s.cursor.atAny ks with
  | false =>
    have hskip : Grammar.skipAny ks s = .ok false s := skipWhen_of_false hk
    rw [bind_of_ok hskip]
    refine (hp' s hs).congr (or_iff_right fun hbefore => ?_).symm
    exact not_begin_of_atAny hk (hopeners ▸ hbefore.begins rfl)
  | true =>
    have hskip : Grammar.skipAny ks s = .ok true s.advanced := skipWhen_of_true hk
    have hother : ¬ Opener.Begin g.openers s.cursor.tokens := Opener.not_begin_of_disjoint hdisjoint (atAny_iff.1 hk)
    have hunderived : ∀ T rest, Greedy g T rest → s.cursor.tokens ≠ T.tokens ++ rest := fun T rest hT htokens => by
      have hbefore : g.Before (fun _ => True) s.cursor.tokens := ⟨T, rest, hT, htokens, trivial⟩
      exact hother (hbefore.begins hnullable)
    have hpassed := behindWord hs hk hp
    rw [bind_of_ok hskip, if_pos rfl, bind_assoc]
    cases hr : p s.advanced with
    | error e t =>
      rw [hr] at hpassed
      rw [bind_of_error hr]
      cases hpassed with
      | error underived refused syntactic =>
        refine .error hunderived ⟨fun he => ?_, ?_⟩ syntactic
        · obtain ⟨_, _, _, _, hnever⟩ := refused.1 he
          exact hnever.elim
        · rintro (⟨T, rest, hT, htokens, -⟩ | h)
          · exact absurd htokens (underived T rest hT)
          · exact absurd (hU _ h) hother
    | ok a t =>
      rw [hr] at hpassed
      rw [bind_of_ok hr]
      cases hpassed with
      | @ok _ c T derived reached allowed =>
        have hbefore : (Form.seq (.word ks) f).Before (fun _ => True) s.cursor.tokens :=
          ⟨T, c.tokens, derived, reached.tokens, trivial⟩
        exact .error hunderived ⟨fun _ => .inl hbefore, fun _ => rfl⟩ nofun

end Recognizes

theorem skipKeyword_eq (k : Keyword) : skipKeyword k = skipAny [k] := by
  have hat : (fun c : Cursor => c.atKeyword k) = fun c => c.atAny [k] := by
    funext c
    unfold Cursor.atKeyword Cursor.atAny
    cases c.keyword? with
    | none => rfl
    | some k' => simp
  exact congrArg skipWhen hat

end Grammar

end SelectRouting
