import SelectRouting.Proofs.Dialect.Departure
import SelectRouting.Proofs.Likeness.Basic
import SelectRouting.Proofs.Precedence.Written
import SelectRouting.Proofs.Renaming.Tree
/-!
# A word in the place of a name

In some tokens a name is exchanged for a keyword that is not reserved (`Exchange`).  A parser that ends with a value is
compared with its run on the exchanged tokens (`Exchange.Follows`): as long as the name stands where a column stands, that
run ends with the same value, renamed, and in front of the same tokens, unless the keyword calls an aggregate.  The
judgement also shows that where a tree has a column, the name stands so.
-/
namespace SelectRouting

/-! ## Names and reserved words -/

namespace Token.Kind

/-- Of a token that can be a name. -/
def IsName : Kind → Prop
  | .identifier _ => True
  | .keyword k => k.reserved = false
  | _ => False

variable {k j : Kind}

theorem isName_iff {t : Token} : t.kind.IsName ↔ ∃ name, t.name? = some name := by
  unfold Token.name?
  cases t.kind with
  | identifier name => exact iff_of_true trivial ⟨name, rfl⟩
  | keyword w => cases hw : w.reserved <;> simp [IsName, hw]
  | _ => exact iff_of_false id nofun

theorem IsName.ne_of_bare (h : k.IsName) (hj : j.Bare) : k ≠ j := by
  rintro rfl
  cases k <;> first | exact h.elim | exact hj.elim

theorem IsName.not_alike (h : k.IsName) (hj : j.Bare) : k.alike j = false := by
  cases hk : k.alike j with
  | false => rfl
  | true => exact absurd (eq_of_alike hk hj) (h.ne_of_bare hj)

theorem IsName.ne_reserved (h : k.IsName) {w : Keyword} (hw : w.reserved = true) : k ≠ .keyword w := by
  rintro rfl
  exact Bool.noConfusion (hw.symm.trans h)

theorem IsName.keyword?_ne (h : k.IsName) {w : Keyword} (hw : w.reserved = true) : k.keyword? ≠ some w := by
  cases k with
  | keyword w' => exact fun hw' => h.ne_reserved hw (congrArg keyword (Option.some.inj hw'))
  | _ => exact nofun

end Token.Kind

namespace Grammar

theorem Infix.ofKind?_of_isName {k : Token.Kind} (h : k.IsName) : ofKind? k = none := by
  unfold ofKind?
  split <;> first | rfl | exact h.elim | exact Bool.noConfusion (show true = false from h)

theorem prefixed?_of_isName {k : Token.Kind} (h : k.IsName) : prefixed? k = none := by
  unfold prefixed?
  split <;> first | rfl | exact h.elim | exact Bool.noConfusion (show true = false from h)

/-! ## Exchanged tokens -/

/-- A name among some tokens, and a keyword that is not reserved, as it is written in the place of the name. -/
structure Exchange where
  before : List Token
  old : Token
  after : List Token
  word : Keyword
  written : String
  isName : old.kind.IsName
  free : word.reserved = false
  /-- No other token stands in the same place. -/
  apart : ∀ t ∈ before ++ after, t.span ≠ old.span
  complete : Token.Complete (before ++ old :: after)

namespace Exchange

variable (X : Exchange)

def tokens : List Token :=
  X.before ++ X.old :: X.after

def new : Token :=
  ⟨.keyword X.word, X.old.span, X.written⟩

def put (t : Token) : Token :=
  if t = X.old then X.new else t

def cursor (c : Cursor) : Cursor :=
  ⟨c.source, X.put c.current, c.rest.map X.put⟩

def state (s : State) : State :=
  { s with cursor := X.cursor s.cursor }

/-- The name stands as a column stands: behind no point, in front of neither a parenthesis nor a point, and it does not
call an aggregate. -/
structure StandsAlone : Prop where
  behind : ∀ t ∈ X.before.getLast?, t.kind ≠ .dot
  next : ∀ t ∈ X.after.head?, t.kind ≠ .leftParen ∧ t.kind ≠ .dot
  plain : ∀ k, X.old.kind = .keyword k → k.isAggregate = false

/-- The column in the place of the name is called by the keyword. -/
def rename : Expr → Expr :=
  .rename X.old.span X.written

/-- Where one of some leaves is the column, the name stands alone. -/
def Sound (ls : List Leaf) : Prop :=
  ∀ name, Leaf.column none name X.old.span ∈ ls → X.StandsAlone

/-- The keyword has been read as an aggregate, which nothing calls. -/
def Refuses {α : Type} (r : EStateM.Result ParseError State α) : Prop :=
  X.word.isAggregate = true ∧
    ∃ t ∈ X.after.head?, ∃ s, r = .error ⟨.unexpected "LeftParen" t.kind, t.span⟩ s

/-- In front of some of the tokens, behind no point. -/
def At (s : State) : Prop :=
  ∃ passed, passed ++ s.cursor.tokens = X.tokens ∧ ∀ t ∈ passed.getLast?, t.kind ≠ .dot

variable {X} {s : State}

/-! ### Leaves -/

@[simp] theorem sound_nil : X.Sound [] := nofun

@[simp] theorem sound_append {ls ls' : List Leaf} : X.Sound (ls ++ ls') ↔ X.Sound ls ∧ X.Sound ls' := by
  simp [Sound, or_imp, forall_and]

@[simp] theorem sound_flatMap {α : Type} {as : List α} {f : α → List Leaf} :
    X.Sound (as.flatMap f) ↔ ∀ a ∈ as, X.Sound (f a) := by
  induction as with
  | nil => simp
  | cons a as ih => simp [ih]

/-! ### Tokens -/

theorem put_old : X.put X.old = X.new :=
  if_pos rfl

theorem put_of_ne {t : Token} (h : t ≠ X.old) : X.put t = t :=
  if_neg h

@[simp] theorem span_put (t : Token) : (X.put t).span = t.span := by
  by_cases h : t = X.old
  · rw [h, put_old]
    rfl
  · rw [put_of_ne h]

theorem isName_new : X.new.kind.IsName :=
  X.free

/-- What is the same for all names is the same for an exchanged token. -/
theorem kind_put {β : Type} (f : Token.Kind → β) {b : β} (hf : ∀ k : Token.Kind, k.IsName → f k = b) (t : Token) :
    f (X.put t).kind = f t.kind := by
  by_cases h : t = X.old
  · rw [h, put_old, hf _ isName_new, hf _ X.isName]
  · rw [put_of_ne h]

theorem kind_put_eq_iff {k : Token.Kind} (hk : k.Bare) (t : Token) : (X.put t).kind = k ↔ t.kind = k :=
  iff_of_eq (kind_put (· = k) (fun _ h => eq_false (h.ne_of_bare hk)) t)

theorem keyword?_put_eq_iff {w : Keyword} (hw : w.reserved = true) (t : Token) :
    (X.put t).kind.keyword? = some w ↔ t.kind.keyword? = some w :=
  iff_of_eq (kind_put (·.keyword? = some w) (fun _ h => eq_false (h.keyword?_ne hw)) t)

theorem name?_new : X.new.name? = some X.written := by
  show (if X.word.reserved then none else some X.written) = some X.written
  rw [X.free]
  rfl

theorem old_notMem : X.old ∉ X.before ∧ X.old ∉ X.after := by
  constructor
  · exact fun h => X.apart _ (List.mem_append_left _ h) rfl
  · exact fun h => X.apart _ (List.mem_append_right _ h) rfl

/-- The place of the name is its own. -/
theorem eq_old {t : Token} (ht : t ∈ X.tokens) (hspan : t.span = X.old.span) : t = X.old := by
  rw [tokens, List.mem_append, List.mem_cons] at ht
  rcases ht with ht | rfl | ht
  · exact absurd hspan (X.apart t (List.mem_append_left _ ht))
  · rfl
  · exact absurd hspan (X.apart t (List.mem_append_right _ ht))

theorem split_of_current {passed : List Token} (h : passed ++ s.cursor.tokens = X.tokens)
    (hold : s.cursor.current = X.old) : passed = X.before ∧ s.cursor.rest = X.after := by
  rw [Cursor.tokens, hold, tokens] at h
  obtain ⟨hbefore, -, hafter⟩ := (List.append_cons_inj_of_notMem old_notMem.1 old_notMem.2).1 h.symm
  exact ⟨hbefore.symm, hafter.symm⟩

/-! ### Cursors -/

section
variable (c : Cursor)

theorem cursor_of_ne (h : c.current ≠ X.old) : (X.cursor c).current = c.current :=
  put_of_ne h

theorem name?_cursor_of_ne (h : c.current ≠ X.old) : (X.cursor c).name? = c.name? :=
  congrArg Token.name? (put_of_ne h)

theorem span_cursor : (X.cursor c).span = c.span :=
  span_put c.current

theorem length_rest_cursor : (X.cursor c).rest.length = c.rest.length :=
  List.length_map _

theorem alike_cursor {k : Token.Kind} (hk : k.Bare) : (X.cursor c).kind.alike k = c.kind.alike k :=
  kind_put (·.alike k) (fun _ h => h.not_alike hk) c.current

theorem atKeyword_cursor {w : Keyword} (hw : w.reserved = true) : (X.cursor c).atKeyword w = c.atKeyword w :=
  decide_eq_decide.2 (keyword?_put_eq_iff hw c.current)

theorem ofKind?_cursor : Infix.ofKind? (X.cursor c).kind = Infix.ofKind? c.kind :=
  kind_put Infix.ofKind? (fun _ h => Infix.ofKind?_of_isName h) c.current

theorem prefixed?_cursor : prefixed? (X.cursor c).kind = prefixed? c.kind :=
  kind_put prefixed? (fun _ h => prefixed?_of_isName h) c.current

theorem next_cursor : (X.cursor c).next = X.put c.next := by
  obtain ⟨source, t, ts⟩ := c
  cases ts <;> rfl

theorem atSubquery_cursor : (X.cursor c).atSubquery = c.atSubquery := by
  have hkind : decide ((X.cursor c).kind = .leftParen) = decide (c.kind = .leftParen) :=
    decide_eq_decide.2 (kind_put_eq_iff (k := .leftParen) trivial c.current)
  have hnext : (X.cursor c).nextIsKeyword .select = c.nextIsKeyword .select := by
    rw [Cursor.nextIsKeyword, next_cursor]
    exact decide_eq_decide.2 (keyword?_put_eq_iff rfl c.next)
  rw [Cursor.atSubquery, Cursor.atSubquery, hkind, hnext]

theorem advance_cursor : (X.cursor c).advance = X.cursor c.advance := by
  have heof : (X.cursor c).kind = .eof ↔ c.kind = .eof := kind_put_eq_iff (k := .eof) trivial c.current
  by_cases hk : c.kind = .eof
  · have hk' : (X.cursor c).kind = .eof := heof.2 hk
    rw [Cursor.advance_of_eof hk, Cursor.advance_of_eof hk']
  · have hk' : (X.cursor c).kind ≠ .eof := mt heof.1 hk
    cases hrest : c.rest with
    | nil =>
      rw [Likeness.advance_of_nil hrest, Likeness.advance_of_nil (by rw [cursor, hrest]; rfl)]
    | cons t ts =>
      rw [Likeness.advance_of_cons hk hrest, Likeness.advance_of_cons hk' (by rw [cursor, hrest]; rfl)]
      rfl

end

/-! ### States -/

theorem complete_of_tokens {passed : List Token} (htokens : passed ++ s.cursor.tokens = X.tokens) :
    Token.Complete s.cursor.tokens := by
  have hcomplete : Token.Complete X.tokens := X.complete
  rw [← htokens] at hcomplete
  exact .of_append (List.cons_ne_nil _ _) hcomplete

theorem At.mem_tokens (h : X.At s) : s.cursor.current ∈ X.tokens := by
  obtain ⟨passed, htokens, -⟩ := h
  rw [← htokens]
  exact List.mem_append_right _ List.mem_cons_self

theorem tokens_advanced {passed : List Token} (htokens : passed ++ s.cursor.tokens = X.tokens)
    (heof : s.cursor.kind ≠ .eof) : passed ++ [s.cursor.current] ++ s.advanced.cursor.tokens = X.tokens := by
  rw [List.append_assoc, ← htokens, Cursor.tokens_advance (complete_of_tokens htokens) heof]
  rfl

/-- Behind one more token that is no point. -/
theorem at_advanced {passed : List Token} (htokens : passed ++ s.cursor.tokens = X.tokens)
    (heof : s.cursor.kind ≠ .eof) (hdot : s.cursor.kind ≠ .dot) : X.At s.advanced :=
  ⟨_, tokens_advanced htokens heof, by simpa using (show s.cursor.current.kind ≠ .dot from hdot)⟩

theorem At.advanced (h : X.At s) (hdot : s.cursor.kind ≠ .dot) : X.At s.advanced := by
  obtain ⟨passed, htokens, hlast⟩ := h
  by_cases heof : s.cursor.kind = .eof
  · refine ⟨passed, ?_, hlast⟩
    rw [State.advanced, Cursor.advance_of_eof heof]
    exact htokens
  · exact at_advanced htokens heof hdot

/-- In front of the name. -/
theorem At.after_eq (h : X.At s) (hold : s.cursor.current = X.old) :
    (∀ t ∈ X.before.getLast?, t.kind ≠ .dot) ∧ X.after = s.advanced.cursor.tokens := by
  obtain ⟨passed, htokens, hlast⟩ := h
  obtain ⟨rfl, hrest⟩ := split_of_current htokens hold
  have hne : s.cursor.kind ≠ .eof := by
    rw [Cursor.kind, hold]
    exact X.isName.ne_of_bare trivial
  have hadvance := Cursor.tokens_advance (complete_of_tokens htokens) hne
  exact ⟨hlast, hrest.symm.trans (List.cons.inj hadvance).2⟩

/-- Whether the name stands alone, as far as the token behind it tells. -/
theorem At.standsAlone_iff (h : X.At s) (hold : s.cursor.current = X.old)
    (hplain : ∀ k, X.old.kind = .keyword k → k.isAggregate = false) :
    X.StandsAlone ↔ s.advanced.cursor.kind ≠ .leftParen ∧ s.advanced.cursor.kind ≠ .dot := by
  obtain ⟨hbefore, hafter⟩ := h.after_eq hold
  have hnext : X.after.head? = some s.advanced.cursor.current := by
    rw [hafter]
    rfl
  constructor
  · exact fun halone => halone.next _ hnext
  · refine fun hkind => ⟨hbefore, fun t ht => ?_, hplain⟩
    obtain rfl := Option.some.inj (hnext.symm.trans ht)
    exact hkind

theorem state_advanced : (X.state s).advanced = X.state s.advanced := by
  simp [State.advanced, state, advance_cursor]

/-! ## The judgement -/

section
variable {α β : Type} {ls : α → List Leaf} {g : α → α} {ms : β → List Leaf} {h : β → β}

variable (X) in
/-- With a value, a parser has come to another of the tokens, and the leaves of the value are sound.  Where the name stands
alone, a second parser comes from the exchanged tokens to what the value is mapped to. -/
def Follows (ls : α → List Leaf) (g : α → α) (s : State) (p p' : Parser α) : Prop :=
  ∀ a t, p s = .ok a t → X.At t ∧ X.Sound (ls a) ∧
    (X.StandsAlone → p' (X.state s) = .ok (g a) (X.state t) ∨ X.Refuses (p' (X.state s)))

variable (X) in
/-- The same parser, of a value that has no leaf and stays as it is. -/
abbrev Keeps (s : State) (p : Parser α) : Prop :=
  X.Follows (fun _ => []) id s p p

theorem Refuses.bind {p : Parser α} (hp : X.Refuses (p s)) (f : α → Parser β) : X.Refuses ((p >>= f) s) := by
  obtain ⟨hword, t, ht, u, herror⟩ := hp
  exact ⟨hword, t, ht, u, bind_of_error herror f⟩

namespace Follows

variable {p p' : Parser α} {f f' : α → Parser β}

theorem pure {a a' : α} (hs : X.At s) (hls : X.Sound (ls a)) (hg : g a = a') :
    X.Follows ls g s (Pure.pure a) (Pure.pure a') := by
  rintro _ _ ⟨⟩
  exact ⟨hs, hls, fun _ => .inl (hg ▸ rfl)⟩

theorem bind (hp : X.Follows ls g s p p')
    (hf : ∀ a t, X.At t → X.Sound (ls a) → X.Follows ms h t (f a) (f' (g a))) :
    X.Follows ms h s (p >>= f) (p' >>= f') := by
  intro b u hr
  obtain ⟨a, t, hpa, hfa⟩ := ok_of_bind hr
  obtain ⟨ht, hls, hrun⟩ := hp a t hpa
  obtain ⟨hu, hms, hrest⟩ := hf a t ht hls b u hfa
  refine ⟨hu, hms, fun halone => ?_⟩
  rcases hrun halone with hrun | hrefused
  · rw [bind_of_ok hrun]
    exact hrest halone
  · exact .inr (hrefused.bind f')

theorem andThen (hp : X.Keeps s p) (hf : ∀ a t, X.At t → X.Follows ms h t (f a) (f' a)) :
    X.Follows ms h s (p >>= f) (p >>= f') :=
  hp.bind fun a t ht _ => hf a t ht

theorem of_fails (hp : ∀ a t, p s ≠ .ok a t) : X.Follows ls g s p p' :=
  fun a t hr => absurd hr (hp a t)

theorem unexpected {expected : String} : X.Follows ls g s (Grammar.unexpected expected) p' :=
  of_fails fun _ _ => nofun

theorem unsupported {construct : String} : X.Follows ls g s (Grammar.unsupported construct) p' :=
  of_fails fun _ _ => nofun

theorem unexpected_bind {expected : String} {q : Parser β} :
    X.Follows ms h s (Grammar.unexpected expected >>= f) q :=
  of_fails fun _ _ => nofun

/-- Parsers that run alike from another state on. -/
theorem of_runs {q q' : Parser α} {t : State} (hp : X.Follows ls g t q q') (hr : p s = q t)
    (hr' : X.StandsAlone → p' (X.state s) = q' (X.state t)) : X.Follows ls g s p p' := by
  intro a u hrun
  obtain ⟨hu, hls, hrest⟩ := hp a u (hr ▸ hrun)
  refine ⟨hu, hls, fun halone => ?_⟩
  rw [hr' halone]
  exact hrest halone

/-! ### Looking -/

section
variable {look? : Cursor → α}

theorem look_bind_cursor (hf : X.Follows ms h s (f (look? s.cursor)) (f' (look? (X.cursor s.cursor)))) :
    X.Follows ms h s (look look? >>= f) (look look? >>= f') :=
  hf

theorem look_bind (hlook : look? (X.cursor s.cursor) = look? s.cursor)
    (hf : X.Follows ms h s (f (look? s.cursor)) (f' (look? s.cursor))) :
    X.Follows ms h s (look look? >>= f) (look look? >>= f') := by
  refine look_bind_cursor ?_
  rw [hlook]
  exact hf

theorem tokensLeft_bind {f f' : Nat → Parser β} (hf : ∀ n, X.Follows ms h s (f n) (f' n)) :
    X.Follows ms h s (tokensLeft >>= f) (tokensLeft >>= f') :=
  look_bind (length_rest_cursor _) (hf _)

end

/-! ### Moving -/

theorem advance_bind {f f' : Unit → Parser β} (hf : X.Follows ms h s.advanced (f ()) (f' ())) :
    X.Follows ms h s (advance >>= f) (advance >>= f') := by
  refine hf.of_runs rfl fun _ => ?_
  rw [← state_advanced]
  rfl

theorem skipWhen_bind {test : Cursor → Bool} {f f' : Bool → Parser β} (htest : test (X.cursor s.cursor) = test s.cursor)
    (htrue : test s.cursor = true → X.Follows ms h s.advanced (f true) (f' true))
    (hfalse : test s.cursor = false → X.Follows ms h s (f false) (f' false)) :
    X.Follows ms h s (skipWhen test >>= f) (skipWhen test >>= f') := by
  rw [Grammar.skipWhen_bind, Grammar.skipWhen_bind]
  refine look_bind htest ?_
  cases ht : test s.cursor with
  | false => exact hfalse ht
  | true => exact advance_bind (htrue ht)

theorem skip_bind {k : Token.Kind} {f f' : Bool → Parser β} (hk : k.Bare)
    (htrue : s.cursor.kind = k → X.Follows ms h s.advanced (f true) (f' true))
    (hfalse : s.cursor.kind.alike k = false → X.Follows ms h s (f false) (f' false)) :
    X.Follows ms h s (skip k >>= f) (skip k >>= f') :=
  skipWhen_bind (alike_cursor _ hk) (fun ht => htrue (Token.Kind.eq_of_alike ht hk)) hfalse

theorem skipKeyword_bind {w : Keyword} {f f' : Bool → Parser β} (hw : w.reserved = true) (hs : X.At s)
    (htrue : X.At s.advanced → X.Follows ms h s.advanced (f true) (f' true))
    (hfalse : X.Follows ms h s (f false) (f' false)) :
    X.Follows ms h s (skipKeyword w >>= f) (skipKeyword w >>= f') :=
  skipWhen_bind (atKeyword_cursor _ hw) (fun ht => htrue (hs.advanced (Cursor.kind_of_atKeyword ht ▸ nofun))) fun _ => hfalse

/-! ### Demanding -/

theorem expect_bind {k : Token.Kind} {f f' : Span → Parser β} (hk : k.Bare) (hdot : k ≠ .dot) (hs : X.At s)
    (hf : X.At s.advanced → X.Follows ms h s.advanced (f s.cursor.span) (f' s.cursor.span)) :
    X.Follows ms h s (expect k >>= f) (expect k >>= f') := by
  unfold expect
  rw [bind_assoc, bind_assoc]
  refine look_bind (span_cursor _) ?_
  rw [bind_assoc, bind_assoc]
  exact skip_bind hk (fun hkind => hf (hs.advanced (hkind ▸ hdot))) fun _ => unexpected_bind

theorem expectKeyword_bind {w : Keyword} {f f' : Span → Parser β} (hw : w.reserved = true) (hs : X.At s)
    (hf : X.At s.advanced → X.Follows ms h s.advanced (f s.cursor.span) (f' s.cursor.span)) :
    X.Follows ms h s (expectKeyword w >>= f) (expectKeyword w >>= f') := by
  unfold expectKeyword
  rw [bind_assoc, bind_assoc]
  refine look_bind (span_cursor _) ?_
  rw [bind_assoc, bind_assoc]
  exact skipKeyword_bind hw hs hf unexpected_bind

theorem expectName_bind {f f' : String → Parser β}
    (hname : X.StandsAlone → (X.cursor s.cursor).name? = s.cursor.name?)
    (hf : ∀ name, s.cursor.name? = some name → X.Follows ms h s.advanced (f name) (f' name)) :
    X.Follows ms h s (expectName >>= f) (expectName >>= f') := by
  cases hn : s.cursor.name? with
  | none =>
    refine of_fails fun b t hr => ?_
    rw [bind_apply, expectName_of_none hn] at hr
    cases hr
  | some name =>
    refine (hf name hn).of_runs (bind_of_ok (expectName_of_some hn) f) fun halone => ?_
    rw [← state_advanced]
    exact bind_of_ok (expectName_of_some ((hname halone).trans hn)) f'

/-! ### Lists -/

theorem separated (hp : ∀ s, X.At s → X.Follows ls g s p p) (rounds : Nat) (hs : X.At s) :
    X.Follows (·.flatMap ls) (·.map g) s (Grammar.separated p rounds) (Grammar.separated p rounds) := by
  induction rounds generalizing s with
  | zero => exact (hp s hs).bind fun a t ht ha => .pure ht (by simpa using ha) rfl
  | succ rounds ih =>
    refine (hp s hs).bind fun a t ht ha => skip_bind trivial (fun hcomma => ?_) fun _ => ?_
    · refine (ih (ht.advanced (hcomma ▸ nofun))).bind fun as u hu has => .pure hu ?_ rfl
      rw [List.flatMap_cons, sound_append]
      exact ⟨ha, has⟩
    · exact .pure ht (by simpa using ha) rfl

theorem commaSeparated (hp : ∀ s, X.At s → X.Follows ls g s p p) (hs : X.At s) :
    X.Follows (·.flatMap ls) (·.map g) s (Grammar.commaSeparated p) (Grammar.commaSeparated p) :=
  tokensLeft_bind fun n => separated hp n hs

end Follows

end

end Exchange

end Grammar

end SelectRouting
