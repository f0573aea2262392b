import SelectRouting.Proofs.Dialect.Departure
import SelectRouting.Proofs.Precedence.Printing
import SelectRouting.Proofs.Prefix.Step
/-!
# Reading known tokens

What a parser does in front of tokens whose kinds are known: it ends with a value, in front of known tokens again (`Ends`).
The rules follow the steps that parsers are made of.  With the tokens goes a number that they are fewer than, so that what
stands behind a token may be nested one level more.
-/
namespace SelectRouting.Grammar

open Token (Kind)

/-! ## States -/

/-- The kind in front, the end of the input if there is no other. -/
def leading (ks : List Kind) : Kind :=
  ks.headD .eof

/-- The kinds of the tokens in front of the end of the input, the ordinal of the next parameter, and a number that the
tokens are fewer than. -/
structure State.Faces (s : State) (ks : List Kind) (n d : Nat) : Prop where
  kinds : s.cursor.tokens.map (·.kind) = ks ++ [.eof]
  complete : Token.Complete s.cursor.tokens
  ordinal : s.statement.parameters = n
  unmarked : s.priorAllowed = false
  fits : ks.length < d

namespace State.Faces

variable {s : State} {k : Kind} {ks : List Kind} {n d : Nat}

theorem weaken (h : s.Faces ks n d) : s.Faces ks n (d + 1) :=
  { h with fits := Nat.lt_succ_of_lt h.fits }

theorem kind (h : s.Faces ks n d) : s.cursor.kind = leading ks := by
  have hkinds := h.kinds
  cases ks with
  | nil => exact (List.cons.inj hkinds).1
  | cons k ks => exact (List.cons.inj hkinds).1

theorem rest (h : s.Faces ks n d) : s.cursor.rest.length = ks.length := by
  have hlength := congrArg List.length h.kinds
  simpa [Cursor.tokens] using hlength

theorem next (h : s.Faces (k :: ks) n d) : s.cursor.next.kind = leading ks := by
  have hkinds : s.cursor.rest.map (·.kind) = ks ++ [.eof] := (List.cons.inj h.kinds).2
  rw [Cursor.next]
  cases hrest : s.cursor.rest with
  | nil => simp [hrest] at hkinds
  | cons t ts =>
    rw [hrest] at hkinds
    cases ks with
    | nil => exact (List.cons.inj hkinds).1
    | cons k ks => exact (List.cons.inj hkinds).1

/-- No nested query stands here, as far as the kind behind a parenthesis tells. -/
theorem not_atSubquery (h : s.Faces (k :: ks) n d) (hk : leading ks ≠ .keyword .select) : s.cursor.atSubquery = false := by
  have hnext : s.cursor.nextIsKeyword .select = false := by
    rw [Cursor.nextIsKeyword, h.next]
    generalize leading ks = k' at hk
    cases k' <;> simp_all [Kind.keyword?]
  rw [Cursor.atSubquery, hnext, Bool.and_false]

/-- Behind a token. -/
theorem advanced (h : s.Faces (k :: ks) n (d + 1)) : s.advanced.Faces ks n d := by
  have hne : s.cursor.kind ≠ .eof := by
    rcases h.complete with ⟨-, hnil⟩ | ⟨hne, -⟩
    · have hlength := h.rest
      rw [hnil] at hlength
      cases hlength
    · exact hne
  have hkinds := h.kinds
  rw [Cursor.tokens_advance h.complete hne] at hkinds
  exact ⟨(List.cons.inj hkinds).2, Cursor.complete_advance h.complete, h.ordinal, h.unmarked, Nat.lt_of_succ_lt_succ h.fits⟩

end State.Faces

/-! ## Parsers -/

/-- A parser ends with a value, in front of known tokens. -/
def Ends (p : Parser α) (s : State) (ks : List Kind) (n d : Nat) (Q : α → Prop) : Prop :=
  ∃ a s', p s = .ok a s' ∧ s'.Faces ks n d ∧ Q a

namespace Ends

variable {α β : Type} {p : Parser α} {Q : β → Prop} {s : State} {k j : Kind} {w : Keyword} {ks ls : List Kind}
  {n m d c : Nat}

theorem pure {b : β} (hs : s.Faces ks n d) (hq : Q b) : Ends (Pure.pure b) s ks n d Q :=
  ⟨b, s, rfl, hs, hq⟩

theorem bind {f : α → Parser β} {P : α → Prop} (hp : Ends p s ks n d P)
    (hf : ∀ a s', s'.Faces ks n d → P a → Ends (f a) s' ls m c Q) : Ends (p >>= f) s ls m c Q := by
  obtain ⟨a, s', ha, hs', hpa⟩ := hp
  obtain ⟨b, s'', hb, h⟩ := hf a s' hs' hpa
  exact ⟨b, s'', (bind_of_ok ha f).trans hb, h⟩

theorem behind {f : α → Parser β} {a : α} {s' : State} (hp : p s = .ok a s') (h : Ends (f a) s' ls m c Q) :
    Ends (p >>= f) s ls m c Q := by
  obtain ⟨b, s'', hb, h⟩ := h
  exact ⟨b, s'', (bind_of_ok hp f).trans hb, h⟩

theorem weaken {b : Parser β} (h : Ends b s ks n d Q) : Ends b s ks n (d + 1) Q := by
  obtain ⟨a, s', hrun, hs', ha⟩ := h
  exact ⟨a, s', hrun, hs'.weaken, ha⟩

theorem look_bind {g : Cursor → α} {f : α → Parser β} (h : Ends (f (g s.cursor)) s ls m c Q) :
    Ends (look g >>= f) s ls m c Q :=
  h

theorem check_bind {f : Bool → Parser β} (hs : s.Faces ks n d) (h : Ends (f ((leading ks).alike j)) s ls m c Q) :
    Ends (check j >>= f) s ls m c Q := by
  rw [← hs.kind] at h
  exact h

theorem advance_bind {f : Unit → Parser β} (hs : s.Faces (k :: ks) n (d + 1))
    (hf : ∀ s', s'.Faces ks n d → Ends (f ()) s' ls m c Q) : Ends (advance >>= f) s ls m c Q :=
  hf _ hs.advanced

theorem skip_bind {f : Bool → Parser β} (hs : s.Faces (k :: ks) n (d + 1)) (hk : k.alike j = true)
    (hf : ∀ s', s'.Faces ks n d → Ends (f true) s' ls m c Q) : Ends (skip j >>= f) s ls m c Q :=
  .behind (skipWhen_of_true (by rw [hs.kind]; exact hk)) (hf _ hs.advanced)

theorem skip_bind_of_not {f : Bool → Parser β} (hs : s.Faces ks n d) (hk : (leading ks).alike j = false)
    (h : Ends (f false) s ls m c Q) : Ends (skip j >>= f) s ls m c Q :=
  .behind (skipWhen_of_false (by rw [hs.kind]; exact hk)) h

theorem skipKeyword_bind {f : Bool → Parser β} (hs : s.Faces (.keyword w :: ks) n (d + 1))
    (hf : ∀ s', s'.Faces ks n d → Ends (f true) s' ls m c Q) : Ends (skipKeyword w >>= f) s ls m c Q :=
  .behind (skipKeyword_of_true hs.kind) (hf _ hs.advanced)

theorem skipKeyword_bind_of_not {f : Bool → Parser β} (hs : s.Faces ks n d) (hk : leading ks ≠ .keyword w)
    (h : Ends (f false) s ls m c Q) : Ends (skipKeyword w >>= f) s ls m c Q := by
  refine .behind (skipKeyword_of_false (Bool.eq_false_iff.2 fun hat => hk ?_)) h
  rw [← hs.kind, Cursor.kind_of_atKeyword hat]

theorem expect_bind {f : Span → Parser β} (hs : s.Faces (k :: ks) n (d + 1)) (hk : k.alike k = true)
    (hf : ∀ span s', s'.Faces ks n d → Ends (f span) s' ls m c Q) : Ends (expect k >>= f) s ls m c Q :=
  .behind (expect_of_kind hs.kind hk) (hf _ _ hs.advanced)

theorem expectKeyword_bind {f : Span → Parser β} (hs : s.Faces (.keyword w :: ks) n (d + 1))
    (hf : ∀ span s', s'.Faces ks n d → Ends (f span) s' ls m c Q) : Ends (expectKeyword w >>= f) s ls m c Q :=
  .behind (expectKeyword_of_true hs.kind) (hf _ _ hs.advanced)

theorem expectName_bind {f : String → Parser β} {name : String} (hs : s.Faces (.identifier name :: ks) n (d + 1))
    (hf : ∀ s', s'.Faces ks n d → Ends (f name) s' ls m c Q) : Ends (expectName >>= f) s ls m c Q := by
  refine .behind (expectName_of_some ?_) (hf _ hs.advanced)
  rw [Cursor.name?, hs.kind, leading, List.headD_cons]

/-- A keyword that is there or not. -/
theorem marking_bind {f : Bool → Parser β} {b : Bool} (hs : s.Faces (Expr.marking w b ++ ks) n d)
    (hk : leading ks ≠ .keyword w) (hf : ∀ s', s'.Faces ks n d → Ends (f b) s' ls m c Q) :
    Ends (skipKeyword w >>= f) s ls m c Q := by
  cases b with
  | false => exact .skipKeyword_bind_of_not hs hk (hf s hs)
  | true => exact .skipKeyword_bind hs.weaken hf

theorem claimParameter (hs : s.Faces ks n d) : Ends claimParameter s ks (n + 1) d (· = n) := by
  refine ⟨n, _, by rw [← hs.ordinal]; rfl, ?_, rfl⟩
  exact { hs with ordinal := congrArg (· + 1) hs.ordinal }

theorem recordTable_bind {rule : Rule} {name : String} {t : Token} {f : Unit → Parser β} (hs : s.Faces ks n d)
    (hf : ∀ s', s'.Faces ks n d → Ends (f ()) s' ls m c Q) : Ends (recordTable rule name t >>= f) s ls m c Q := by
  unfold recordTable
  split
  · exact hf _ { hs with ordinal := hs.ordinal }
  · exact hf s hs

end Ends

end SelectRouting.Grammar
