import SelectRouting.Proofs.Token.Balance
import SelectRouting.Proofs.Trace.Step
/-!
# How far a parser sees

A parser sees the current token and, where that is `AS`, `VERSIONS` or an opening parenthesis, whether a certain word
stands behind it.  Two cursors are alike when this is the same for both, the parenthesis left aside (`Alike`).  Cursors
that reach cursors which are alike over the same tokens are alike themselves (`Alike.of_reaches`).
-/
namespace SelectRouting.Cursor

variable {c c' c'' b b' u w : Cursor} {ts us : List Token}

/-! ## Tokens that lead from one cursor to another -/

structure Reaches (c : Cursor) (ts : List Token) (c' : Cursor) : Prop where
  tokens : c.tokens = ts ++ c'.tokens
  source : c.source = c'.source

theorem eq_of_tokens (hs : c.source = c'.source) (ht : c.tokens = c'.tokens) : c = c' := by
  obtain ⟨source, t, ts⟩ := c
  obtain ⟨source', t', ts'⟩ := c'
  obtain ⟨rfl, rfl⟩ := List.cons.inj ht
  cases hs
  rfl

namespace Reaches

theorem refl : Reaches c [] c :=
  ⟨rfl, rfl⟩

theorem eq (h : Reaches c [] c') : c = c' :=
  eq_of_tokens h.source h.tokens

theorem trans (h : Reaches c ts c') (h' : Reaches c' us c'') : Reaches c (ts ++ us) c'' :=
  ⟨by rw [h.tokens, h'.tokens, List.append_assoc], h.source.trans h'.source⟩

theorem split (h : Reaches c (ts ++ us) c'') : ∃ c', Reaches c ts c' ∧ Reaches c' us c'' := by
  cases hus : us ++ c''.tokens with
  | nil => exact absurd (List.append_eq_nil_iff.1 hus).2 (List.cons_ne_nil _ _)
  | cons t rest =>
    refine ⟨⟨c.source, t, rest⟩, ⟨?_, rfl⟩, ⟨hus.symm, h.source⟩⟩
    rw [h.tokens, List.append_assoc, hus]
    rfl

/-- There is one way only from a cursor to another. -/
theorem unique (h : Reaches c ts c') (h' : Reaches c us c') : ts = us :=
  List.append_cancel_right (h.tokens.symm.trans h'.tokens)

theorem complete (h : Reaches c ts c') (hc : Token.Complete c.tokens) : Token.Complete c'.tokens :=
  .of_append (List.cons_ne_nil _ _) (h.tokens ▸ hc)

theorem length_rest (h : Reaches c ts c') : ts.length + c'.rest.length = c.rest.length := by
  have hlength : (c.current :: c.rest).length = (ts ++ c'.current :: c'.rest).length := congrArg List.length h.tokens
  rw [List.length_append, List.length_cons, List.length_cons] at hlength
  omega

theorem advance (hc : Token.Complete c.tokens) (hk : c.kind ≠ .eof) : Reaches c [c.current] c.advance := by
  refine ⟨tokens_advance hc hk, ?_⟩
  unfold Cursor.advance
  split <;> rfl

/-- A way that begins with the current token. -/
theorem current_eq {t : Token} (h : Reaches c (t :: ts) c') : c.current = t :=
  (List.cons.inj h.tokens).1

theorem advance_of_cons {t : Token} (hc : Token.Complete c.tokens) (h : Reaches c (t :: ts) c') :
    c.kind ≠ .eof ∧ Reaches c.advance ts c' := by
  have hk : c.kind ≠ .eof := by
    intro heof
    have hts := tokens_of_eof hc heof
    rw [h.tokens] at hts
    exact List.cons_ne_nil _ _ (List.append_eq_nil_iff.1 (List.cons.inj hts).2).2
  refine ⟨hk, ?_, (advance hc hk).source.symm.trans h.source⟩
  have htokens := (tokens_advance hc hk).symm.trans h.tokens
  exact (List.cons.inj htokens).2

end Reaches

/-! ## Cursors that are alike -/

/-- In front of `AS OF`, which is no alias. -/
def atAsOf (c : Cursor) : Bool :=
  c.atKeyword .as && c.nextIsKeyword .of

/-- In front of `VERSIONS BETWEEN`. -/
def atVersionsBetween (c : Cursor) : Bool :=
  c.atKeyword .versions && c.nextIsKeyword .between

structure Alike (c c' : Cursor) : Prop where
  current : c'.current = c.current
  atAsOf : c'.atAsOf = c.atAsOf
  atVersionsBetween : c'.atVersionsBetween = c.atVersionsBetween

namespace Alike

theorem refl : Alike c c :=
  ⟨rfl, rfl, rfl⟩

theorem of_next (hcurrent : c'.current = c.current) (hnext : c'.next = c.next) : Alike c c' := by
  have hword : ∀ k, c'.atKeyword k = c.atKeyword k := fun k => by
    rw [atKeyword, atKeyword, keyword?, keyword?, kind, kind, hcurrent]
  have hbehind : ∀ k, c'.nextIsKeyword k = c.nextIsKeyword k := fun k => by rw [nextIsKeyword, nextIsKeyword, hnext]
  exact ⟨hcurrent, by rw [Cursor.atAsOf, Cursor.atAsOf, hword, hbehind],
    by rw [Cursor.atVersionsBetween, Cursor.atVersionsBetween, hword, hbehind]⟩

/-- Behind most tokens nothing is seen. -/
theorem of_current (h : c'.current = c.current) (has : c.kind ≠ .keyword .as) (hversions : c.kind ≠ .keyword .versions) :
    Alike c c' := by
  have hword : ∀ k, c.kind ≠ .keyword k → c.atKeyword k = false ∧ c'.atKeyword k = false := by
    intro k hk
    have hat : c'.atKeyword k = c.atKeyword k := congrArg (fun t : Token => decide (t.kind.keyword? = some k)) h
    rw [hat, and_self]
    exact Bool.eq_false_iff.2 fun h => hk (kind_of_atKeyword h)
  refine ⟨h, ?_, ?_⟩
  · rw [Cursor.atAsOf, Cursor.atAsOf, (hword _ has).1, (hword _ has).2, Bool.false_and, Bool.false_and]
  · rw [Cursor.atVersionsBetween, Cursor.atVersionsBetween, (hword _ hversions).1, (hword _ hversions).2, Bool.false_and,
      Bool.false_and]

/-- Two tokens are as much as a parser sees. -/
theorem of_two {t t' : Token} (h : Reaches c (t :: t' :: ts) c') (h' : Reaches b (t :: t' :: us) b') : Alike c b := by
  have hc := (List.cons.inj h.tokens).2
  have hb := (List.cons.inj h'.tokens).2
  refine of_next (h'.current_eq.trans h.current_eq.symm) ?_
  rw [next, next, hc, hb]
  rfl

theorem of_reaches (h : Alike u w) (hu : Reaches c ts u) (hw : Reaches b ts w) : Alike c b := by
  cases ts with
  | nil => rwa [hu.eq, hw.eq]
  | cons t ts =>
    have hc := (List.cons.inj hu.tokens).2
    have hb := (List.cons.inj hw.tokens).2
    refine of_next (hw.current_eq.trans hu.current_eq.symm) ?_
    rw [next, next, hc, hb]
    cases ts with
    | nil => exact h.current
    | cons t' ts => rfl

end Alike

/-! ## Regions -/

/-- What leaving a region comes to: behind its closing parenthesis, whatever follows that; or the end of the input. -/
theorem leaveRegion_settled (hc : Token.Complete c.tokens) :
    (∃ close region, c.leaveRegion.1 = some close ∧ close.kind = .rightParen ∧
      Reaches c (region ++ [close]) c.leaveRegion.2 ∧
      ∀ b b', Reaches b (region ++ [close]) b' → b.leaveRegion = (some close, b')) ∨
    (c.leaveRegion.1 = none ∧ c.leaveRegion.2.kind = .eof ∧ ∃ ts, Reaches c ts c.leaveRegion.2 ∧
      c.tokens = ts ++ [c.leaveRegion.2.current]) := by
  obtain ⟨hsource, ⟨region, close, hsome, hclose, hinside, hts⟩ | ⟨hnone, -, heof, hlast, ts, hts⟩⟩ := leaveRegion_cases hc
  · refine .inl ⟨close, region, hsome, hclose, ⟨?_, hsource.symm⟩, fun b b' hb => ?_⟩
    · rw [List.append_assoc]
      exact hts
    · refine leaveRegion_of_closing? ?_ hb.source
      rw [hb.tokens, List.append_assoc]
      exact hinside.closing?_append hclose b'.tokens
  · refine .inr ⟨hnone, heof, ts, ⟨?_, hsource.symm⟩, hts⟩
    rwa [hlast]

end SelectRouting.Cursor
