import SelectRouting.Proofs.Token.Order
import SelectRouting.Cursor
/-!
# The parenthesis that closes a region

The loop that looks for the parenthesis that closes a region passes tokens that close every parenthesis they open
(`Inside`), and it finds the one behind them (`closing?_eq_some`, `Inside.closing?_append`).  So leaving a region ends
behind its closing parenthesis, or at the end of the input if nothing closes it (`leaveRegion_cases`).
-/
namespace SelectRouting.Cursor

variable {t close : Token} {ts region after : List Token} {depth : Nat}

/-! ## The search, token by token -/

theorem closing?_leftParen (h : t.kind = .leftParen) (depth : Nat) (ts : List Token) :
    closing? depth (t :: ts) = closing? (depth + 1) ts := by
  simp [closing?, h]

theorem closing?_rightParen (h : t.kind = .rightParen) (depth : Nat) (ts : List Token) :
    closing? depth (t :: ts) = match depth with
      | 0 => some (t, ts)
      | depth + 1 => closing? depth ts := by
  cases depth <;> simp [closing?, h]

theorem closing?_eof (h : t.kind = .eof) (depth : Nat) (ts : List Token) : closing? depth (t :: ts) = none := by
  simp [closing?, h]

theorem closing?_other (hl : t.kind ≠ .leftParen) (hr : t.kind ≠ .rightParen) (he : t.kind ≠ .eof) (depth : Nat)
    (ts : List Token) : closing? depth (t :: ts) = closing? depth ts := by
  conv => lhs; unfold closing?
  split <;> simp_all

/-! ## Inside a region -/

/-- Tokens inside a region that close, one by one, the parentheses open in front of them and those that they open. -/
inductive Inside : Nat → List Token → Prop where
  | nil : Inside 0 []
  | opening {depth : Nat} {t : Token} {ts : List Token} (head : t.kind = .leftParen) (tail : Inside (depth + 1) ts) :
    Inside depth (t :: ts)
  | closing {depth : Nat} {t : Token} {ts : List Token} (head : t.kind = .rightParen) (tail : Inside depth ts) :
    Inside (depth + 1) (t :: ts)
  | pass {depth : Nat} {t : Token} {ts : List Token} (left : t.kind ≠ .leftParen) (right : t.kind ≠ .rightParen)
    (inner : t.kind ≠ .eof) (tail : Inside depth ts) : Inside depth (t :: ts)

/-- What the search has passed, with what it finds behind it. -/
theorem closing?_eq_some (h : closing? depth ts = some (close, after)) :
    ∃ region, ts = region ++ close :: after ∧ close.kind = .rightParen ∧ Inside depth region := by
  induction ts generalizing depth with
  | nil => cases h
  | cons t ts ih =>
    by_cases hl : t.kind = .leftParen
    · rw [closing?_leftParen hl] at h
      obtain ⟨region, rfl, hclose, hinside⟩ := ih h
      exact ⟨t :: region, rfl, hclose, .opening hl hinside⟩
    by_cases hr : t.kind = .rightParen
    · rw [closing?_rightParen hr] at h
      cases depth with
      | zero =>
        cases h
        exact ⟨[], rfl, hr, .nil⟩
      | succ depth =>
        obtain ⟨region, rfl, hclose, hinside⟩ := ih h
        exact ⟨t :: region, rfl, hclose, .closing hr hinside⟩
    by_cases he : t.kind = .eof
    · rw [closing?_eof he] at h
      cases h
    · rw [closing?_other hl hr he] at h
      obtain ⟨region, rfl, hclose, hinside⟩ := ih h
      exact ⟨t :: region, rfl, hclose, .pass hl hr he hinside⟩

/-- Behind the inside of a region the search finds its closing parenthesis, whatever follows. -/
theorem Inside.closing?_append (h : Inside depth region) (hclose : close.kind = .rightParen) (after : List Token) :
    closing? depth (region ++ close :: after) = some (close, after) := by
  induction h with
  | nil => exact closing?_rightParen hclose 0 after
  | opening head _ ih => rw [List.cons_append, closing?_leftParen head, ih]
  | closing head _ ih =>
    rw [List.cons_append, closing?_rightParen head]
    exact ih
  | pass left right inner _ ih => rw [List.cons_append, closing?_other left right inner, ih]

/-! ## Leaving a region -/

/-- A closing parenthesis is not the end of the input, so there is a token behind it. -/
theorem tokens_moveTo (h : Token.Complete (close :: after)) (hclose : close.kind = .rightParen) (c : Cursor) :
    (c.moveTo close after).tokens = after := by
  cases after with
  | cons t ts => rfl
  | nil =>
    rcases h with ⟨heof, -⟩ | ⟨-, h⟩
    · rw [hclose] at heof
      cases heof
    · exact h.elim

theorem source_moveTo (c : Cursor) (last : Token) (ts : List Token) : (c.moveTo last ts).source = c.source := by
  cases ts <;> rfl

/-- The end of the input is the last token. -/
theorem atEnd_of_complete (h : Token.Complete (t :: ts)) :
    ∃ passed last, t :: ts = passed ++ [last] ∧ last.kind = .eof ∧ atEnd t ts = (last, []) := by
  induction ts generalizing t with
  | nil =>
    rcases h with ⟨heof, -⟩ | ⟨-, h⟩
    · exact ⟨[], t, rfl, heof, rfl⟩
    · exact h.elim
  | cons t' ts ih =>
    rcases h with ⟨-, hnil⟩ | ⟨hne, h⟩
    · cases hnil
    · obtain ⟨passed, last, hts, heof, hend⟩ := ih h
      refine ⟨t :: passed, last, congrArg _ hts, heof, ?_⟩
      rw [atEnd, if_neg hne, hend]

/-- Behind the closing parenthesis that the search finds, at a cursor in front of what follows it. -/
theorem leaveRegion_of_closing? {c c' : Cursor} (h : closing? 0 c.tokens = some (close, c'.tokens))
    (hsource : c.source = c'.source) : c.leaveRegion = (some close, c') := by
  unfold leaveRegion
  rw [h]
  obtain ⟨source, t, ts⟩ := c'
  obtain rfl : c.source = source := hsource
  rfl

/-- What leaving a region comes to: behind its closing parenthesis, or at the end of the input if there is none. -/
theorem leaveRegion_cases {c : Cursor} (hc : Token.Complete c.tokens) : c.leaveRegion.2.source = c.source ∧
    ((∃ region close, c.leaveRegion.1 = some close ∧ close.kind = .rightParen ∧ Inside 0 region ∧
        c.tokens = region ++ close :: c.leaveRegion.2.tokens) ∨
      (c.leaveRegion.1 = none ∧ closing? 0 c.tokens = none ∧ c.leaveRegion.2.kind = .eof ∧
        c.leaveRegion.2.tokens = [c.leaveRegion.2.current] ∧ ∃ passed, c.tokens = passed ++ [c.leaveRegion.2.current])) := by
  unfold leaveRegion
  cases h : closing? 0 c.tokens with
  | some r =>
    obtain ⟨close, after⟩ := r
    obtain ⟨region, hts, hclose, hinside⟩ := closing?_eq_some h
    refine ⟨source_moveTo c close after, .inl ⟨region, close, rfl, hclose, hinside, ?_⟩⟩
    rw [tokens_moveTo (.of_append (List.cons_ne_nil _ _) (hts ▸ hc)) hclose]
    exact hts
  | none =>
    obtain ⟨passed, last, hts, heof, hend⟩ := atEnd_of_complete hc
    dsimp only
    rw [hend]
    exact ⟨rfl, .inr ⟨rfl, rfl, heof, rfl, passed, hts⟩⟩

end SelectRouting.Cursor
