import Mathlib.Data.Nat.Find
import SelectRouting.Proofs.Token.Balance
/-!
# Where a region is closed

From the opening parenthesis of a region on, the depth of parentheses changes by one at most with each token.  So it stays
above zero up to the first token at which it is zero, and that is the closing parenthesis of the region (`ClosesAt`): what
stands between the two is balanced (`closesAt_iff`).  A counter that starts with the opening parenthesis is that depth as
long as the region is open (`foldl_tally_eq`).
-/
namespace SelectRouting.Token

/-! ## Depth -/

/-- How many more parentheses are opened than closed. -/
def depth (ts : List Token) : Int :=
  openings ts - closings ts

variable {t opening close : Token} {ts us : List Token} {i : Nat}

theorem depth_nil : depth [] = 0 :=
  rfl

theorem depth_append (ts us : List Token) : depth (ts ++ us) = depth ts + depth us := by
  unfold depth
  rw [openings_append, closings_append]
  omega

theorem depth_cons (t : Token) (ts : List Token) : depth (t :: ts) = depth [t] + depth ts :=
  depth_append [t] ts

theorem depth_of_leftParen (h : t.kind = .leftParen) : depth [t] = 1 := by
  simp [depth, openings, closings, h]

theorem depth_of_rightParen (h : t.kind = .rightParen) : depth [t] = -1 := by
  simp [depth, openings, closings, h]

theorem depth_of_other (hl : t.kind ≠ .leftParen) (hr : t.kind ≠ .rightParen) : depth [t] = 0 := by
  simp [depth, openings, closings, hl, hr]

/-- With one more token the depth falls only at a closing parenthesis, and by one. -/
theorem depth_take_succ (ts : List Token) (i : Nat) : depth (ts.take i) ≤ depth (ts.take (i + 1)) ∨
    (∃ t ∈ ts[i]?, t.kind = .rightParen) ∧ depth (ts.take (i + 1)) = depth (ts.take i) - 1 := by
  rw [List.take_add_one, depth_append]
  cases ts[i]? with
  | none => exact .inl (Int.le_add_of_nonneg_right (Int.le_refl 0))
  | some t =>
    rw [show (some t).toList = [t] from rfl]
    by_cases hl : t.kind = .leftParen
    · rw [depth_of_leftParen hl]
      omega
    · by_cases hr : t.kind = .rightParen
      · rw [depth_of_rightParen hr]
        exact .inr ⟨⟨t, rfl, hr⟩, rfl⟩
      · rw [depth_of_other hl hr]
        omega

theorem Balanced.depth_eq (h : Balanced ts) : depth ts = 0 := by
  unfold depth
  rw [h.1]
  omega

/-! ## Regions -/

/-- A region with its parentheses. -/
inductive Region : List Token → Prop where
  | intro {opening close : Token} {inner : List Token} (opened : opening.kind = .leftParen) (balanced : Balanced inner)
    (closed : close.kind = .rightParen) : Region (opening :: (inner ++ [close]))

/-- At one of some tokens, a closing parenthesis, the depth returns to zero for the first time. -/
structure ClosesAt (ts : List Token) (i : Nat) : Prop where
  closing : ∃ t ∈ ts[i]?, t.kind = .rightParen
  zero : depth (ts.take (i + 1)) = 0
  first : ∀ j < i, depth (ts.take (j + 1)) ≠ 0

instance (ts : List Token) (i : Nat) : Decidable (ClosesAt ts i) :=
  decidable_of_iff ((∃ t ∈ ts[i]?, t.kind = .rightParen) ∧ depth (ts.take (i + 1)) = 0 ∧
    ∀ j < i, depth (ts.take (j + 1)) ≠ 0) ⟨fun h => ⟨h.1, h.2.1, h.2.2⟩, fun h => ⟨h.1, h.2, h.3⟩⟩

namespace ClosesAt

theorem unique {j : Nat} (h : ClosesAt ts i) (h' : ClosesAt ts j) : i = j := by
  rcases Nat.lt_trichotomy i j with hlt | rfl | hlt
  · exact absurd h.zero (h'.first i hlt)
  · rfl
  · exact absurd h'.zero (h.first j hlt)

end ClosesAt

section
variable (hopening : opening.kind = .leftParen)
include hopening

theorem depth_take_one : depth ((opening :: ts).take 1) = 1 :=
  depth_of_leftParen hopening

/-- As long as the depth has not been zero, a parenthesis is open. -/
theorem depth_pos_of_ne_zero (h : ∀ j < i, depth ((opening :: ts).take (j + 1)) ≠ 0) :
    ∀ j < i, 1 ≤ depth ((opening :: ts).take (j + 1)) := by
  intro j hj
  induction j with
  | zero => exact Int.le_of_eq (depth_take_one hopening).symm
  | succ j ih =>
    have hne := h (j + 1) hj
    have hpos := ih (Nat.lt_of_succ_lt hj)
    rcases depth_take_succ (opening :: ts) (j + 1) with hrise | ⟨-, hfall⟩ <;> omega

/-- Where the depth is zero, the region has been closed. -/
theorem exists_closesAt (h : depth ((opening :: ts).take (i + 1)) = 0) : ∃ j ≤ i, ClosesAt (opening :: ts) j := by
  have hex : ∃ j, depth ((opening :: ts).take (j + 1)) = 0 := ⟨i, h⟩
  have hzero := Nat.find_spec hex
  have hfirst : ∀ j < Nat.find hex, depth ((opening :: ts).take (j + 1)) ≠ 0 := fun j => Nat.find_min hex
  refine ⟨Nat.find hex, Nat.find_min' hex h, ?_, hzero, hfirst⟩
  cases hj : Nat.find hex with
  | zero =>
    rw [hj, depth_take_one hopening] at hzero
    cases hzero
  | succ j =>
    have hpos := depth_pos_of_ne_zero hopening hfirst j (by omega)
    rw [hj] at hzero
    rcases depth_take_succ (opening :: ts) (j + 1) with hrise | ⟨hclose, -⟩
    · omega
    · exact hclose

theorem ClosesAt.exists_balanced (h : ClosesAt (opening :: ts) i) : ∃ inner close after, ts = inner ++ close :: after ∧
    i = inner.length + 1 ∧ Balanced inner ∧ close.kind = .rightParen := by
  obtain ⟨⟨close, hget, hclose⟩, hzero, hfirst⟩ := h
  have hpos := depth_pos_of_ne_zero hopening hfirst
  cases i with
  | zero =>
    rw [depth_take_one hopening] at hzero
    cases hzero
  | succ k =>
    have hget : ts[k]? = some close := hget
    obtain ⟨hlt, rfl⟩ := List.getElem?_eq_some_iff.1 hget
    have hlength : (ts.take k).length = k := List.length_take_of_le (Nat.le_of_lt hlt)
    refine ⟨ts.take k, ts[k], ts.drop (k + 1), ?_, by rw [hlength], Leads.balanced ⟨?_, fun us vs hus => ?_⟩, hclose⟩
    · rw [← List.drop_eq_getElem_cons hlt, List.take_append_drop]
    · rw [List.take_succ_cons, depth_cons, depth_of_leftParen hopening, ← List.take_append_getElem hlt, depth_append,
        depth_of_rightParen hclose, depth] at hzero
      omega
    · have hle : us.length ≤ k := by
        rw [← hlength, hus, List.length_append]
        exact Nat.le_add_right ..
      have hprefix : ts.take us.length = us := by
        have htake := congrArg (List.take us.length) hus
        rwa [List.take_take, Nat.min_eq_left hle, List.take_left] at htake
      have hopen := hpos us.length (by omega)
      rw [List.take_succ_cons, hprefix, depth_cons, depth_of_leftParen hopening, depth] at hopen
      omega

theorem closesAt_of_balanced {inner after : List Token} (hinner : Balanced inner) (hclose : close.kind = .rightParen) :
    ClosesAt (opening :: (inner ++ close :: after)) (inner.length + 1) := by
  refine ⟨⟨close, by simp, hclose⟩, ?_, fun j hj => ?_⟩
  · have hregion : (inner ++ close :: after).take (inner.length + 1) = inner ++ [close] := by
      rw [List.take_length_add_append]
      rfl
    rw [List.take_succ_cons, hregion, depth_cons, depth_append, depth_of_leftParen hopening, hinner.depth_eq,
      depth_of_rightParen hclose]
    rfl
  · have hprefix := hinner.2 j (by omega)
    rw [List.take_succ_cons, depth_cons, depth_of_leftParen hopening, List.take_append_of_le_length (by omega), depth]
    omega

/-- **A region ends where the depth first returns to zero.** -/
theorem closesAt_iff : ClosesAt (opening :: ts) i ↔
    ∃ inner close after, ts = inner ++ close :: after ∧ i = inner.length + 1 ∧ Balanced inner ∧
      close.kind = .rightParen := by
  refine ⟨fun h => h.exists_balanced hopening, ?_⟩
  rintro ⟨inner, close, after, rfl, rfl, hinner, hclose⟩
  exact closesAt_of_balanced hopening hinner hclose

end

namespace Region

theorem ne_nil (h : Region ts) : ts ≠ [] := by
  cases h
  exact List.cons_ne_nil _ _

theorem exists_opening (h : Region ts) : ∃ t us, ts = t :: us ∧ t.kind = .leftParen := by
  cases h with
  | intro opened => exact ⟨_, _, rfl, opened⟩

theorem closesAt (h : Region ts) (us : List Token) : ClosesAt (ts ++ us) (ts.length - 1) := by
  cases h with
  | @intro opening close inner opened balanced closed =>
    refine (closesAt_iff opened).2 ⟨inner, close, us, (List.append_cons inner close us).symm, ?_, balanced, closed⟩
    rw [List.length_cons, List.length_append]
    rfl

/-- A region is not the beginning of another one. -/
theorem unique {us vs : List Token} (hts : Region ts) (hus : Region us) {ws : List Token}
    (h : ts ++ vs = us ++ ws) : ts = us ∧ vs = ws := by
  have hcloses := (hts.closesAt vs).unique (h ▸ hus.closesAt ws)
  have hlts := List.length_pos_iff.2 hts.ne_nil
  have hlus := List.length_pos_iff.2 hus.ne_nil
  exact List.append_inj h (by omega)

end Region

/-! ## The counter -/

/-- A counter of open parentheses behind one more token; below zero it does not go. -/
def tally (n : Nat) (t : Token) : Nat :=
  match t.kind with
  | .leftParen => n + 1
  | .rightParen => n - 1
  | _ => n

theorem tally_eq {n : Nat} (hn : 1 ≤ n) (t : Token) : (tally n t : Int) = n + depth [t] := by
  by_cases hl : t.kind = .leftParen
  · rw [tally, hl, depth_of_leftParen hl]
    rfl
  · by_cases hr : t.kind = .rightParen
    · rw [tally, hr, depth_of_rightParen hr]
      show ((n - 1 : Nat) : Int) = n + -1
      omega
    · rw [depth_of_other hl hr, tally]
      split
      · contradiction
      · contradiction
      · exact (Int.add_zero _).symm

/-- As long as a parenthesis is open the counter is the depth. -/
theorem foldl_tally_eq {n : Nat} (h : ∀ us, us <+: ts → 1 ≤ n + depth us) :
    ((ts.foldl tally n : Nat) : Int) = n + depth ts := by
  induction ts generalizing n with
  | nil => exact (Int.add_zero _).symm
  | cons t ts ih =>
    have hn := h [] List.nil_prefix
    rw [depth_nil] at hn
    have htally := tally_eq (n := n) (by omega) t
    rw [List.foldl_cons, ih fun us hus => ?_, htally, depth_cons t ts, Int.add_assoc]
    have hopen := h (t :: us) (List.cons_prefix_cons.2 ⟨rfl, hus⟩)
    rw [depth_cons] at hopen
    omega

end SelectRouting.Token
