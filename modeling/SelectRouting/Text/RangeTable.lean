/-!
# Sets of code points as tables of ranges

A character class of a standard is a table of closed intervals of code points in ascending order, and the table carries the
proof of its order.  A look-up walks the intervals and stops at the first one that starts behind the code point, so a
character near the front of the table costs a few comparisons however long the table is, and the early stop loses nothing
(`RangeTable.contains_iff`).
-/
namespace SelectRouting.Text

/-- Each interval `(first, last)` is non-empty and ends before the next one starts; `floor` is what the first has to
reach. -/
def ascendsFrom : Nat → List (Nat × Nat) → Bool
  | _, [] => true
  | floor, (first, last) :: rest => floor ≤ first && first ≤ last && ascendsFrom (last + 1) rest

/-- Closed intervals of code points. -/
structure RangeTable where
  ranges : List (Nat × Nat)
  ascending : ascendsFrom 0 ranges = true

/-- Whether a code point is in one of some intervals, up to the first one behind it. -/
def searchRanges : List (Nat × Nat) → Nat → Bool
  | [], _ => false
  | (first, last) :: rest, n => if n < first then false else n ≤ last || searchRanges rest n

def RangeTable.contains (t : RangeTable) (n : Nat) : Bool :=
  searchRanges t.ranges n

theorem ascendsFrom_cons {floor : Nat} {r : Nat × Nat} {rs : List (Nat × Nat)} :
    ascendsFrom floor (r :: rs) = true ↔ floor ≤ r.1 ∧ r.1 ≤ r.2 ∧ ascendsFrom (r.2 + 1) rs = true := by
  simp only [ascendsFrom, Bool.and_eq_true, decide_eq_true_eq, and_assoc]

/-- Ascending intervals all reach the floor. -/
theorem le_of_mem_of_ascendsFrom {floor : Nat} {rs : List (Nat × Nat)} (h : ascendsFrom floor rs = true) :
    ∀ r ∈ rs, floor ≤ r.1 := by
  induction rs generalizing floor with
  | nil => exact nofun
  | cons s rs ih =>
    obtain ⟨hfloor, hs, hrs⟩ := ascendsFrom_cons.1 h
    intro r hr
    rcases List.mem_cons.1 hr with rfl | hr
    · exact hfloor
    · have := ih hrs r hr
      omega

theorem searchRanges_iff {floor : Nat} {rs : List (Nat × Nat)} (h : ascendsFrom floor rs = true) (n : Nat) :
    searchRanges rs n = true ↔ ∃ r ∈ rs, r.1 ≤ n ∧ n ≤ r.2 := by
  induction rs generalizing floor with
  | nil => simp [searchRanges]
  | cons s rs ih =>
    obtain ⟨-, hs, hrs⟩ := ascendsFrom_cons.1 h
    rw [searchRanges]
    by_cases hn : n < s.1
    · -- All intervals start behind the code point.
      have hall : ∀ r ∈ s :: rs, n < r.1 := by
        refine List.forall_mem_cons.2 ⟨hn, fun r hr => ?_⟩
        have := le_of_mem_of_ascendsFrom hrs r hr
        omega
      rw [if_pos hn]
      constructor
      · exact nofun
      · rintro ⟨r, hr, hfirst, -⟩
        exact absurd hfirst (Nat.not_le_of_lt (hall r hr))
    · rw [if_neg hn, Bool.or_eq_true, decide_eq_true_eq, ih hrs]
      constructor
      · rintro (hlast | ⟨r, hr, hn⟩)
        · exact ⟨s, List.mem_cons_self, Nat.le_of_not_lt hn, hlast⟩
        · exact ⟨r, List.mem_cons_of_mem s hr, hn⟩
      · rintro ⟨r, hr, hfirst, hlast⟩
        rcases List.mem_cons.1 hr with rfl | hr
        · exact .inl hlast
        · exact .inr ⟨r, hr, hfirst, hlast⟩

/-- The look-up finds exactly the code points of its intervals. -/
theorem RangeTable.contains_iff (t : RangeTable) (n : Nat) :
    t.contains n = true ↔ ∃ r ∈ t.ranges, r.1 ≤ n ∧ n ≤ r.2 :=
  searchRanges_iff t.ascending n

end SelectRouting.Text
