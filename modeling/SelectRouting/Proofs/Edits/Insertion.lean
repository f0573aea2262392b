import Mathlib.Data.List.Basic
import SelectRouting.Proofs.Edits
/-!
# Edits recorded in any order

The place of a new edit can be searched by halving, and such a search answers the end of the edits that pass its test only
if these are in front of all others (`Search.partitionPoint_append`).  They are at every point, whatever the edits are and
in whatever order they come, since what is searched is always in order; so the edits recorded are those that came, sorted
stably by their places (`edits_of_added`).
-/
namespace SelectRouting

/-! ## Searching by halving -/

namespace Search

variable {α : Type} {test : α → Bool}

/-- All entries that pass a test are in front of all others. -/
def Partitioned (test : α → Bool) (es : List α) : Prop :=
  ∃ front back, es = front ++ back ∧ (∀ x ∈ front, test x = true) ∧ ∀ x ∈ back, test x = false

/-- Goes on with one half of the `size` entries from `base` on, until there is one entry left, which decides. -/
def halving (test : α → Bool) (es : List α) (base size : Nat) : Nat :=
  if 1 < size then
    let middle := base + size / 2
    halving test es (if es[middle]?.any test then middle else base) (size - size / 2)
  else if es[base]?.any test then base + 1 else base
termination_by size
decreasing_by omega

/-- How many entries pass a test, if these are in front of all others. -/
def partitionPoint (test : α → Bool) (es : List α) : Nat :=
  halving test es 0 es.length

section
variable {front back : List α} (hfront : ∀ x ∈ front, test x = true) (hback : ∀ x ∈ back, test x = false)
include hfront hback

theorem any_getElem?_append (i : Nat) : (front ++ back)[i]?.any test = true ↔ i < front.length := by
  by_cases hi : i < front.length
  · simp [List.getElem?_append_left hi, hfront, hi]
  · rw [List.getElem?_append_right (Nat.le_of_not_lt hi)]
    cases h : back[i - front.length]? with
    | none => simp [hi]
    | some x => simp [hi, hback x (List.mem_of_getElem? h)]

/-- The end of the front stays within the entries that are left. -/
theorem halving_append (base size : Nat) (hbase : base ≤ front.length) (hsize : front.length ≤ base + size) :
    halving test (front ++ back) base size = front.length := by
  rw [halving]
  simp only [any_getElem?_append hfront hback]
  by_cases hmore : 1 < size
  · rw [if_pos hmore]
    by_cases hmiddle : base + size / 2 < front.length
    · rw [if_pos hmiddle]
      exact halving_append _ _ (by omega) (by omega)
    · rw [if_neg hmiddle]
      exact halving_append _ _ hbase (by omega)
  · rw [if_neg hmore]
    by_cases hlast : base < front.length
    · rw [if_pos hlast]
      omega
    · rw [if_neg hlast]
      omega
termination_by size
decreasing_by all_goals omega

theorem partitionPoint_append : partitionPoint test (front ++ back) = front.length :=
  halving_append hfront hback 0 _ (Nat.zero_le _) (by simp)

end

end Search

namespace Edit

/-! ## One edit -/

/-- Edits in order are divided by the place of a new one, which is put in between. -/
theorem exists_divided (e : Edit) : ∀ {es : List Edit}, Ordered es → ∃ front back, es = front ++ back ∧
    (∀ x ∈ front, decide (x.start ≤ e.start) = true) ∧ (∀ x ∈ back, decide (x.start ≤ e.start) = false) ∧
    insert e es = es.insertIdx front.length e
  | [], _ => ⟨[], [], rfl, nofun, nofun, rfl⟩
  | x :: xs, h => by
    have ⟨hx, hxs⟩ := List.pairwise_cons.1 h
    rw [insert_cons]
    by_cases hle : x.start ≤ e.start
    · obtain ⟨front, back, rfl, hfront, hback, hinsert⟩ := exists_divided e hxs
      rw [if_pos hle, hinsert]
      exact ⟨x :: front, back, rfl, List.forall_mem_cons.2 ⟨decide_eq_true hle, hfront⟩, hback, rfl⟩
    · rw [if_neg hle]
      refine ⟨[], x :: xs, rfl, nofun, List.forall_mem_cons.2 ⟨decide_eq_false hle, fun y hy => ?_⟩, rfl⟩
      have := hx y hy
      exact decide_eq_false (by omega)

/-- What is searched for the place of an edit is divided, and the edit is inserted where the search ends. -/
theorem insert_eq_insertIdx {e : Edit} {es : List Edit} (h : Ordered es) :
    Search.Partitioned (fun x => x.start ≤ e.start) es ∧
      insert e es = es.insertIdx (Search.partitionPoint (fun x => x.start ≤ e.start) es) e := by
  obtain ⟨front, back, rfl, hfront, hback, hinsert⟩ := exists_divided e h
  refine ⟨⟨front, back, rfl, hfront, hback⟩, ?_⟩
  rw [hinsert, Search.partitionPoint_append hfront hback]

/-! ## Sorting -/

theorem foldl_insert_ordered : ∀ {acc : List Edit} (es : List Edit), Ordered acc →
    Ordered (es.foldl (fun es e => e.insert es) acc)
  | _, [], h => h
  | _, e :: es, h => foldl_insert_ordered es (insert_ordered e h)

theorem foldl_insert_perm : ∀ es acc : List Edit, (es.foldl (fun es e => e.insert es) acc).Perm (acc ++ es)
  | [], acc => by simp
  | e :: es, acc => by
    have hinsert : (insert e acc ++ es).Perm (acc ++ e :: es) :=
      ((insert_perm e acc).append_right es).trans List.perm_middle.symm
    exact (foldl_insert_perm es (insert e acc)).trans hinsert

/-- Edits at one place stay in the order in which they come. -/
theorem filter_foldl_insert (place : Nat) : ∀ {es acc : List Edit}, Ordered acc →
    (es.foldl (fun es e => e.insert es) acc).filter (·.start = place) =
      acc.filter (·.start = place) ++ es.filter (·.start = place)
  | [], acc, _ => by simp
  | e :: es, acc, h => by
    rw [List.foldl_cons, filter_foldl_insert place (insert_ordered e h)]
    by_cases he : e.start = place
    · have hlast : ∀ x ∈ acc.filter (·.start = place), x.start ≤ e.start := fun x hx => by
        have hx : x.start = place := by simpa using (List.mem_filter.1 hx).2
        omega
      rw [filter_insert_of_pos (by simpa using he) h, insert_of_forall_le hlast]
      simp [he]
    · rw [filter_insert_of_neg (by simpa using he), List.filter_cons_of_neg (by simpa using he)]

/-- Edits in order that agree at each place are the same. -/
theorem eq_of_filter_eq : ∀ {es es' : List Edit}, Ordered es → Ordered es' →
    (∀ place, es.filter (·.start = place) = es'.filter (·.start = place)) → es = es'
  | [], [], _, _, _ => rfl
  | [], y :: ys, _, _, h => by simpa using h y.start
  | x :: xs, [], _, _, h => by simpa using h x.start
  | x :: xs, y :: ys, hx, hy, h => by
    have ⟨hfirst, hxs⟩ := List.pairwise_cons.1 hx
    have ⟨hfirst', hys⟩ := List.pairwise_cons.1 hy
    have hmem : ∀ z, z ∈ x :: xs ↔ z ∈ y :: ys := fun z => by
      have hplace := congrArg (z ∈ ·) (h z.start)
      simpa only [List.mem_filter, decide_true, and_true, eq_iff_iff] using hplace
    have hle : x.start ≤ y.start := by
      rcases List.mem_cons.1 ((hmem y).2 List.mem_cons_self) with rfl | hmem
      · exact Nat.le_refl _
      · exact hfirst y hmem
    have hle' : y.start ≤ x.start := by
      rcases List.mem_cons.1 ((hmem x).1 List.mem_cons_self) with rfl | hmem
      · exact Nat.le_refl _
      · exact hfirst' x hmem
    have hstart : y.start = x.start := Nat.le_antisymm hle' hle
    have hheads := h x.start
    rw [List.filter_cons_of_pos (by simp), List.filter_cons_of_pos (by simpa using hstart)] at hheads
    obtain rfl := (List.cons.inj hheads).1
    refine congrArg (x :: ·) (eq_of_filter_eq hxs hys fun place => ?_)
    have hplace := h place
    by_cases hx : x.start = place
    · rw [List.filter_cons_of_pos (by simpa using hx), List.filter_cons_of_pos (by simpa using hx)] at hplace
      exact (List.cons.inj hplace).2
    · rwa [List.filter_cons_of_neg (by simpa using hx), List.filter_cons_of_neg (by simpa using hx)] at hplace

/-- No later than. -/
def notAfter (a b : Edit) : Bool :=
  a.start ≤ b.start

theorem notAfter_trans (a b c : Edit) (hab : notAfter a b = true) (hbc : notAfter b c = true) : notAfter a c = true := by
  simp only [notAfter, decide_eq_true_eq] at *
  omega

theorem notAfter_total (a b : Edit) : (notAfter a b || notAfter b a) = true := by
  simp only [notAfter, Bool.or_eq_true, decide_eq_true_eq]
  omega

theorem ordered_mergeSort (es : List Edit) : Ordered (es.mergeSort notAfter) :=
  (List.pairwise_mergeSort notAfter_trans notAfter_total es).imp of_decide_eq_true

theorem filter_mergeSort (es : List Edit) (place : Nat) :
    (es.mergeSort notAfter).filter (·.start = place) = es.filter (·.start = place) := by
  have hsame : (es.filter (·.start = place)).Pairwise fun a b => notAfter a b = true := by
    refine List.pairwise_of_forall_mem_list fun a ha b hb => decide_eq_true ?_
    simp only [List.mem_filter, decide_eq_true_eq] at ha hb
    omega
  have hsublist := (List.sublist_mergeSort notAfter_trans notAfter_total hsame List.filter_sublist).filter (·.start = place)
  simp only [List.filter_filter, Bool.and_self] at hsublist
  exact (hsublist.eq_of_length (((List.mergeSort_perm es _).filter _).length_eq.symm)).symm

end Edit

namespace Statement

/-- **Edits are sorted by their places, stably.**  Whatever edits an empty statement gets and in whatever order, what it
has then is the stable sort of them: they are in order, they are the same edits, and those at one place are in the order
in which they came.  And the next edit is inserted where the search by halving ends, in a list that is divided by its
test. -/
theorem edits_of_added (es : List Edit) :
    let edits := (es.foldl addEdit empty).edits
    edits = es.mergeSort (fun a b => a.start ≤ b.start) ∧
    Edit.Ordered edits ∧
    edits.Perm es ∧
    (∀ place, edits.filter (·.start = place) = es.filter (·.start = place)) ∧
    ∀ e : Edit, Search.Partitioned (fun x => x.start ≤ e.start) edits ∧
      ((es ++ [e]).foldl addEdit empty).edits =
        edits.insertIdx (Search.partitionPoint (fun x => x.start ≤ e.start) edits) e := by
  intro edits
  have hedits : edits = es.foldl (fun es e => e.insert es) [] := (Grammar.foldl_addEdit es empty).2.2
  have hordered : Edit.Ordered edits := hedits ▸ Edit.foldl_insert_ordered es .nil
  have hfilter : ∀ place, edits.filter (·.start = place) = es.filter (·.start = place) := fun place =>
    hedits ▸ Edit.filter_foldl_insert place .nil
  refine ⟨?_, hordered, hedits ▸ Edit.foldl_insert_perm es [], hfilter, fun e => ?_⟩
  · exact Edit.eq_of_filter_eq hordered (Edit.ordered_mergeSort es) fun place =>
      (hfilter place).trans (Edit.filter_mergeSort es place).symm
  · obtain ⟨hpartitioned, hinsert⟩ := Edit.insert_eq_insertIdx (e := e) hordered
    refine ⟨hpartitioned, ?_⟩
    rw [List.foldl_append, List.foldl_cons, List.foldl_nil, ← hinsert]
    rfl

end Statement

end SelectRouting
