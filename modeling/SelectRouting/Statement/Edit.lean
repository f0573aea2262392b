/-!
# Edits

An edit marks a place of the text that changes from shard to shard: the name of a logic table, or a row count or an offset
written as a number.  Edits are kept in the order of their places.  Main statements: inserting keeps that order
(`insert_ordered`) and loses nothing (`insert_perm`), and an edit comes between those that do not start later and those
that do (`insert_of_ordered`).
-/
namespace SelectRouting

inductive Edit where
  /-- A table name as it is written, with its quotes. -/
  | table (start : Nat) (written : String)
  | rowCount (start : Nat) (value : Nat)
  | offset (start : Nat) (value : Nat)
  deriving DecidableEq

namespace Edit

/-- The byte offset of the place. -/
def start : Edit → Nat
  | .table start _ | .rowCount start _ | .offset start _ => start

/-- Puts an edit behind all that do not start later. -/
def insert (e : Edit) : List Edit → List Edit
  | [] => [e]
  | x :: xs => if x.start ≤ e.start then x :: insert e xs else e :: x :: xs

/-- Edits in the order of their places. -/
def Ordered (es : List Edit) : Prop :=
  es.Pairwise fun a b => a.start ≤ b.start

theorem insert_cons (e x : Edit) (xs : List Edit) :
    insert e (x :: xs) = if x.start ≤ e.start then x :: insert e xs else e :: x :: xs :=
  rfl

theorem insert_perm (e : Edit) : ∀ es : List Edit, (insert e es).Perm (e :: es)
  | [] => .refl _
  | x :: xs => by
    rw [insert_cons]
    split
    · exact ((insert_perm e xs).cons x).trans (.swap e x xs)
    · exact .refl _

theorem insert_ordered (e : Edit) : ∀ {es : List Edit}, Ordered es → Ordered (insert e es)
  | [], _ => List.pairwise_singleton _ _
  | x :: xs, h => by
    have ⟨hx, hxs⟩ := List.pairwise_cons.1 h
    rw [insert_cons]
    split
    · next hle =>
      refine List.pairwise_cons.2 ⟨fun y hy => ?_, insert_ordered e hxs⟩
      rcases List.mem_cons.1 ((insert_perm e xs).mem_iff.1 hy) with rfl | hy
      · exact hle
      · exact hx y hy
    · next hlt =>
      refine List.pairwise_cons.2 ⟨fun y hy => ?_, h⟩
      rcases List.mem_cons.1 hy with rfl | hy
      · omega
      · have := hx y hy
        omega

/-! ## Between the others -/

theorem insert_of_ordered {e : Edit} : ∀ {es : List Edit}, Ordered es →
    insert e es = es.filter (·.start ≤ e.start) ++ e :: es.filter (e.start < ·.start)
  | [], _ => rfl
  | x :: xs, h => by
    have ⟨hx, hxs⟩ := List.pairwise_cons.1 h
    rw [insert_cons]
    split
    · next hle =>
      rw [insert_of_ordered hxs, List.filter_cons_of_pos (by simpa using hle),
        List.filter_cons_of_neg (by simpa using hle)]
      rfl
    · next hlt =>
      have hlater : ∀ y ∈ x :: xs, e.start < y.start := by
        intro y hy
        rcases List.mem_cons.1 hy with rfl | hy
        · omega
        · have := hx y hy
          omega
      have hnone : (x :: xs).filter (·.start ≤ e.start) = [] := List.filter_eq_nil_iff.2 fun y hy => by
        simpa using hlater y hy
      rw [hnone, List.filter_eq_self.2 fun y hy => by simpa using hlater y hy]
      rfl

theorem sublist_insert (e : Edit) (es : List Edit) : es.Sublist (insert e es) := by
  induction es with
  | nil => exact List.nil_sublist _
  | cons x xs ih =>
    rw [insert_cons]
    split
    · exact ih.cons_cons x
    · exact List.sublist_cons_self e (x :: xs)

theorem insert_sublist_insert {e : Edit} {es es' : List Edit} (h : es.Sublist es') (hes' : Ordered es') :
    (insert e es).Sublist (insert e es') := by
  have hes : Ordered es := List.Pairwise.sublist h hes'
  rw [insert_of_ordered hes, insert_of_ordered hes']
  exact (h.filter _).append ((h.filter _).cons_cons e)

/-- An edit that is wanted has the same place among the wanted ones. -/
theorem filter_insert_of_pos {p : Edit → Bool} {e : Edit} {es : List Edit} (hp : p e = true) (hes : Ordered es) :
    (insert e es).filter p = insert e (es.filter p) := by
  have hwanted : Ordered (es.filter p) := List.Pairwise.sublist List.filter_sublist hes
  rw [insert_of_ordered hes, insert_of_ordered hwanted, List.filter_append, List.filter_cons_of_pos hp]
  simp only [List.filter_filter, Bool.and_comm]

section
variable {β : Type} {f : Edit → Option β} {e : Edit} {es : List Edit}

theorem filterMap_insert_of_none (h : f e = none) : (insert e es).filterMap f = es.filterMap f := by
  induction es with
  | nil => exact List.filterMap_cons_none h
  | cons x es ih =>
    rw [insert_cons]
    split
    · rw [List.filterMap_cons, List.filterMap_cons, ih]
    · rw [List.filterMap_cons_none h]

end

/-- An edit that is not wanted is not among the wanted ones. -/
theorem filter_insert_of_neg {p : Edit → Bool} {e : Edit} {es : List Edit} (hp : p e = false) :
    (insert e es).filter p = es.filter p := by
  rw [← List.filterMap_eq_filter]
  exact filterMap_insert_of_none (by simp [hp])

end Edit

end SelectRouting
