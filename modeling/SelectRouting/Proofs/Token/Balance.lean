import SelectRouting.Proofs.Nesting.Walk
/-!
# Balanced parentheses

Tokens are balanced when they open as many parentheses as they close and no prefix of them closes more than it opens.
Counting them agrees with walking through them: tokens that walk from a depth to another one lead there
(`Leads.of_walk`), and the loop that looks for the parenthesis that closes a region finds it behind tokens that lead out
of the parentheses inside (`Cursor.closing?_of_leads`, `Cursor.Inside.leads`).
-/
namespace SelectRouting

namespace Token

def openings (ts : List Token) : Nat :=
  ts.countP (·.kind = .leftParen)

def closings (ts : List Token) : Nat :=
  ts.countP (·.kind = .rightParen)

/-- As many parentheses are closed as opened, and never more than that. -/
def Balanced (ts : List Token) : Prop :=
  closings ts = openings ts ∧ ∀ k ≤ ts.length, closings (ts.take k) ≤ openings (ts.take k)

instance (ts : List Token) : Decidable (Balanced ts) :=
  inferInstanceAs (Decidable (_ ∧ _))

theorem openings_append (ts us : List Token) : openings (ts ++ us) = openings ts + openings us :=
  List.countP_append

theorem closings_append (ts us : List Token) : closings (ts ++ us) = closings ts + closings us :=
  List.countP_append

/-! ## From one depth to another -/

/-- From a depth, tokens lead to another one, and on the way they close no more than is open. -/
def Leads (n : Nat) (ts : List Token) (m : Nat) : Prop :=
  n + openings ts = m + closings ts ∧ ∀ us vs, ts = us ++ vs → closings us ≤ n + openings us

namespace Leads

variable {n m k : Nat} {t : Token} {ts us : List Token}

theorem nil : Leads n [] n := by
  refine ⟨rfl, fun us vs h => ?_⟩
  rw [(List.append_eq_nil_iff.1 h.symm).1]
  exact Nat.zero_le _

theorem append (h : Leads n ts m) (h' : Leads m us k) : Leads n (ts ++ us) k := by
  refine ⟨?_, fun vs ws hvs => ?_⟩
  · have := h.1
    have := h'.1
    rw [openings_append, closings_append]
    omega
  · rcases List.append_eq_append_iff.1 hvs with ⟨xs, rfl, hus⟩ | ⟨xs, hts, -⟩
    · have := h.1
      have := h'.2 xs ws hus
      rw [openings_append, closings_append]
      omega
    · exact h.2 vs xs hts

theorem single (h : n + openings [t] = m + closings [t]) : Leads n [t] m := by
  refine ⟨h, fun us vs hus => ?_⟩
  cases us with
  | nil => exact Nat.zero_le _
  | cons u us =>
    obtain ⟨rfl, hnil⟩ := List.cons.inj hus
    rw [(List.append_eq_nil_iff.1 hnil.symm).1]
    omega

theorem opening (h : t.kind = .leftParen) : Leads n [t] (n + 1) :=
  single (by simp [openings, closings, h])

theorem closing (h : t.kind = .rightParen) : Leads (n + 1) [t] n :=
  single (by simp [openings, closings, h])

theorem pass (hl : t.kind ≠ .leftParen) (hr : t.kind ≠ .rightParen) : Leads n [t] n :=
  single (by simp [openings, closings, hl, hr])

theorem of_walk {d : Dialect} (h : Walk d n ts m) : Leads n ts m := by
  induction h with
  | nil => exact nil
  | @pass n m t ts head _ ih =>
    have hlevel := head.level
    refine append (pass ?_ ?_) ih <;>
    · intro hk
      rw [hk] at hlevel
      cases hlevel
  | opening head _ ih => exact append (opening head) ih
  | closing head _ ih => exact append (closing head) ih

theorem balanced (h : Leads 0 ts 0) : Balanced ts := by
  refine ⟨by simpa using h.1.symm, fun k _ => ?_⟩
  simpa using h.2 (ts.take k) (ts.drop k) (List.take_append_drop k ts).symm

theorem of_balanced (h : Balanced ts) : Leads 0 ts 0 := by
  refine ⟨by rw [h.1], fun us vs hus => ?_⟩
  have hlength := congrArg List.length hus
  rw [List.length_append] at hlength
  have hprefix := h.2 us.length (by omega)
  rw [hus, List.take_left] at hprefix
  omega

/-- What is left of a way behind its first token. -/
theorem tail (h : Leads n (t :: ts) m) {k : Nat} (hk : n + openings [t] = k + closings [t]) : Leads k ts m := by
  have hsplit : ∀ us, openings (t :: us) = openings [t] + openings us ∧
      closings (t :: us) = closings [t] + closings us :=
    fun us => ⟨openings_append [t] us, closings_append [t] us⟩
  refine ⟨?_, fun us vs hus => ?_⟩
  · have := h.1
    rw [(hsplit ts).1, (hsplit ts).2] at this
    omega
  · have := h.2 (t :: us) vs (congrArg _ hus)
    rw [(hsplit us).1, (hsplit us).2] at this
    omega

end Leads

namespace Balanced

variable {ts us : List Token} {k : Kind}

theorem nil : Balanced [] :=
  Leads.nil.balanced

theorem append (h : Balanced ts) (h' : Balanced us) : Balanced (ts ++ us) :=
  ((Leads.of_balanced h).append (.of_balanced h')).balanced

theorem of_walk {d : Dialect} (h : Walk d 0 ts 0) : Balanced ts :=
  (Leads.of_walk h).balanced

/-- A token that is no parenthesis. -/
theorem of_kind (hl : k ≠ .leftParen) (hr : k ≠ .rightParen) (t : Token) (h : t.kind = k) : Balanced [t] :=
  (Leads.pass (h ▸ hl) (h ▸ hr)).balanced

end Balanced

end Token

namespace Cursor

open Token (Leads Balanced)

/-- Tokens that lead from one depth to another are passed by the loop that looks for a closing parenthesis. -/
theorem closing?_append_of_leads {ts : List Token} {n m : Nat} (h : Leads n ts m) (heof : ∀ t ∈ ts, t.kind ≠ .eof)
    (us : List Token) : closing? n (ts ++ us) = closing? m us := by
  induction ts generalizing n with
  | nil =>
    obtain rfl : n = m := by simpa [Token.openings, Token.closings] using h.1
    rfl
  | cons t ts ih =>
    have heof' : ∀ t ∈ ts, t.kind ≠ .eof := fun u hu => heof u (List.mem_cons_of_mem t hu)
    rw [List.cons_append]
    by_cases hl : t.kind = .leftParen
    · rw [closing?_leftParen hl]
      exact ih (h.tail (by simp [Token.openings, Token.closings, hl])) heof'
    by_cases hr : t.kind = .rightParen
    · -- A parenthesis is closed, so one has been open.
      have hopen : 1 ≤ n := by simpa [Token.openings, Token.closings, hr] using h.2 [t] ts rfl
      obtain ⟨n, rfl⟩ := Nat.exists_eq_add_of_le' hopen
      rw [closing?_rightParen hr]
      exact ih (h.tail (by simp [Token.openings, Token.closings, hr])) heof'
    · rw [closing?_other hl hr (heof t List.mem_cons_self)]
      exact ih (h.tail (by simp [Token.openings, Token.closings, hl, hr])) heof'

/-- A region that is left behind its closing parenthesis. -/
theorem closing?_of_leads {region after : List Token} {close : Token} (hclose : close.kind = .rightParen) {depth : Nat}
    (h : Leads depth region 0) (heof : ∀ t ∈ region, t.kind ≠ .eof) :
    closing? depth (region ++ close :: after) = some (close, after) := by
  rw [closing?_append_of_leads h heof]
  exact closing?_rightParen hclose 0 after

/-- What stands in front of the parenthesis that closes a region leads out of the parentheses inside. -/
theorem Inside.leads {depth : Nat} {region : List Token} (h : Inside depth region) :
    Leads depth region 0 ∧ ∀ t ∈ region, t.kind ≠ .eof := by
  induction h with
  | nil => exact ⟨.nil, nofun⟩
  | opening head _ ih => exact ⟨(Leads.opening head).append ih.1, List.forall_mem_cons.2 ⟨head ▸ nofun, ih.2⟩⟩
  | closing head _ ih => exact ⟨(Leads.closing head).append ih.1, List.forall_mem_cons.2 ⟨head ▸ nofun, ih.2⟩⟩
  | pass left right inner _ ih =>
    exact ⟨(Leads.pass left right).append ih.1, List.forall_mem_cons.2 ⟨inner, ih.2⟩⟩

end Cursor

end SelectRouting
