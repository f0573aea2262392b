/-!
# Names without regard to case

Keywords, tables and columns are matched without regard to the case of the letters `A` to `Z`; any other letter has to
agree as it is.  Main statement: agreeing is an equivalence (`sameName_iff`), since it is equality of a folded form.
-/
namespace SelectRouting.Text

/-- The folded form of a name: ASCII letters in lower case. -/
def fold (s : String) : List Char :=
  s.toList.map Char.toLower

def sameName (a b : String) : Bool :=
  fold a == fold b

theorem sameName_iff {a b : String} : sameName a b = true ↔ fold a = fold b := by
  simp [sameName]

theorem sameName_comm (a b : String) : sameName a b = sameName b a := by
  rw [Bool.eq_iff_iff, sameName_iff, sameName_iff, eq_comm]

/-- Agreeing names agree with the same names. -/
theorem sameName_congr {a b : String} (h : sameName a b = true) (c : String) : sameName a c = sameName b c := by
  rw [Bool.eq_iff_iff, sameName_iff, sameName_iff, sameName_iff.1 h]

end SelectRouting.Text
