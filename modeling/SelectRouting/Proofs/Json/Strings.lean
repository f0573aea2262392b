import SelectRouting.Json.Reader
import SelectRouting.Json.Writer
/-!
# Strings as JSON

A text is kept as its code points, and has them for itself (`Units.text?_ofString`).  Between quotes each of them is written
by itself or as an escape, and either is read back (`units?_unitText`), so a string is read up to its closing quote
(`units?_stringText`).
-/
namespace SelectRouting.Json

namespace Units

/-- No character is one half of a pair. -/
theorem not_half (c : Char) : isHigh c.toNat = false ∧ isLow c.toNat = false := by
  have hvalid : c.toNat < 0xd800 ∨ 0xdfff < c.toNat ∧ c.toNat < 0x110000 := c.valid
  simp only [isHigh, isLow, Bool.and_eq_false_iff, decide_eq_false_iff_not]
  omega

theorem chars?_toNat : ∀ cs : List Char, chars? (cs.map (·.toNat)) = some cs
  | [] => rfl
  | [c] => by simp [chars?, not_half]
  | c :: d :: cs => by
    have htail := chars?_toNat (d :: cs)
    simp only [List.map_cons] at htail ⊢
    simp [chars?, not_half, htail]

@[simp] theorem text?_ofString (s : String) : (ofString s).text? = some s := by
  simp [text?, ofString, chars?_toNat]

theorem ofString_inj {s t : String} : ofString s = ofString t ↔ s = t := by
  refine ⟨fun h => ?_, congrArg ofString⟩
  have htext := text?_ofString s
  rw [h, text?_ofString] at htext
  exact (Option.some.inj htext).symm

end Units

theorem hexValue?_digitChar : ∀ n < 16, hexValue? (Nat.digitChar n) = some n := by decide

theorem hexUnit?_digitChar {n : Nat} (hn : n < 0x10000) :
    hexUnit? (Nat.digitChar (n / 0x1000 % 16)) (Nat.digitChar (n / 0x100 % 16)) (Nat.digitChar (n / 0x10 % 16))
      (Nat.digitChar (n % 16)) = some n := by
  have hvalue : ∀ m, hexValue? (Nat.digitChar (m % 16)) = some (m % 16) := fun m =>
    hexValue?_digitChar _ (Nat.mod_lt m (by decide))
  simp only [hexUnit?, hvalue]
  exact congrArg some (by omega)

theorem units?_escape {e : Char} {n : Nat} (he : e ≠ 'u') (h : escape? e = some n) (cs : List Char) :
    units? ('\\' :: e :: cs) = (units? cs).map (push n) := by
  rw [units?, h]
  · rfl
  · intro _ _ _ _ _ h _
    exact he h

theorem units?_plain {c : Char} (hquote : c ≠ '\x22') (hbackslash : c ≠ '\\') (hcontrol : ¬ c.toNat < 0x20)
    (cs : List Char) : units? (c :: cs) = (units? cs).map (push c.toNat) := by
  rw [units?]
  · simp [hcontrol, hbackslash]
  · exact hquote
  · intro _ _ _ _ _ h _
    exact hbackslash h
  · intro _ _ h _
    exact hbackslash h

/-- A character is read back, however it is written. -/
theorem units?_unitText (c : Char) (cs : List Char) :
    units? (unitText c.toNat ++ cs) = (units? cs).map (push c.toNat) := by
  unfold unitText
  split
  · next h => exact h ▸ units?_escape (by decide) rfl cs
  split
  · next h => exact h ▸ units?_escape (by decide) rfl cs
  split
  · next h => exact h ▸ units?_escape (by decide) rfl cs
  split
  · next h => exact h ▸ units?_escape (by decide) rfl cs
  split
  · next h => exact h ▸ units?_escape (by decide) rfl cs
  split
  · next h => exact h ▸ units?_escape (by decide) rfl cs
  split
  · next h => exact h ▸ units?_escape (by decide) rfl cs
  split
  · next h =>
    have hcontrol : c.toNat < 0x20 := by simpa [Units.not_half] using h
    simp only [hexDigits, List.map_cons, List.map_nil, List.cons_append, List.nil_append]
    rw [units?, hexUnit?_digitChar (by omega)]
    rfl
  · next hquote hbackslash _ _ _ _ _ h =>
    have hplain : ¬ c.toNat < 0x20 := by simpa [Units.not_half] using h
    rw [Char.ofNat_toNat]
    refine units?_plain ?_ ?_ hplain cs
    · rintro rfl
      exact hquote rfl
    · rintro rfl
      exact hbackslash rfl

theorem units?_stringText (s : String) (cs : List Char) :
    units? ((Units.ofString s).flatMap unitText ++ '\x22' :: cs) = some (.ofString s, cs) := by
  have hread : ∀ ds : List Char,
      units? ((ds.map (·.toNat)).flatMap unitText ++ '\x22' :: cs) = some (ds.map (·.toNat), cs) := by
    intro ds
    induction ds with
    | nil => simp [units?]
    | cons d ds ih =>
      rw [List.map_cons, List.flatMap_cons, List.append_assoc, units?_unitText, ih]
      rfl
  exact hread s.toList

end SelectRouting.Json
