import Mathlib.Algebra.Group.Nat.Defs
import SelectRouting.Json
import SelectRouting.Proofs.Decimal.Digits
/-!
# Integers among the floats

A quotient whose numerator has not too many binary digits more than its denominator is nearest to a finite number
(`exists_read_ofRatio`), and so is the product of two numbers of moderate size.  So an integer of 64 bits, read as a float,
is in range (`isSome_float?_ofInt`).
-/
namespace SelectRouting

namespace Binary64

theorem toNat_bits_ofMagnitude (negative : Bool) {magnitude : Nat} (h : magnitude < 2047 * 2 ^ 52) :
    (ofMagnitude negative magnitude).bits.toNat = (if negative then 2 ^ 63 else 0) + magnitude := by
  have hmin : min magnitude (2047 * twoPow 52) = magnitude := Nat.min_eq_left (Nat.le_of_lt h)
  rw [ofMagnitude, hmin, UInt64.toNat_ofNat']
  refine Nat.mod_eq_of_lt ?_
  cases negative <;> simp [twoPow] <;> omega

/-- A magnitude below that of infinity stands for a finite number, with the exponent that its upper bits say. -/
theorem exists_read_ofMagnitude (negative : Bool) {magnitude : Nat} (h : magnitude < 2047 * 2 ^ 52) :
    ∃ m e, (ofMagnitude negative magnitude).read = .finite negative m e ∧ m < 2 ^ 53 ∧
      e ≤ (magnitude / 2 ^ 52 : Nat) - 1074 := by
  have hpow : ∀ n, twoPow n = 2 ^ n := fun _ => rfl
  have hfield : ((if negative then 2 ^ 63 else 0) + magnitude) / 2 ^ 52 % 2 ^ 11 = magnitude / 2 ^ 52 := by
    split <;> omega
  have hfraction : ((if negative then 2 ^ 63 else 0) + magnitude) % 2 ^ 52 = magnitude % 2 ^ 52 := by
    split <;> omega
  have hsign : decide (2 ^ 63 ≤ (if negative then 2 ^ 63 else 0) + magnitude) = negative := by
    cases negative with
    | false => simp; omega
    | true => simp
  have hfinite : magnitude / 2 ^ 52 ≠ 2047 := by omega
  simp only [read, hpow, toNat_bits_ofMagnitude negative h, hfield, hfraction, hsign]
  rw [if_neg hfinite]
  by_cases hsmall : magnitude / 2 ^ 52 = 0
  · rw [if_pos hsmall]
    exact ⟨_, _, rfl, by omega, by omega⟩
  · rw [if_neg hsmall]
    exact ⟨_, _, rfl, by omega, by omega⟩

theorem roundHalfEven_le (numerator denominator : Nat) :
    roundHalfEven numerator denominator ≤ numerator / denominator + 1 := by
  simp only [roundHalfEven]
  split <;> omega

/-- A quotient that is not too large is nearest to a finite number, of about its size. -/
theorem exists_read_ofRatio (negative : Bool) {numerator denominator k : Nat}
    (hsize : numerator.log2 ≤ denominator.log2 + k) (hk : k ≤ 900) (hdenominator : denominator ≠ 0) :
    ∃ m e, (ofRatio negative numerator denominator).read = .finite negative m e ∧ m < 2 ^ 53 ∧ e ≤ k := by
  by_cases hzero : numerator = 0
  · have hfinite : 0 < 2047 * 2 ^ 52 := by decide
    obtain ⟨m, e, hread, hm, he⟩ := exists_read_ofMagnitude negative hfinite
    rw [ofRatio, if_pos hzero]
    exact ⟨m, e, hread, hm, by omega⟩
  rw [ofRatio, if_neg hzero]
  extract_lets size top last significand
  have htop : top = size ∨ top = size - 1 := by
    simp only [top]
    split <;> simp
  have hlast : last = max (top - 52) (-1074) := rfl
  -- The place of the last binary digit leaves at most 54 of them.
  have hquotient : numerator * twoPow (-last).toNat / (denominator * twoPow last.toNat) < 2 ^ 54 := by
    refine Nat.div_lt_of_lt_mul ?_
    calc numerator * 2 ^ (-last).toNat
        < 2 ^ (numerator.log2 + 1) * 2 ^ (-last).toNat := Nat.mul_lt_mul_of_pos_right Nat.lt_log2_self (twoPow_pos _)
      _ = 2 ^ (numerator.log2 + 1 + (-last).toNat) := (Nat.pow_add ..).symm
      _ ≤ 2 ^ (denominator.log2 + last.toNat + 54) := Nat.pow_le_pow_right (by decide) (by omega)
      _ = 2 ^ denominator.log2 * 2 ^ last.toNat * 2 ^ 54 := by rw [Nat.pow_add, Nat.pow_add]
      _ ≤ denominator * 2 ^ last.toNat * 2 ^ 54 :=
        Nat.mul_le_mul_right _ (Nat.mul_le_mul_right _ (Nat.log2_self_le hdenominator))
  have hsignificand : significand ≤ 2 ^ 54 := by
    have := roundHalfEven_le (numerator * twoPow (-last).toNat) (denominator * twoPow last.toNat)
    omega
  have hpow : twoPow 52 = 2 ^ 52 := rfl
  rw [hpow]
  have hmagnitude : (if significand < 2 ^ 52 then significand
      else significand - 2 ^ 52 + (last + 1075).toNat * 2 ^ 52) / 2 ^ 52 ≤ (last + 1078).toNat := by
    split <;> omega
  generalize (if significand < 2 ^ 52 then significand
    else significand - 2 ^ 52 + (last + 1075).toNat * 2 ^ 52) = magnitude at hmagnitude
  have hfinite : magnitude < 2047 * 2 ^ 52 := by omega
  obtain ⟨m, e, hread, hm, he⟩ := exists_read_ofMagnitude negative hfinite
  exact ⟨m, e, hread, hm, by omega⟩

theorem log2_le_of_lt {n k : Nat} (h : n < 2 ^ (k + 1)) : n.log2 ≤ k := by
  by_cases hn : n = 0
  · rw [hn]
    exact Nat.zero_le k
  · exact Nat.le_of_lt_succ ((Nat.log2_lt hn).2 h)

/-- The product of two numbers of moderate size is finite. -/
theorem isFinite_mul {x y : Binary64} {s t : Bool} {m n : Nat} {e f : Int} (hx : x.read = .finite s m e)
    (hy : y.read = .finite t n f) (hm : m < 2 ^ 53) (hn : n < 2 ^ 53) (hexponent : e + f ≤ 100) :
    (x.mul y).isFinite = true := by
  have hsignificand : m * n * twoPow (e + f).toNat < 2 ^ (206 + 1) :=
    calc m * n * 2 ^ (e + f).toNat
        < 2 ^ 53 * 2 ^ 53 * 2 ^ (e + f).toNat :=
          Nat.mul_lt_mul_of_pos_right (Nat.mul_lt_mul'' hm hn) (twoPow_pos _)
      _ ≤ 2 ^ 53 * 2 ^ 53 * 2 ^ 100 := Nat.mul_le_mul_left _ (Nat.pow_le_pow_right (by decide) (by omega))
      _ ≤ 2 ^ (206 + 1) := by decide
  have hsize : (m * n * twoPow (e + f).toNat).log2 ≤ (twoPow (-(e + f)).toNat).log2 + 206 :=
    Nat.le_trans (log2_le_of_lt hsignificand) (Nat.le_add_left ..)
  obtain ⟨m', e', hread, -⟩ := exists_read_ofRatio (s != t) hsize (by decide) (Nat.ne_of_gt (twoPow_pos _))
  simp only [isFinite, mul, hx, hy, hread]

end Binary64

namespace Json.Number

/-! ## Integers read as floats -/

theorem le_foldl_digits : ∀ (ds : List Char) (n : Nat), n ≤ ds.foldl (fun n d => 10 * n + (d.toNat - '0'.toNat)) n
  | [], n => Nat.le_refl n
  | d :: ds, n => by
    have := le_foldl_digits ds (10 * n + (d.toNat - '0'.toNat))
    rw [List.foldl_cons]
    omega

/-- No digit is cut off from a number that fits. -/
theorem accumulate_eq : ∀ (ds : List Char) (n : Nat), ds.foldl (fun n d => 10 * n + (d.toNat - '0'.toNat)) n < 2 ^ 64 →
    accumulate n ds = (ds.foldl (fun n d => 10 * n + (d.toNat - '0'.toNat)) n, 0)
  | [], n, _ => rfl
  | d :: ds, n, h => by
    rw [List.foldl_cons] at h ⊢
    have hfits : 10 * n + (d.toNat - '0'.toNat) < twoPow 64 := Nat.lt_of_le_of_lt (le_foldl_digits ds _) h
    rw [accumulate]
    simp only [if_pos hfits]
    exact accumulate_eq ds _ h

theorem parts_ofNat {n : Nat} (hn : n < 2 ^ 64) : parts (.ofNat n) = (n, 0) := by
  have hvalue : (Nat.toDigits 10 n).foldl (fun n d => 10 * n + (d.toNat - '0'.toNat)) 0 = n :=
    Decimal.digitsValue_toDigits n
  have hwhole := accumulate_eq (Nat.toDigits 10 n) 0 (hvalue.symm ▸ hn)
  rw [hvalue] at hwhole
  simp [parts, Decimal.Numeral.ofNat, Decimal.Numeral.fractionDigits, Decimal.Numeral.written, hwhole, accumulate]

/-- An integer of 64 bits is in range as a float. -/
theorem isSome_float?_ofInt {n : Int} (hn : n.natAbs < 2 ^ 64) : (ofInt n).float?.isSome = true := by
  have hlog : n.natAbs.log2 ≤ (1 : Nat).log2 + 63 := Binary64.log2_le_of_lt hn
  obtain ⟨m, e, hread, hm, he⟩ := Binary64.exists_read_ofRatio false hlog (by decide) (by decide)
  have hone : powerOfTen 0 = .ofRatio false 1 1 := rfl
  have hlogOne : (1 : Nat).log2 ≤ (1 : Nat).log2 + 0 := Nat.le_refl _
  obtain ⟨m', e', hread', hm', he'⟩ := Binary64.exists_read_ofRatio false hlogOne (by decide) (by decide)
  have hfinite := Binary64.isFinite_mul hread hread' hm hm' (by omega)
  rw [float?, ofInt, Option.isSome_map, parts_ofNat hn]
  simp [scale?, hone, hfinite]

end Json.Number

end SelectRouting
