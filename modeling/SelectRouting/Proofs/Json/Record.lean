import SelectRouting.Proofs.Decimal.Range
import SelectRouting.Proofs.Json.Reading
/-!
# Records and choices are read back

Reading a value undoes writing it: a record has at each of its fields what was written there (`fields?_record`), a choice
has its name and its value, and integers of 64 bits, texts and lists are what they were.  How a type is handed over can
then be checked on values alone, since its texts are read as these (`ReadBack.of_text`), and values that are not the same
have texts that are not (`ReadBack.text_ne`).
-/
namespace SelectRouting.Json

section
variable {α β : Type}

theorem mapM_map_eq_some {f : α → β} {read : β → Option α} : ∀ {as : List α}, (∀ a ∈ as, read (f a) = some a) →
    (as.map f).mapM read = some as
  | [], _ => rfl
  | a :: as, h => by
    have hmore := mapM_map_eq_some fun b hb => h b (List.mem_cons_of_mem a hb)
    rw [List.map_cons, List.mapM_cons, h a List.mem_cons_self, hmore]
    rfl

end

/-! ## Records -/

theorem lookup_of_noRepeats : ∀ {fields : List (String × Json)}, noRepeats (fields.map (·.1)) = true →
    ∀ f ∈ fields, fields.lookup f.1 = some f.2
  | (n, v) :: fields, h, f, hf => by
    simp only [List.map_cons, noRepeats, Bool.and_eq_true, Bool.not_eq_true', List.contains_eq_mem,
      decide_eq_false_iff_not] at h
    rcases List.mem_cons.1 hf with rfl | hf
    · simp
    · have hne : f.1 ≠ n := fun heq => h.1 (heq ▸ List.mem_map_of_mem hf)
      rw [List.lookup_cons, beq_false_of_ne hne]
      exact lookup_of_noRepeats h.2 f hf

theorem named?_record {fields : List (String × Json)} (h : noRepeats (fields.map (·.1)) = true) :
    named? (fields.map (·.1)) (fields.map fun f => (.ofString f.1, f.2)) = some fields := by
  have hmembers : (fields.map fun f => (Units.ofString f.1, f.2)).mapM (fun m => m.1.text?.map (·, m.2)) = some fields :=
    mapM_map_eq_some fun f _ => by simp
  have hfilter : (fields.map (·.1)).filter (fields.map (·.1)).contains = fields.map (·.1) :=
    List.filter_eq_self.2 fun n hn => by simpa using hn
  simp [named?, hmembers, hfilter, h]

/-- A record has at each field what it was written with. -/
theorem fields?_record {fields : List (String × Json)} (h : noRepeats (fields.map (·.1)) = true) :
    (record fields).fields? (fields.map (·.1)) = some (fields.map fun f => .present f.2) := by
  have hfields : fieldsOfObject (fields.map (·.1)) fields = fields.map fun f => .present f.2 := by
    rw [fieldsOfObject, List.map_map]
    refine List.map_congr_left fun f hf => ?_
    simp [lookup_of_noRepeats h f hf]
  rw [record, fields?, named?_record h, Option.map_some, hfields]

theorem Field.nullable_optional {α : Type} {toJson : α → Json} {read : Json → Option α} {o : Option α}
    (hnull : ∀ a, toJson a ≠ .null) (h : ∀ a ∈ o, read (toJson a) = some a) :
    Field.nullable read (.present (optional toJson o)) = some o := by
  cases o with
  | none => rfl
  | some a =>
    have hread := h a rfl
    rw [optional]
    unfold Field.nullable
    split
    · next heq => exact absurd (Field.present.inj heq) (hnull a)
    · next v _ heq => rw [← Field.present.inj heq, hread, Option.map_some]
    · next heq => cases heq
    · next heq => cases heq

/-! ## Choices and lists -/

@[simp] theorem choice?_bare (name : String) : (bare name).choice? = some (name, none) := by
  simp [bare, ofString, choice?]

@[simp] theorem choice?_choice (name : String) (v : Json) : (choice name v).choice? = some (name, some v) := by
  simp [choice, record, choice?]

@[simp] theorem text?_ofString (s : String) : (ofString s).text? = some s := by
  simp [ofString, text?]

theorem list?_list {α : Type} {toJson : α → Json} {ofJson? : Json → Option α} {as : List α}
    (h : ∀ a ∈ as, ofJson? (toJson a) = some a) : list? ofJson? (list toJson as) = some as :=
  mapM_map_eq_some h

/-! ## Integers -/

/-- An unsigned integer of 64 bits. -/
def Word (n : Nat) : Prop :=
  n < 2 ^ 64

/-- A signed integer of 64 bits. -/
def SignedWord (n : Int) : Prop :=
  -2 ^ 63 ≤ n ∧ n < 2 ^ 63

instance (n : Nat) : Decidable (Word n) :=
  Nat.decLt n (2 ^ 64)

theorem Number.written?_ofInt (n : Int) : (ofInt n).written? = some n.natAbs := by
  simp [written?, ofInt, Decimal.Numeral.ofNat, Decimal.digitsValue_toDigits]

theorem nat?_ofNat {n : Nat} (h : Word n) : (ofNat n).nat? = some n := by
  have hsign : (Number.ofInt n).negative = false := decide_eq_false (Int.not_lt.2 (Int.natCast_nonneg n))
  have hpow : n < twoPow 64 := h
  rw [ofNat, nat?, Number.nat?, Number.written?_ofInt, hsign]
  simp [hpow]

theorem int?_ofInt {n : Int} (h : SignedWord n) : (number (.ofInt n)).int? = some n := by
  obtain ⟨hlow, hhigh⟩ := h
  have hpow : twoPow 63 = 2 ^ 63 := rfl
  rw [int?, Number.int?, Number.written?_ofInt]
  by_cases hn : n < 0
  · have hsign : (Number.ofInt n).negative = true := decide_eq_true hn
    have hpositive : 0 < n.natAbs := by omega
    have hfits : n.natAbs ≤ twoPow 63 := by omega
    have hvalue : -(n.natAbs : Int) = n := by omega
    rw [hsign]
    simp only [hpositive, hfits, hvalue, decide_true, Bool.and_self, if_true]
  · have hsign : (Number.ofInt n).negative = false := decide_eq_false hn
    have hfits : n.natAbs < twoPow 63 := by omega
    have hvalue : (n.natAbs : Int) = n := by omega
    rw [hsign]
    simp only [hfits, hvalue, if_true]

/-! ## Values as a whole -/

theorem sound_record {limit : Nat} {fields : List (String × Json)} (h : ∀ f ∈ fields, f.2.sound limit = true) :
    (record fields).sound (limit + 1) = true := by
  simpa [record, sound] using fun n v hv => h (n, v) hv

theorem sound_ofString (limit : Nat) (s : String) : (ofString s).sound limit = true := by
  cases limit <;> simp [ofString, sound]

theorem sound_ofNat {n : Nat} (limit : Nat) (h : Word n) : (ofNat n).sound limit = true := by
  have hnumber : (Number.ofInt n).float?.isSome = true := Number.isSome_float?_ofInt h
  cases limit <;> simpa [ofNat, sound] using hnumber

/-! ## What is handed over -/

theorem plain_ofNat (n : Nat) : (ofNat n).Plain :=
  .integer n

theorem plain_choice (name : String) {v : Json} (h : v.Plain) : (choice name v).Plain :=
  .object (List.forall_mem_singleton.2 h)

theorem plain_list {α : Type} {toJson : α → Json} {as : List α} (h : ∀ a ∈ as, (toJson a).Plain) :
    (list toJson as).Plain :=
  .array (List.forall_mem_map.2 h)

/-- A value of a type is written without floats, and is read back from what is written. -/
structure ReadBack {α : Type} (toJson : α → Json) (ofJson? : Json → Option α) (a : α) : Prop where
  plain : (toJson a).Plain
  value : ofJson? (toJson a) = some a

namespace ReadBack

variable {α : Type} {toJson : α → Json} {ofJson? : Json → Option α}

/-- A value is read back from its text. -/
theorem of_text {a : α} (h : ReadBack toJson ofJson? a) : (parse? (toJson a).text).bind ofJson? = some a := by
  rw [h.plain.parse?_text]
  exact h.value

/-- Different values have different texts. -/
theorem text_ne {a b : α} (ha : ReadBack toJson ofJson? a) (hb : ReadBack toJson ofJson? b) (hne : a ≠ b) :
    (toJson a).text ≠ (toJson b).text := by
  intro htext
  have hread := ha.of_text
  rw [htext, hb.of_text] at hread
  exact hne (Option.some.inj hread).symm

theorem list {as : List α} (h : ∀ a ∈ as, ReadBack toJson ofJson? a) :
    ReadBack (Json.list toJson) (Json.list? ofJson?) as :=
  ⟨plain_list fun a ha => (h a ha).plain, list?_list fun a ha => (h a ha).value⟩

end ReadBack

/-- Values of a type that are in range are read back from their texts, and the texts tell them apart. -/
structure Faithful {α : Type} (toJson : α → Json) (ofJson? : Json → Option α) (InRange : α → Prop) : Prop where
  read : ∀ a, InRange a → (parse? (toJson a).text).bind ofJson? = some a
  distinct : ∀ a b, InRange a → InRange b → a ≠ b → (toJson a).text ≠ (toJson b).text

theorem Faithful.of_readBack {α : Type} {toJson : α → Json} {ofJson? : Json → Option α} {InRange : α → Prop}
    (h : ∀ a, InRange a → ReadBack toJson ofJson? a) : Faithful toJson ofJson? InRange where
  read a ha := (h a ha).of_text
  distinct a b ha hb hne := (h a ha).text_ne (h b hb) hne

end SelectRouting.Json
