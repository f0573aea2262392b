import SelectRouting.Json.Record
import SelectRouting.Proofs.Decimal.Digits
import SelectRouting.Proofs.Json.Strings
import SelectRouting.Proofs.Token.Integer
/-!
# Written JSON is read back

Values made of records, lists, texts, integers and constants (`Plain`) are what is handed over, floats aside.  Each of them
is read back from its text in front of anything that may follow a value (`Plain.valueAt_chars`), so a whole text is read as
the value that it was written from (`Plain.parse?_text`).
-/
namespace SelectRouting.Json

/-- A value without floats, all strings of which are texts, in records and lists. -/
inductive Plain : Json → Prop where
  | null : Plain .null
  | bool (b : Bool) : Plain (.bool b)
  | integer (n : Int) : Plain (.number (.ofInt n))
  | string (s : String) : Plain (.ofString s)
  | array {items : List Json} (h : ∀ v ∈ items, Plain v) : Plain (.array items)
  | object {fields : List (String × Json)} (h : ∀ f ∈ fields, Plain f.2) : Plain (record fields)

/-- What may stand behind a value: nothing, a comma or a closing mark. -/
def Behind (after : List Char) : Prop :=
  ∀ c ∈ after.head?, c = ',' ∨ c = ']' ∨ c = '\x7d'

theorem behind_nil : Behind [] :=
  nofun

theorem behind_cons {c : Char} (hc : c = ',' ∨ c = ']' ∨ c = '\x7d') (after : List Char) : Behind (c :: after) := by
  rintro _ ⟨⟩
  exact hc

/-- What a text starts with. -/
def StartsWith (p : Char → Prop) (cs : List Char) : Prop :=
  ∃ c tail, cs = c :: tail ∧ p c

theorem skipSpace_eq {cs : List Char} (h : StartsWith (isSpace · = false) cs) : skipSpace cs = cs := by
  obtain ⟨c, tail, rfl, hc⟩ := h
  simp [skipSpace, hc]

/-! ## Numbers -/

theorem ends_of_behind {after : List Char} (h : Behind after) : Decimal.Ends after := by
  have hhead : ∀ c ∈ after.head?, Decimal.isDigit c = false ∧ c ≠ '.' ∧ c ≠ 'e' ∧ c ≠ 'E' := by
    intro c hc
    rcases h c hc with rfl | rfl | rfl <;> decide
  refine ⟨fun d hd => (hhead d hd).1, ?_, ?_⟩
  · rintro d ⟨tail, rfl⟩
    exact absurd rfl (hhead '.' rfl).2.1
  · rintro e d he ⟨tail, rfl⟩
    obtain ⟨-, -, hsmall, hlarge⟩ := hhead e rfl
    rcases he with rfl | rfl
    · exact absurd rfl hsmall
    · exact absurd rfl hlarge

theorem unsigned?_toDigits (negative : Bool) (n : Nat) {after : List Char} (hafter : Behind after) :
    unsigned? negative (Nat.toDigits 10 n ++ after) = some (.number ⟨negative, .ofNat n⟩, after) := by
  have hdigits : ∀ d ∈ Nat.toDigits 10 n, Decimal.isDigit d = true := fun _ => Decimal.isDigit_of_mem_toDigits
  have hstrict : isStrict (.ofNat n) = true := by
    rcases Decimal.head_toDigits n with hzero | ⟨d, ds, hcons, hd⟩
    · simp [isStrict, Decimal.Numeral.ofNat, hzero]
    · simp [isStrict, Decimal.Numeral.ofNat, hcons, hd]
  rw [unsigned?, Decimal.Numeral.split_digits hdigits (ends_of_behind hafter)]
  exact if_pos hstrict

/-- A digit is the first character of a number and of nothing else. -/
theorem valueOver_digit (value : Reader Json) {d : Char} (hd : Decimal.isDigit d = true) (cs : List Char) :
    valueOver value (d :: cs) = unsigned? false (d :: cs) := by
  generalize hcs : d :: cs = ds
  have hhead : ∀ c tail, ds = c :: tail → Decimal.isDigit c = true := by
    rintro c tail rfl
    exact (List.cons.inj hcs).1 ▸ hd
  unfold valueOver
  split
  case h_8 => rfl
  all_goals exact absurd (hhead _ _ rfl) (by decide)

theorem starts_of_isDigit {d : Char} (hd : Decimal.isDigit d = true) : isSpace d = false ∧ d ≠ ']' ∧ d ≠ '\x7d' := by
  have hne : ∀ c, Decimal.isDigit c = false → d ≠ c := by
    rintro c hc rfl
    rw [hd] at hc
    cases hc
  refine ⟨?_, hne ']' rfl, hne '\x7d' rfl⟩
  simp [isSpace, hne ' ' rfl, hne '\n' rfl, hne '\t' rfl, hne '\r' rfl]

theorem numberText_ofInt (n : Int) :
    numberText (.ofInt n) = (if n < 0 then ['-'] else []) ++ Nat.toDigits 10 n.natAbs := by
  simp [numberText, Number.ofInt, Decimal.Numeral.ofNat, Decimal.Numeral.text]

theorem valueOver_integer (value : Reader Json) (n : Int) {after : List Char} (hafter : Behind after) :
    valueOver value (numberText (.ofInt n) ++ after) = some (.number (.ofInt n), after) := by
  rw [numberText_ofInt]
  by_cases hn : n < 0
  · have hnumber := unsigned?_toDigits true n.natAbs hafter
    simpa [Number.ofInt, hn, valueOver] using hnumber
  · have hnumber := unsigned?_toDigits false n.natAbs hafter
    obtain ⟨d, ds, hcons⟩ := List.exists_cons_of_ne_nil (Nat.toDigits_ne_nil (n := n.natAbs) (b := 10))
    have hd : Decimal.isDigit d = true := Decimal.isDigit_of_mem_toDigits (hcons ▸ List.mem_cons_self)
    have hvalue := valueOver_digit value hd (ds ++ after)
    rw [← List.cons_append, ← hcons, hnumber] at hvalue
    simpa [Number.ofInt, hn] using hvalue

/-! ## Lists -/

/-- Texts with commas between them. -/
def joined {α : Type} (write : α → List Char) : List α → List Char
  | [] => []
  | [a] => write a
  | a :: as => write a ++ ',' :: joined write as

theorem itemsText_eq : ∀ vs : List Json, itemsText vs = joined chars vs
  | [] => by simp [itemsText, joined]
  | [v] => by simp [itemsText, joined]
  | v :: w :: vs => by simp [itemsText, joined, itemsText_eq (w :: vs)]

/-- The text of a member of a record. -/
def memberText (m : Units × Json) : List Char :=
  stringText m.1 ++ ':' :: chars m.2

theorem membersText_eq : ∀ ms : List (Units × Json), membersText ms = joined memberText ms
  | [] => by simp [membersText, joined]
  | [(name, v)] => by simp [membersText, joined, memberText]
  | (name, v) :: m :: ms => by simp [membersText, joined, memberText, membersText_eq (m :: ms)]

section
variable {α : Type} (write : α → List Char)

theorem length_le_length_joined : ∀ {as : List α} {a : α}, a ∈ as → (write a).length ≤ (joined write as).length
  | [b], a, h => by
    rw [List.mem_singleton.1 h]
    exact Nat.le_refl _
  | b :: c :: as, a, h => by
    have hjoined : joined write (b :: c :: as) = write b ++ ',' :: joined write (c :: as) := rfl
    rw [hjoined, List.length_append, List.length_cons]
    rcases List.mem_cons.1 h with rfl | h
    · omega
    · have := length_le_length_joined h
      omega

theorem length_le_length_joined_succ : ∀ as : List α, as.length ≤ (joined write as).length + 1
  | [] => Nat.zero_le _
  | [a] => Nat.le_add_left 1 _
  | a :: b :: as => by
    have := length_le_length_joined_succ (b :: as)
    have hjoined : joined write (a :: b :: as) = write a ++ ',' :: joined write (b :: as) := rfl
    simp only [hjoined, List.length_append, List.length_cons] at this ⊢
    omega

end

section
variable {α : Type} {write : α → List Char} {item : Reader α} {close : Char}

theorem skipSpace_comma (rest : List Char) : skipSpace (',' :: rest) = ',' :: rest :=
  skipSpace_eq ⟨',', rest, rfl, rfl⟩

/-- Items that are read back from their texts are read back from these with commas between them. -/
theorem itemsUntil_joined (hclose : close = ']' ∨ close = '\x7d') (rest : List Char) : ∀ {as : List α} {rounds : Nat},
    as ≠ [] → as.length ≤ rounds → (∀ a ∈ as, ∀ after, Behind after → item (write a ++ after) = some (a, after)) →
      itemsUntil close item rounds (joined write as ++ close :: rest) = some (as, rest)
  | [], _, hne, _, _ => absurd rfl hne
  | [a], rounds + 1, _, _, hitem => by
    have hread := hitem a List.mem_cons_self (close :: rest) (behind_cons (.inr hclose) rest)
    rw [itemsUntil, joined, hread]
    rcases hclose with rfl | rfl <;> simp [skipSpace, isSpace]
  | a :: b :: as, rounds + 1, _, hrounds, hitem => by
    have hread := hitem a List.mem_cons_self (',' :: (joined write (b :: as) ++ close :: rest)) (behind_cons (.inl rfl) _)
    have hmore : itemsUntil close item rounds (joined write (b :: as) ++ close :: rest) = some (b :: as, rest) :=
      itemsUntil_joined hclose rest nofun (Nat.le_of_succ_le_succ hrounds) fun c hc => hitem c (List.mem_cons_of_mem a hc)
    have hjoined : joined write (a :: b :: as) ++ close :: rest =
        write a ++ ',' :: (joined write (b :: as) ++ close :: rest) := by
      simp [joined]
    rw [itemsUntil, hjoined, hread]
    simp [skipSpace_comma, hmore]

theorem startsWith_joined {p : Char → Prop} {a : α} (h : StartsWith p (write a)) (as : List α) (rest : List Char) :
    StartsWith p (joined write (a :: as) ++ rest) := by
  obtain ⟨c, tail, hcons, hc⟩ := h
  cases as with
  | nil => exact ⟨c, tail ++ rest, by simp [joined, hcons], hc⟩
  | cons b as => exact ⟨c, tail ++ ',' :: joined write (b :: as) ++ rest, by simp [joined, hcons], hc⟩

/-- A list is read back up to its closing mark, if no item starts with this mark. -/
theorem listUntil_joined (hclose : close = ']' ∨ close = '\x7d') (rest : List Char) {as : List α}
    (hstarts : ∀ a ∈ as, StartsWith (fun c => isSpace c = false ∧ c ≠ close) (write a))
    (hitem : ∀ a ∈ as, ∀ after, Behind after → item (write a ++ after) = some (a, after)) :
    listUntil close item (joined write as ++ close :: rest) = some (as, rest) := by
  cases as with
  | nil =>
    have hspace : isSpace close = false := by rcases hclose with rfl | rfl <;> rfl
    have hskip : skipSpace (close :: rest) = close :: rest := skipSpace_eq ⟨close, rest, rfl, hspace⟩
    simp [listUntil, joined, hskip]
  | cons a as =>
    obtain ⟨c, tail, hcons, hspace, hne⟩ := startsWith_joined (hstarts a List.mem_cons_self) as (close :: rest)
    have hlength : (a :: as).length ≤ (joined write (a :: as) ++ close :: rest).length := by
      have := length_le_length_joined_succ write (a :: as)
      simp only [List.length_append, List.length_cons] at this ⊢
      omega
    have hitems := itemsUntil_joined hclose rest (List.cons_ne_nil a as) hlength hitem
    have hskip : skipSpace (c :: tail) = c :: tail := skipSpace_eq ⟨c, tail, rfl, hspace⟩
    rw [hcons] at hitems ⊢
    rw [listUntil, hskip]
    exact (if_neg hne).trans hitems

end

/-! ## Values -/

theorem member?_memberText {value : Reader Json} (name : String) {v : Json} {after : List Char}
    (hvalue : value (chars v ++ after) = some (v, after)) :
    member? value (memberText (.ofString name, v) ++ after) = some ((.ofString name, v), after) := by
  have hname := units?_stringText name (':' :: (chars v ++ after))
  have htext : memberText (.ofString name, v) ++ after =
      '\x22' :: ((Units.ofString name).flatMap unitText ++ '\x22' :: ':' :: (chars v ++ after)) := by
    simp [memberText, stringText]
  have hquote : skipSpace ('\x22' :: ((Units.ofString name).flatMap unitText ++ '\x22' :: ':' :: (chars v ++ after))) = _ :=
    skipSpace_eq ⟨_, _, rfl, rfl⟩
  have hcolon : skipSpace (':' :: (chars v ++ after)) = _ := skipSpace_eq ⟨_, _, rfl, rfl⟩
  rw [member?, htext, hquote]
  simp [hname, hcolon, hvalue]

namespace Plain

theorem startsWith {v : Json} (h : v.Plain) :
    StartsWith (fun c => isSpace c = false ∧ c ≠ ']' ∧ c ≠ '\x7d') (chars v) := by
  cases h with
  | null => exact ⟨'n', _, rfl, by decide⟩
  | bool b => cases b <;> exact ⟨_, _, rfl, by decide⟩
  | integer n =>
    by_cases hn : n < 0
    · exact ⟨'-', Nat.toDigits 10 n.natAbs, by simp [chars, numberText_ofInt, hn], by decide⟩
    · obtain ⟨d, ds, hcons⟩ := List.exists_cons_of_ne_nil (Nat.toDigits_ne_nil (n := n.natAbs) (b := 10))
      have hd : Decimal.isDigit d = true := Decimal.isDigit_of_mem_toDigits (hcons ▸ List.mem_cons_self)
      exact ⟨d, ds, by simp [chars, numberText_ofInt, hn, hcons], starts_of_isDigit hd⟩
  | string s => exact ⟨'\x22', _, rfl, by decide⟩
  | array h => exact ⟨'[', _, rfl, by decide⟩
  | object h => exact ⟨'\x7b', _, rfl, by decide⟩

/-- A value is read back from its text over a reader that does so for its parts. -/
theorem valueOver_chars {v : Json} (h : v.Plain) {value : Reader Json}
    (hparts : ∀ w : Json, w.Plain → (chars w).length < (chars v).length → ∀ after, Behind after →
      value (chars w ++ after) = some (w, after)) {after : List Char} (hafter : Behind after) :
    valueOver value (chars v ++ after) = some (v, after) := by
  cases h with
  | null => rfl
  | bool b => cases b <;> rfl
  | integer n => exact valueOver_integer value n hafter
  | string s =>
    have htext : chars (.ofString s) ++ after = '\x22' :: ((Units.ofString s).flatMap unitText ++ '\x22' :: after) := by
      simp [chars, ofString, stringText]
    rw [htext, valueOver, units?_stringText]
    rfl
  | @array items h =>
    have htext : chars (.array items) ++ after = '[' :: (joined chars items ++ ']' :: after) := by
      simp [chars, itemsText_eq]
    have hitems : listUntil ']' value (joined chars items ++ ']' :: after) = some (items, after) := by
      refine listUntil_joined (.inl rfl) after (fun w hw => ?_) fun w hw => hparts w (h w hw) ?_
      · obtain ⟨c, tail, hcons, hspace, hne, -⟩ := (h w hw).startsWith
        exact ⟨c, tail, hcons, hspace, hne⟩
      · have := length_le_length_joined chars hw
        simp only [chars, itemsText_eq, List.length_cons, List.length_append]
        omega
    rw [htext, valueOver, hitems]
    rfl
  | @object fields h =>
    have htext : chars (record fields) ++ after =
        '\x7b' :: (joined memberText (fields.map fun f => (.ofString f.1, f.2)) ++ '\x7d' :: after) := by
      simp [chars, record, membersText_eq]
    have hmembers : listUntil '\x7d' (member? value)
        (joined memberText (fields.map fun f => (.ofString f.1, f.2)) ++ '\x7d' :: after) =
          some (fields.map fun f => (.ofString f.1, f.2), after) := by
      refine listUntil_joined (.inr rfl) after (fun m hm => ?_) fun m hm after hafter => ?_
      · exact ⟨'\x22', _, rfl, by decide⟩
      · obtain ⟨f, hf, rfl⟩ := List.mem_map.1 hm
        refine member?_memberText f.1 (hparts f.2 (h f hf) ?_ after hafter)
        have hmember := length_le_length_joined memberText hm
        simp only [memberText, chars, record, membersText_eq, List.length_cons, List.length_append] at hmember ⊢
        omega
    rw [htext, valueOver, hmembers]
    rfl

/-- **A value is read back from its text**, in front of anything that may follow a value. -/
theorem valueAt_chars : ∀ {depth : Nat} {v : Json} {after : List Char}, v.Plain → (chars v).length < depth →
    Behind after → valueAt depth (chars v ++ after) = some (v, after)
  | depth + 1, v, after, h, hdepth, hafter => by
    obtain ⟨c, tail, hcons, hspace, -⟩ := h.startsWith
    have hskip : skipSpace (chars v ++ after) = chars v ++ after :=
      skipSpace_eq ⟨c, tail ++ after, by rw [hcons, List.cons_append], hspace⟩
    rw [valueAt, hskip]
    exact h.valueOver_chars (fun w hw hlt after hafter => valueAt_chars hw (by omega) hafter) hafter

theorem parse?_text {v : Json} (h : v.Plain) : parse? v.text = some v := by
  have hchars : v.text.toList = chars v := String.toList_ofList
  have hread := h.valueAt_chars (Nat.lt_succ_self (chars v).length) behind_nil
  rw [List.append_nil] at hread
  rw [parse?, hchars]
  simp only [hread, Option.bind_eq_bind, Option.bind_some, skipSpace, List.dropWhile_nil, List.isEmpty_nil, if_true]

end Plain

end SelectRouting.Json
