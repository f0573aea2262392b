import SelectRouting.Token
/-!
# Quoted texts

A string literal stands between single quotes; a name may stand between double quotes, back quotes or brackets.  Inside, a
closing mark written twice stands for itself, and everything else for itself, so the payload is read without looking at
anything but the closing mark.  Main statements: reading undoes writing (`read?_encode`), and what was read is what writing
makes of the payload (`append_of_read?`).
-/
namespace SelectRouting.Token

inductive Quote where
  | single | double | back | bracket
  deriving DecidableEq

namespace Quote

def opening : Quote → Char
  | single => '\x27'
  | double => '\x22'
  | back => '\x60'
  | bracket => '['

def closing : Quote → Char
  | bracket => ']'
  | q => q.opening

def ofOpening? (c : Char) : Option Quote :=
  [single, double, back, bracket].find? (·.opening == c)

/-- Single quotes make a string, the others a name. -/
def kind : Quote → String → Kind
  | single => .string
  | _ => .identifier

/-- What a text is called that has no closing mark. -/
def unterminated : Quote → String
  | single => "Unterminated string literal"
  | _ => "Unterminated quoted identifier"

/-- The payload with every closing mark doubled. -/
def encode (close : Char) : List Char → List Char
  | [] => []
  | c :: cs => if c = close then c :: c :: encode close cs else c :: encode close cs

/-- Reads behind an opening mark: the payload and what follows the closing mark. -/
def read? (close : Char) : List Char → Option (List Char × List Char)
  | [] => none
  | [c] => if c = close then some ([], []) else none
  | c :: d :: cs =>
    if c = close then
      if d = close then (read? close cs).map fun r => (c :: r.1, r.2) else some ([], d :: cs)
    else (read? close (d :: cs)).map fun r => (c :: r.1, r.2)

theorem append_of_read? {close : Char} {cs payload rest : List Char} (h : read? close cs = some (payload, rest)) :
    cs = encode close payload ++ close :: rest := by
  fun_induction read? close cs generalizing payload with
  | case1 => simp at h
  | case2 => simp_all [encode]
  | case3 => simp_all
  | case4 cs ih =>
    obtain ⟨r, hr, h⟩ := Option.map_eq_some_iff.1 h
    obtain ⟨rfl, rfl⟩ := Prod.mk.injEq .. ▸ h
    simp [encode, ih hr]
  | case5 => simp_all [encode]
  | case6 c d cs hc ih =>
    obtain ⟨r, hr, h⟩ := Option.map_eq_some_iff.1 h
    obtain ⟨rfl, rfl⟩ := Prod.mk.injEq .. ▸ h
    simp [encode, hc, ih hr]

theorem read?_encode (close : Char) : ∀ payload rest : List Char, rest.head? ≠ some close →
    read? close (encode close payload ++ close :: rest) = some (payload, rest)
  | [], [], _ => by simp [encode, read?]
  | [], d :: rest, h => by
    have : d ≠ close := by simpa using h
    simp [encode, read?, this]
  | c :: payload, rest, h => by
    by_cases hc : c = close
    · subst hc
      have ih := read?_encode c payload rest h
      simp [encode, read?, ih]
    · have ih := read?_encode close payload rest h
      rw [encode, if_neg hc, List.cons_append]
      cases hx : encode close payload ++ close :: rest with
      | nil => simp at hx
      | cons d tail => rw [read?, if_neg hc, ← hx, ih]; rfl

end Quote

end SelectRouting.Token
