/-!
# Byte offsets into a text

Places in a text are counted in bytes of its UTF-8 form.  A cut is possible only between two characters, so both ways of
cutting answer `none` at an offset inside a character or behind the end.  Main statement: a cut that succeeds divides the
text (`dropBytes?_byteSize`, `takeBytes?_byteSize`).
-/
namespace SelectRouting.Text

def byteSize : List Char → Nat
  | [] => 0
  | c :: cs => c.utf8Size + byteSize cs

@[simp] theorem byteSize_append : ∀ a b : List Char, byteSize (a ++ b) = byteSize a + byteSize b
  | [], b => by simp [byteSize]
  | c :: a, b => by simp [byteSize, byteSize_append a b, Nat.add_assoc]

theorem byteSize_pos {cs : List Char} (h : cs ≠ []) : 0 < byteSize cs := by
  cases cs with
  | nil => exact absurd rfl h
  | cons c cs =>
    have := c.utf8Size_pos
    simp only [byteSize]
    omega

/-- What follows the first `n` bytes. -/
def dropBytes? : List Char → Nat → Option (List Char)
  | cs, 0 => some cs
  | [], _ + 1 => none
  | c :: cs, n + 1 => if c.utf8Size ≤ n + 1 then dropBytes? cs (n + 1 - c.utf8Size) else none

/-- The first `n` bytes. -/
def takeBytes? : List Char → Nat → Option (List Char)
  | _, 0 => some []
  | [], _ + 1 => none
  | c :: cs, n + 1 =>
    if c.utf8Size ≤ n + 1 then (takeBytes? cs (n + 1 - c.utf8Size)).map (c :: ·) else none

theorem dropBytes?_byteSize : ∀ a b : List Char, dropBytes? (a ++ b) (byteSize a) = some b
  | [], b => by simp [byteSize, dropBytes?]
  | c :: a, b => by
    have := c.utf8Size_pos
    obtain ⟨n, hn⟩ : ∃ n, c.utf8Size + byteSize a = n + 1 := ⟨c.utf8Size + byteSize a - 1, by omega⟩
    have h : n + 1 - c.utf8Size = byteSize a := by omega
    rw [byteSize, hn, List.cons_append, dropBytes?, if_pos (by omega), h]
    exact dropBytes?_byteSize a b

theorem takeBytes?_byteSize : ∀ a b : List Char, takeBytes? (a ++ b) (byteSize a) = some a
  | [], b => by simp [byteSize, takeBytes?]
  | c :: a, b => by
    have := c.utf8Size_pos
    obtain ⟨n, hn⟩ : ∃ n, c.utf8Size + byteSize a = n + 1 := ⟨c.utf8Size + byteSize a - 1, by omega⟩
    have h : n + 1 - c.utf8Size = byteSize a := by omega
    rw [byteSize, hn, List.cons_append, takeBytes?, if_pos (by omega), h, takeBytes?_byteSize a b]
    rfl

end SelectRouting.Text
