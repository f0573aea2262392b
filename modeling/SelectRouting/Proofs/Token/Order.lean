import SelectRouting.Token.Lexer
/-!
# The tokens of a text in their places

A token stands where its characters stand: its span cuts them out of the text (`slice_of_mem_lex`), and tokens follow
each other without overlap (`pairwise_before_lex`).  The end of the input comes last and once (`complete_lex`).
-/
namespace SelectRouting

/-- In front of another span, with its first and with its last byte. -/
def Span.Before (a b : Span) : Prop :=
  a.start < b.start ∧ a.stop ≤ b.start

namespace Token

open Decimal (isDigit digitsValue)

/-! ## The end of the input -/

/-- The last token, and only that, is the end of the input. -/
def Complete : List Token → Prop
  | [] => False
  | t :: ts => (t.kind = .eof ∧ ts = []) ∨ (t.kind ≠ .eof ∧ Complete ts)

theorem Complete.of_append : ∀ {a b : List Token}, b ≠ [] → Complete (a ++ b) → Complete b
  | [], _, _, h => h
  | _ :: a, b, hb, h => by
    rcases h with ⟨-, h⟩ | ⟨-, h⟩
    · exact absurd (List.append_eq_nil_iff.1 h).2 hb
    · exact Complete.of_append hb h

/-! ## The kinds that a first character leads to -/

/-- Neither an integer nor the end of the input. -/
def Kind.Plain : Kind → Prop
  | .integer _ | .eof => False
  | _ => True

theorem plain_quoted (q : Quote) (cs : List Char) : (quoted q cs).kind.Plain := by
  unfold quoted
  split
  · cases q <;> trivial
  · trivial

theorem plain_wordKind (word : List Char) : (wordKind word).Plain := by
  unfold wordKind
  split <;> trivial

/-- A sign, or a character that is none: no value, no name and no keyword. -/
def Kind.Sign : Kind → Prop
  | .integer _ | .float _ | .string _ | .identifier _ | .keyword _ | .eof => False
  | _ => True

theorem Kind.Sign.plain {k : Kind} (h : k.Sign) : k.Plain := by
  cases k <;> trivial

theorem sign_of_sign? {c : Char} {k : Kind} (h : sign? c = some k) : k.Sign := by
  unfold sign? at h
  split at h <;> cases h <;> trivial

theorem sign_of_doubleSign? {c d : Char} {k : Kind} (h : doubleSign? c d = some k) : k.Sign := by
  unfold doubleSign? at h
  split at h <;> cases h <;> trivial

theorem sign_signKind (c : Char) : (signKind c).Sign := by
  unfold signKind
  cases h : sign? c with
  | none => trivial
  | some k => exact sign_of_sign? h

theorem sign_sign (c : Char) (cs : List Char) : (sign c cs).kind.Sign := by
  unfold sign
  split
  · next d rest =>
    cases h : doubleSign? c d with
    | none => exact sign_signKind c
    | some k => exact sign_of_doubleSign? h
  · exact sign_signKind c

/-- A number, or digits that are none. -/
def Kind.Numeric : Kind → Prop
  | .integer _ | .float _ | .error _ => True
  | _ => False

theorem numeric_numeralKind (n : Decimal.Numeral) : (numeralKind n).Numeric := by
  unfold numeralKind
  split
  · simp only
    split <;> trivial
  · trivial
  · trivial

/-- Only a digit leads to a kind that is not plain. -/
theorem plain_or_isDigit (c : Char) (cs : List Char) :
    (lexeme c cs).kind.Plain ∨ isDigit c = true ∧
      (lexeme c cs).kind = numeralKind (Decimal.Numeral.split (c :: cs)).1 ∧
      (lexeme c cs).text = (Decimal.Numeral.split (c :: cs)).1.text := by
  unfold lexeme
  split
  · exact .inl (plain_quoted _ cs)
  · split
    · next hd => exact .inr ⟨hd, rfl, rfl⟩
    · split
      · exact .inl (plain_wordKind _)
      · exact .inl (sign_sign c cs).plain

theorem lexeme_kind_ne_eof (c : Char) (cs : List Char) : (lexeme c cs).kind ≠ .eof := by
  intro he
  rcases plain_or_isDigit c cs with h | ⟨-, h, -⟩
  · rw [he] at h
    exact h
  · have hnumeric := numeric_numeralKind (Decimal.Numeral.split (c :: cs)).1
    rw [← h, he] at hnumeric
    exact hnumeric

/-! ## One token after the other -/

theorem lexFrom_of_nil {offset : Nat} {cs : List Char} (h : (Trivia.split cs).2 = []) :
    lexFrom offset cs = [⟨.eof, ⟨offset + Text.byteSize (Trivia.split cs).1,
      offset + Text.byteSize (Trivia.split cs).1⟩, ""⟩] := by
  rw [lexFrom]
  split
  · rfl
  · simp_all

theorem lexFrom_of_cons {offset : Nat} {cs : List Char} {c : Char} {rest : List Char}
    (h : (Trivia.split cs).2 = c :: rest) :
    lexFrom offset cs =
      let start := offset + Text.byteSize (Trivia.split cs).1
      let stop := start + Text.byteSize (lexeme c rest).text
      ⟨(lexeme c rest).kind, ⟨start, stop⟩, String.ofList (lexeme c rest).text⟩ ::
        lexFrom stop (lexeme c rest).rest := by
  rw [lexFrom]
  split
  · simp_all
  · next hc =>
    obtain ⟨rfl, rfl⟩ := List.cons.inj (h.symm.trans hc)
    rfl

theorem complete_lexFrom (offset : Nat) (cs : List Char) : Complete (lexFrom offset cs) := by
  induction offset, cs using lexFrom.induct with
  | case1 offset cs h =>
    rw [lexFrom_of_nil h]
    exact .inl ⟨rfl, rfl⟩
  | case2 offset cs start c rest h x stop ih =>
    rw [lexFrom_of_cons h]
    exact .inr ⟨lexeme_kind_ne_eof c rest, ih⟩

theorem le_start_of_mem_lexFrom (offset : Nat) (cs : List Char) : ∀ t ∈ lexFrom offset cs, offset ≤ t.span.start := by
  induction offset, cs using lexFrom.induct with
  | case1 offset cs h =>
    intro t ht
    rw [lexFrom_of_nil h, List.mem_singleton] at ht
    subst ht
    exact Nat.le_add_right ..
  | case2 offset cs start c rest h x stop ih =>
    intro t ht
    rw [lexFrom_of_cons h, List.mem_cons] at ht
    rcases ht with rfl | ht
    · exact Nat.le_add_right ..
    · exact Nat.le_trans (by omega) (ih t ht)

theorem pairwise_before_lexFrom (offset : Nat) (cs : List Char) :
    (lexFrom offset cs).Pairwise fun a b => a.span.Before b.span := by
  induction offset, cs using lexFrom.induct with
  | case1 offset cs h =>
    rw [lexFrom_of_nil h]
    exact List.pairwise_singleton ..
  | case2 offset cs start c rest h x stop ih =>
    rw [lexFrom_of_cons h]
    refine List.pairwise_cons.2 ⟨fun t ht => ?_, ih⟩
    have hstop := le_start_of_mem_lexFrom _ _ t ht
    have hpos := Text.byteSize_pos (lexeme_text_ne_nil c rest)
    exact ⟨Nat.lt_of_lt_of_le (Nat.lt_add_of_pos_right hpos) hstop, hstop⟩

theorem complete_lex (source : String) : Complete (lex source) :=
  complete_lexFrom 0 source.toList

theorem pairwise_before_lex (source : String) : (lex source).Pairwise fun a b => a.span.Before b.span :=
  pairwise_before_lexFrom 0 source.toList

/-- No two tokens of a text have the same place. -/
theorem index_eq_of_span {source : String} {i k : Nat} {t u : Token} (ht : (lex source)[i]? = some t)
    (hu : (lex source)[k]? = some u) (h : t.span = u.span) : i = k := by
  have hbefore := List.pairwise_iff_getElem.1 (pairwise_before_lex source)
  obtain ⟨hi, hti⟩ := List.getElem?_eq_some_iff.1 ht
  obtain ⟨hk, huk⟩ := List.getElem?_eq_some_iff.1 hu
  rcases Nat.lt_trichotomy i k with hlt | heq | hlt
  · have := (hbefore i k hi hk hlt).1
    rw [hti, huk, h] at this
    exact absurd this (Nat.lt_irrefl _)
  · exact heq
  · have := (hbefore k i hk hi hlt).1
    rw [hti, huk, h] at this
    exact absurd this (Nat.lt_irrefl _)

theorem eq_of_span {source : String} {t u : Token} (ht : t ∈ lex source) (hu : u ∈ lex source) (h : t.span = u.span) :
    t = u := by
  obtain ⟨i, hi⟩ := List.mem_iff_getElem?.1 ht
  obtain ⟨k, hk⟩ := List.mem_iff_getElem?.1 hu
  obtain rfl := index_eq_of_span hi hk h
  exact Option.some.inj (hi.symm.trans hk)

/-! ## The characters of a token -/

-- The offset alone does not say where in the text the characters stand, so the characters in front are given too.
theorem slice_of_mem_lexFrom (offset : Nat) (cs : List Char) :
    ∀ (source : String) (passed : List Char), source.toList = passed ++ cs → Text.byteSize passed = offset →
      ∀ t ∈ lexFrom offset cs, t.span.slice source = t.text := by
  induction offset, cs using lexFrom.induct with
  | case1 offset cs h =>
    intro source passed hs ho t ht
    rw [lexFrom_of_nil h, List.mem_singleton] at ht
    subst ht
    have hd := Text.dropBytes?_byteSize (passed ++ (Trivia.split cs).1) []
    have hsplit := Trivia.split_append cs
    rw [h, List.append_nil] at hsplit
    rw [Text.byteSize_append, ho, List.append_nil, hsplit, ← hs] at hd
    simp [Span.slice, Span.length?, hsplit, hd, Text.takeBytes?]
  | case2 offset cs start c rest h x stop ih =>
    intro source passed hs ho t ht
    have hsplit := Trivia.split_append cs
    have hx := lexeme_append c rest
    rw [h] at hsplit
    rw [lexFrom_of_cons h, List.mem_cons] at ht
    rcases ht with rfl | ht
    · have hd := Text.dropBytes?_byteSize (passed ++ (Trivia.split cs).1) (c :: rest)
      rw [Text.byteSize_append, ho, List.append_assoc, hsplit, ← hs] at hd
      have htake := Text.takeBytes?_byteSize (lexeme c rest).text (lexeme c rest).rest
      rw [hx] at htake
      simp [Span.slice, Span.length?, hd, htake]
    · refine ih source (passed ++ (Trivia.split cs).1 ++ x.text) ?_ ?_ t ht
      · rw [hs, List.append_assoc, List.append_assoc, hx, hsplit]
      · simp only [Text.byteSize_append, ho, start, stop]

theorem stop_of_mem_lexFrom (offset : Nat) (cs : List Char) :
    ∀ t ∈ lexFrom offset cs, t.span.stop = t.span.start + Text.byteSize t.text.toList := by
  induction offset, cs using lexFrom.induct with
  | case1 offset cs h =>
    intro t ht
    rw [lexFrom_of_nil h, List.mem_singleton] at ht
    subst ht
    rfl
  | case2 offset cs start c rest h x stop ih =>
    intro t ht
    rw [lexFrom_of_cons h, List.mem_cons] at ht
    rcases ht with rfl | ht
    · rw [String.toList_ofList]
    · exact ih t ht

/-- A span is as long as the characters of its token. -/
theorem stop_of_mem_lex {source : String} {t : Token} (h : t ∈ lex source) :
    t.span.stop = t.span.start + Text.byteSize t.text.toList :=
  stop_of_mem_lexFrom 0 source.toList t h

theorem slice_of_mem_lex {source : String} {t : Token} (h : t ∈ lex source) : t.span.slice source = t.text :=
  slice_of_mem_lexFrom 0 source.toList source [] rfl rfl t h

/-! ## Integers -/

/-- Spelled by decimal digits alone, which stand for the number. -/
def Spells (t : Token) (v : Nat) : Prop :=
  t.text ≠ "" ∧ (∀ c ∈ t.text.toList, isDigit c = true) ∧ digitsValue t.text.toList = v

/-- A numeral is an integer only without a point and an exponent, and only up to the largest one. -/
theorem of_numeralKind {n : Decimal.Numeral} {v : Int} (h : numeralKind n = .integer v) :
    n = ⟨n.whole, none, none⟩ ∧ v = digitsValue n.whole ∧ digitsValue n.whole ≤ largestInteger := by
  obtain ⟨whole, fraction, exponent⟩ := n
  unfold numeralKind at h
  split at h
  · next hf hx =>
    obtain rfl : fraction = none := hf
    obtain rfl : exponent = none := hx
    simp only at h
    split at h
    · next hle => exact ⟨rfl, (Kind.integer.inj h).symm, hle⟩
    · cases h
  · cases h
  · cases h

theorem lexeme_of_integer {c : Char} {cs : List Char} {v : Int} (h : (lexeme c cs).kind = .integer v) :
    (∀ d ∈ (lexeme c cs).text, isDigit d = true) ∧ v = digitsValue (lexeme c cs).text := by
  rcases plain_or_isDigit c cs with hp | ⟨-, hk, ht⟩
  · rw [h] at hp
    exact hp.elim
  · obtain ⟨hn, hv, -⟩ := of_numeralKind (hk.symm.trans h)
    have htext : (lexeme c cs).text = (Decimal.Numeral.split (c :: cs)).1.whole := by
      rw [ht, hn]
      simp [Decimal.Numeral.text]
    rw [htext]
    exact ⟨fun d hd => by simpa using List.all_eq_true.1 List.all_takeWhile d hd, hv⟩

/-- Every token in front of the end of the input is one that a first character leads to. -/
theorem exists_lexeme_of_mem_lexFrom (offset : Nat) (cs : List Char) :
    ∀ t ∈ lexFrom offset cs, t.kind = .eof ∨
      ∃ c rest, t.kind = (lexeme c rest).kind ∧ t.text = String.ofList (lexeme c rest).text := by
  induction offset, cs using lexFrom.induct with
  | case1 offset cs h =>
    intro t ht
    rw [lexFrom_of_nil h, List.mem_singleton] at ht
    exact .inl (by rw [ht])
  | case2 offset cs start c rest h x stop ih =>
    intro t ht
    rw [lexFrom_of_cons h, List.mem_cons] at ht
    rcases ht with rfl | ht
    · exact .inr ⟨c, rest, rfl, rfl⟩
    · exact ih t ht

/-- An integer token is spelled by the digits of its value. -/
theorem spells_of_mem_lex {source : String} {t : Token} {v : Nat} (h : t ∈ lex source) (hv : t.kind = .integer v) :
    t.Spells v := by
  rcases exists_lexeme_of_mem_lexFrom 0 source.toList t h with he | ⟨c, rest, hk, ht⟩
  · rw [hv] at he
    cases he
  · obtain ⟨hdigits, hvalue⟩ := lexeme_of_integer (hk.symm.trans hv)
    rw [Spells, ht, String.toList_ofList]
    exact ⟨by simpa using lexeme_text_ne_nil c rest, hdigits, (Int.ofNat.inj hvalue).symm⟩

end Token

end SelectRouting
