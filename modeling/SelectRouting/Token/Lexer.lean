import SelectRouting.Text.Alphabetic
import SelectRouting.Text.Numeric
import SelectRouting.Token.Trivia
import SelectRouting.Token.Quoted
import SelectRouting.Token.Numeral
/-!
# From a text to its tokens

The lexer skips trivia and reads one token by its first character, and so on to the end of the text.  A token always takes
at least one character, so the text gets shorter with each.  Main statement: a token and what follows it make up the text
that it was read from (`lexeme_append`).
-/
namespace SelectRouting.Token

/-- One token at the front of a text: its kind, its characters, and what follows. -/
structure Lexeme where
  kind : Kind
  text : List Char
  rest : List Char

/-! ## Words -/

def isWordStart (c : Char) : Bool :=
  Text.isAlphabetic c || c = '_'

def isWordPart (c : Char) : Bool :=
  Text.isAlphabetic c || Text.isNumeric c || c = '_' || c = '$' || c = '#'

/-- A word that spells a keyword is one, any other is a name. -/
def wordKind (word : List Char) : Kind :=
  match Keyword.ofWord? word with
  | some k => .keyword k
  | none => .identifier (String.ofList word)

/-! ## Signs -/

def sign? : Char → Option Kind
  | '(' => some .leftParen
  | ')' => some .rightParen
  | ',' => some .comma
  | ';' => some .semicolon
  | '.' => some .dot
  | '?' => some .question
  | '+' => some .plus
  | '-' => some .minus
  | '*' => some .star
  | '/' => some .slash
  | '%' => some .percent
  | '=' => some .eq
  | '<' => some .lt
  | '>' => some .gt
  | _ => none

/-- The signs of two characters. -/
def doubleSign? : Char → Char → Option Kind
  | '<', '=' => some .ltEq
  | '<', '>' => some .notEq
  | '>', '=' => some .gtEq
  | '!', '=' => some .notEq
  | '|', '|' => some .concat
  | _, _ => none

def signKind (c : Char) : Kind :=
  (sign? c).getD (.error ("Unexpected character: " ++ c.toString))

/-- A sign of two characters goes before a sign of one; a character that is no sign is an error by itself. -/
def sign (c : Char) (cs : List Char) : Lexeme :=
  match cs with
  | d :: rest => (doubleSign? c d).elim ⟨signKind c, [c], cs⟩ fun k => ⟨k, [c, d], rest⟩
  | [] => ⟨signKind c, [c], []⟩

/-! ## One token -/

/-- A quoted text; one that is not closed takes the rest of the text. -/
def quoted (q : Quote) (cs : List Char) : Lexeme :=
  match Quote.read? q.closing cs with
  | some (payload, rest) =>
    ⟨q.kind (String.ofList payload), q.opening :: (Quote.encode q.closing payload ++ [q.closing]), rest⟩
  | none => ⟨.error q.unterminated, q.opening :: cs, []⟩

/-- The token that starts with `c`. -/
def lexeme (c : Char) (cs : List Char) : Lexeme :=
  match Quote.ofOpening? c with
  | some q => quoted q cs
  | none =>
    if Decimal.isDigit c then
      let r := Decimal.Numeral.split (c :: cs)
      ⟨numeralKind r.1, r.1.text, r.2⟩
    else if isWordStart c then
      let word := c :: cs.takeWhile isWordPart
      ⟨wordKind word, word, cs.dropWhile isWordPart⟩
    else sign c cs

theorem quoted_append (q : Quote) (cs : List Char) : (quoted q cs).text ++ (quoted q cs).rest = q.opening :: cs := by
  unfold quoted
  split
  · next payload rest h => simp [Quote.append_of_read? h]
  · simp

theorem opening_of_ofOpening? {c : Char} {q : Quote} (h : Quote.ofOpening? c = some q) : q.opening = c := by
  have := List.find?_some h
  simpa using this

theorem sign_append (c : Char) (cs : List Char) : (sign c cs).text ++ (sign c cs).rest = c :: cs := by
  unfold sign
  split
  · next d rest => cases doubleSign? c d <;> simp
  · simp

theorem lexeme_append (c : Char) (cs : List Char) : (lexeme c cs).text ++ (lexeme c cs).rest = c :: cs := by
  unfold lexeme
  split
  · next q hq => rw [quoted_append, opening_of_ofOpening? hq]
  · split
    · exact Decimal.Numeral.split_append (c :: cs)
    · split
      · simp
      · exact sign_append c cs

theorem quoted_text_ne_nil (q : Quote) (cs : List Char) : (quoted q cs).text ≠ [] := by
  unfold quoted
  split <;> simp

theorem lexeme_text_ne_nil (c : Char) (cs : List Char) : (lexeme c cs).text ≠ [] := by
  unfold lexeme
  split
  · exact quoted_text_ne_nil _ cs
  · split
    · next hd => simp [Decimal.Numeral.split, Decimal.Numeral.text, hd]
    · split
      · simp
      · unfold sign
        split
        · next d rest => cases doubleSign? c d <;> simp
        · simp

theorem length_rest_lt (c : Char) (cs : List Char) : (lexeme c cs).rest.length < (c :: cs).length := by
  have h := congrArg List.length (lexeme_append c cs)
  have := List.length_pos_iff.2 (lexeme_text_ne_nil c cs)
  rw [List.length_append] at h
  omega

/-! ## All tokens -/

/-- The tokens of a text whose first character stands at `offset`. -/
def lexFrom (offset : Nat) (cs : List Char) : List Token :=
  let start := offset + Text.byteSize (Trivia.split cs).1
  match _h : (Trivia.split cs).2 with
  | [] => [⟨.eof, ⟨start, start⟩, ""⟩]
  | c :: rest =>
    let x := lexeme c rest
    let stop := start + Text.byteSize x.text
    ⟨x.kind, ⟨start, stop⟩, String.ofList x.text⟩ :: lexFrom stop x.rest
termination_by cs.length
decreasing_by
  have h1 := length_rest_lt c rest
  have h2 := congrArg List.length (Trivia.split_append cs)
  rw [List.length_append, _h] at h2
  omega

/-- The tokens of a text; the last one, and only that, is the end of the input. -/
def lex (source : String) : List Token :=
  lexFrom 0 source.toList

/-- A text that is given by its characters is read without taking them out of the text. -/
theorem lex_of_chars (source : String) {cs : List Char} (h : source = String.ofList cs) : lex source = lexFrom 0 cs := by
  rw [h, lex, String.toList_ofList]

/-- The first `n` tokens; behind the end of the input there is only more of it. -/
def firstTokens (source : String) (n : Nat) : List Token :=
  let tokens := lex source
  (tokens ++ (tokens.getLast?.map (List.replicate n)).getD []).take n

end SelectRouting.Token
