import SelectRouting.Proofs.Trace.Run
/-!
# The names of tokens

The name of a token is what it is written with, without the quotes if it has any (`unquoted_text`), and so is a string
(`unquoted_text_of_string`).
-/
namespace SelectRouting

namespace Token

/-- A name or a string without the quotes that it is written with. -/
def unquoted (written : String) : String :=
  match written.toList with
  | [] => written
  | c :: cs =>
    match Quote.ofOpening? c with
    | none => written
    | some q => ((Quote.read? q.closing cs).map fun r => String.ofList r.1).getD written

/-- The characters of a kind are its name with or without quotes, or its string. -/
def Kind.WrittenAs (text : String) : Kind → Prop
  | .identifier name => unquoted text = name
  | .string value => unquoted text = value
  | .keyword _ => unquoted text = text
  | _ => True

theorem ofOpening?_opening (q : Quote) : Quote.ofOpening? q.opening = some q := by
  cases q <;> decide

theorem writtenAs_quoted (q : Quote) (cs : List Char) :
    (quoted q cs).kind.WrittenAs (String.ofList (quoted q cs).text) := by
  unfold quoted
  split
  · next payload rest hread =>
    have hback := Quote.read?_encode q.closing payload [] nofun
    have hunquoted : unquoted (String.ofList (q.opening :: (Quote.encode q.closing payload ++ [q.closing]))) =
        String.ofList payload := by
      simp [unquoted, ofOpening?_opening, hback]
    cases q <;> exact hunquoted
  · trivial

theorem writtenAs_word {c : Char} {cs : List Char} (h : Quote.ofOpening? c = none) :
    (wordKind (c :: cs)).WrittenAs (String.ofList (c :: cs)) := by
  have hunquoted : unquoted (String.ofList (c :: cs)) = String.ofList (c :: cs) := by
    simp [unquoted, h]
  unfold wordKind
  split
  · exact hunquoted
  · exact hunquoted

theorem Kind.Numeric.writtenAs {k : Kind} (h : k.Numeric) (text : String) : k.WrittenAs text := by
  cases k <;> trivial

theorem Kind.Sign.writtenAs {k : Kind} (h : k.Sign) (text : String) : k.WrittenAs text := by
  cases k <;> trivial

theorem writtenAs_lexeme (c : Char) (cs : List Char) :
    (lexeme c cs).kind.WrittenAs (String.ofList (lexeme c cs).text) := by
  unfold lexeme
  split
  · exact writtenAs_quoted _ cs
  · next h =>
    split
    · exact (numeric_numeralKind _).writtenAs _
    · split
      · exact writtenAs_word h
      · exact (sign_sign c cs).writtenAs _

theorem writtenAs_of_mem_lex {source : String} {t : Token} (ht : t ∈ lex source) : t.kind.WrittenAs t.text := by
  rcases exists_lexeme_of_mem_lexFrom 0 source.toList t ht with heof | ⟨c, cs, hkind, htext⟩
  · rw [heof]
    trivial
  · rw [hkind, htext]
    exact writtenAs_lexeme c cs

/-- A string is what it is written with, without the quotes. -/
theorem unquoted_text_of_string {source : String} {t : Token} (ht : t ∈ lex source) {value : String}
    (hkind : t.kind = .string value) : unquoted t.text = value := by
  have hwritten := writtenAs_of_mem_lex ht
  rwa [hkind] at hwritten

/-- The name of a token is what it is written with, without the quotes. -/
theorem unquoted_text {source : String} {t : Token} (ht : t ∈ lex source) {name : String}
    (hname : t.name? = some name) : unquoted t.text = name := by
  have hwritten := writtenAs_of_mem_lex ht
  rcases name?_eq_some.1 hname with hkind | ⟨k, hkind, -, htext⟩
  · rwa [hkind] at hwritten
  · rw [hkind] at hwritten
    exact hwritten.trans htext

end Token

end SelectRouting
