import SelectRouting.Text.WhiteSpace
/-!
# Trivia

Between two tokens may stand white space, line comments from two hyphens up to the end of the line, and block comments up
to the first closing mark or the end of the text.  Main statement: what is skipped and what is left make up the text
(`split_append`).
-/
namespace SelectRouting.Token.Trivia

/-- Where a position in trivia is. -/
inductive Place where
  | outside
  | line
  | block

/-- A split with more characters in front of the skipped part. -/
def extend (skipped : List Char) (r : List Char × List Char) : List Char × List Char :=
  (skipped ++ r.1, r.2)

/-- The trivia at the front of a text and what follows it. -/
def splitAt : Place → List Char → List Char × List Char
  | _, [] => ([], [])
  | .outside, '-' :: '-' :: cs => extend ['-', '-'] (splitAt .line cs)
  | .outside, '/' :: '*' :: cs => extend ['/', '*'] (splitAt .block cs)
  | .outside, c :: cs => if Text.isWhiteSpace c then extend [c] (splitAt .outside cs) else ([], c :: cs)
  | .line, '\n' :: cs => extend ['\n'] (splitAt .outside cs)
  | .line, c :: cs => extend [c] (splitAt .line cs)
  | .block, '*' :: '/' :: cs => extend ['*', '/'] (splitAt .outside cs)
  | .block, c :: cs => extend [c] (splitAt .block cs)

def split (cs : List Char) : List Char × List Char :=
  splitAt .outside cs

theorem splitAt_append (p : Place) (cs : List Char) : (splitAt p cs).1 ++ (splitAt p cs).2 = cs := by
  fun_induction splitAt p cs <;> simp_all [extend]

theorem split_append (cs : List Char) : (split cs).1 ++ (split cs).2 = cs :=
  splitAt_append .outside cs

end SelectRouting.Token.Trivia
