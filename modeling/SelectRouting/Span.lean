import SelectRouting.Text.Bytes
/-!
# Spans

A half-open range of byte offsets into the text of a statement.  Spans say where a token, a column or an error stands, and
where an edit goes, always in the text exactly as it was given.
-/
namespace SelectRouting

structure Span where
  start : Nat
  stop : Nat
  deriving DecidableEq, Inhabited

namespace Span

/-- The number of bytes; a reversed span has none. -/
def length? (s : Span) : Option Nat :=
  if s.start ≤ s.stop then some (s.stop - s.start) else none

def isEmpty (s : Span) : Bool :=
  s.start = s.stop

/-- The text covered; empty when the span is reversed, out of range or cuts a character. -/
def slice (s : Span) (source : String) : String :=
  match s.length?, Text.dropBytes? source.toList s.start with
  | some n, some rest => String.ofList ((Text.takeBytes? rest n).getD [])
  | _, _ => ""

end Span

end SelectRouting
