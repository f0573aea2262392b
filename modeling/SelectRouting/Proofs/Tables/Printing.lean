import SelectRouting.Proofs.Leaf
import SelectRouting.Proofs.Precedence.Printing
/-!
# Printing an entry of FROM

An entry is printed with quotes around every name, `AS` in front of every alias, its joins from left to right, and
parentheses around a right side that is itself a join (`TableRef.text`).  The text is lexed to the tokens that were printed
(`TableRef.Plain.kinds_text`).
-/
namespace SelectRouting

open Token (Kind)
open SelectRouting.Expr (Readable commas marking)

/-! ## Joins -/

/-- The keywords of a join, with or without those that mean nothing. -/
def JoinKind.words (full : Bool) : JoinKind → List Kind
  | .inner => marking .inner full ++ [.keyword .join]
  | .left => .keyword .left :: (marking .outer full ++ [.keyword .join])
  | .right => .keyword .right :: (marking .outer full ++ [.keyword .join])
  | .full => .keyword .full :: (marking .outer full ++ [.keyword .join])
  | .cross => [.keyword .cross, .keyword .join]

/-- A join is by a condition that is printed with what it has or by some columns, and a cross join by neither. -/
inductive JoinedBy : JoinKind → Option Expr → List String → Prop where
  | nothing : JoinedBy .cross none []
  | condition {kind : JoinKind} {e : Expr} (hkind : kind ≠ .cross) (plain : e.Plain) : JoinedBy kind (some e) []
  | columns {kind : JoinKind} {names : List String} (hkind : kind ≠ .cross) (hne : names ≠ []) : JoinedBy kind none names

namespace TableRef

/-- A name or nothing, with a token that stands at one side of it. -/
def printSchema : Option String → List Kind
  | none => []
  | some schema => [.identifier schema, .dot]

def printAlias : Option String → List Kind
  | none => []
  | some name => [.keyword .as, .identifier name]

def printColumns (names : List String) : List Kind :=
  commas (names.map fun name => [.identifier name])

def printBy : Option Expr → List String → List Kind
  | some e, _ => .keyword .on :: e.print
  | none, [] => []
  | none, name :: names => .keyword .using :: .leftParen :: (printColumns (name :: names) ++ [.rightParen])

/-- Parentheses around a join. -/
def bracketed : TableRef → List Kind → List Kind
  | .table .., ks => ks
  | .join .., ks => .leftParen :: (ks ++ [.rightParen])

/-- The tokens that an entry is printed as. -/
def print (full : Bool) : TableRef → List Kind
  | .table schema name aliasName _ => printSchema schema ++ .identifier name :: printAlias aliasName
  | .join kind left right condition columns =>
    left.print full ++ (kind.words full ++ (bracketed right (right.print full) ++ printBy condition columns))

/-- An entry without its places, and without the parentheses in its conditions. -/
def bare : TableRef → TableRef
  | .table schema name aliasName _ => .table schema name aliasName ⟨0, 0⟩
  | .join kind left right condition columns => .join kind left.bare right.bare (condition.map Expr.bare) columns

/-- An entry that is printed with what it has. -/
def Plain : TableRef → Prop
  | .table .. => True
  | .join kind left right condition columns => left.Plain ∧ right.Plain ∧ JoinedBy kind condition columns

/-- The text of an entry, with quotes around names. -/
def text (q : Token.Quote) (full : Bool) (t : TableRef) : String :=
  String.ofList (Token.spell q (t.print full))

/-! ## Texts -/

variable {full : Bool} {t : TableRef} {ks : List Kind}

@[simp] theorem readable_words {kind : JoinKind} : Readable (kind.words full) := by
  cases kind <;> simp [JoinKind.words, Kind.Chosen]

@[simp] theorem readable_printSchema (schema : Option String) : Readable (printSchema schema) := by
  cases schema <;> simp [printSchema, Kind.Chosen]

@[simp] theorem readable_printAlias (aliasName : Option String) : Readable (printAlias aliasName) := by
  cases aliasName <;> simp [printAlias, Kind.Chosen]

@[simp] theorem readable_bracketed : Readable (bracketed t ks) ↔ Readable ks := by
  cases t <;> simp [bracketed, Kind.Chosen]

theorem readable_printBy {kind : JoinKind} {condition : Option Expr} {columns : List String}
    (h : JoinedBy kind condition columns) : Readable (printBy condition columns) := by
  cases h with
  | nothing => exact Expr.readable_nil
  | condition _ plain => exact Expr.readable_cons.2 ⟨trivial, plain.readable⟩
  | columns _ hne =>
    cases columns with
    | nil => exact absurd rfl hne
    | cons name names => simp [printBy, printColumns, Kind.Chosen]

namespace Plain

theorem readable (h : t.Plain) : Readable (t.print full) := by
  induction t with
  | table schema name aliasName span => simp [print, Kind.Chosen]
  | join kind left right condition columns ihleft ihright =>
    obtain ⟨hleft, hright, hby⟩ := h
    simp [print, ihleft hleft, ihright hright, readable_printBy hby]

/-- **The text of a plain entry is lexed to the kinds it is printed as.** -/
theorem kinds_text {q : Token.Quote} (hq : q ≠ .single) (full : Bool) (h : t.Plain) :
    (Token.lex (t.text q full)).map (·.kind) = t.print full ++ [.eof] := by
  rw [Token.lex, text, String.toList_ofList]
  exact Token.kinds_spell hq (t.print full) h.readable

end Plain

end TableRef

end SelectRouting
