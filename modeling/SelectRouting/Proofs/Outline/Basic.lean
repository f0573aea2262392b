import SelectRouting.Dialect
import SelectRouting.Proofs.Form.Skipped
import SelectRouting.Proofs.Precedence.Written
/-!
# The outline of a text

A text falls into pieces that are read and clauses that are skipped as they are.  Which pieces stand one behind the other,
an outline says: it is a grammar over words, names, signs, operands, bounds and forms that are skipped, and there is one for
the statements of each dialect (`Dialect.statement`).  The entries of `FROM` are nested, so an outline only names them, and
what they are made of depends on the dialect (`Dialect.entry`).  Pieces that an outline derives (`Outline.Spells`) skip a
clause only where the grammar of the dialect has it, and have a bound only behind its keyword.
-/
namespace SelectRouting

/-! ## Pieces -/

inductive Piece where
  /-- A word, a name or a sign. -/
  | token (t : Token)
  /-- An expression. -/
  | operand (e : Expr) (ts : List Token)
  /-- The number or the parameter of `TOP`, `OFFSET` or `FETCH`. -/
  | bound (k : Keyword) (v : Limit.Value) (t : Token)
  /-- A clause that is passed as it is. -/
  | skipped (ts : List Token)

namespace Piece

def tokens : Piece → List Token
  | .token t | .bound _ _ t => [t]
  | .operand _ ts | .skipped ts => ts

/-- The tokens of a piece that is read. -/
def readTokens : Piece → List Token
  | .skipped _ => []
  | p => p.tokens

/-- The tokens of a piece that is skipped. -/
def skippedTokens : Piece → List Token
  | .skipped ts => ts
  | _ => []

def operand? : Piece → Option Expr
  | .operand e _ => some e
  | _ => none

end Piece

/-- How a row count or an offset is written. -/
def Limit.Value.SpelledBy : Limit.Value → Token → Prop
  | .literal n, t => t.kind = .integer n
  | .parameter _, t => t.kind = .question

/-! ## Outlines -/

/-- What stands for a single piece. -/
inductive Atom where
  /-- One of some keywords. -/
  | word (ks : List Keyword)
  /-- A token of a kind, whatever its value. -/
  | sign (k : Token.Kind)
  | name
  | operand
  | bound (k : Keyword)
  | skipped (f : Form)

/-- A piece that an atom stands for.  What is skipped is a whole clause of the dialect. -/
def Atom.Fits (d : Dialect) : Atom → Piece → Prop
  | .word ks, .token t => ∃ k ∈ ks, t.kind = .keyword k
  | .sign k, .token t => t.kind.alike k = true
  | .name, .token t => t.name?.isSome
  | .operand, .operand e ts => ∃ prior, e.Written prior ts
  | .bound k, .bound k' v t => k' = k ∧ v.SpelledBy t
  | .skipped f, .skipped ts => f ∈ d.skippedForms ∧ ∃ T, f.Derives T ∧ T.tokens = ts
  | _, _ => False

theorem Atom.fits_word {d : Dialect} {t : Token} {k : Keyword} {ks : List Keyword} (hmem : k ∈ ks)
    (hk : t.kind = .keyword k) : Fits d (.word ks) (.token t) :=
  ⟨k, hmem, hk⟩

theorem Atom.fits_sign {d : Dialect} {t : Token} {k : Token.Kind} (hk : t.kind = k) : Fits d (.sign k) (.token t) := by
  subst hk
  show t.kind.alike t.kind = true
  cases t.kind <;> simp [Token.Kind.alike]

inductive Outline where
  | atom (a : Atom)
  /-- An entry of `FROM`. -/
  | entry
  | nothing
  | seq (o p : Outline)
  | either (o p : Outline)
  /-- Any number of parts. -/
  | many (o : Outline)

namespace Outline

def word (ks : List Keyword) : Outline :=
  .atom (.word ks)

def sign (k : Token.Kind) : Outline :=
  .atom (.sign k)

def name : Outline :=
  .atom .name

def operand : Outline :=
  .atom .operand

def bound (k : Keyword) : Outline :=
  .atom (.bound k)

def skipped (f : Form) : Outline :=
  .atom (.skipped f)

/-- A part that may be missing. -/
def optional (o : Outline) : Outline :=
  .either o .nothing

/-- One or more parts with commas between them. -/
def separated (o : Outline) : Outline :=
  .seq o (.many (.seq (.sign .comma) o))

def parenthesized (o : Outline) : Outline :=
  .seq (.sign .leftParen) (.seq o (.sign .rightParen))

/-! ### The select list -/

/-- `[DISTINCT | ALL]`. -/
def distinct (d : Dialect) : Outline :=
  .either (.word (.distinct :: d.distinctSynonyms)) (.optional (.word [.all]))

/-- `[AS] alias`, with a name or a string behind `AS`. -/
def label : Outline :=
  .either (.seq (.word [.as]) (.either (.sign (.string "")) .name)) (.optional (.sign (.identifier "")))

/-- `[DESC | ASC]`. -/
def direction : Outline :=
  .either (.word [.desc]) (.optional (.word [.asc]))

/-- `[NULLS FIRST | NULLS LAST]`, which SQL Server does not have. -/
def nullOrder : Dialect → Outline
  | .sqlServer => .nothing
  | _ => .optional (.seq (.word [.nulls]) (.either (.word [.first]) (.word [.last])))

def orderItem (d : Dialect) : Outline :=
  .seq .operand (.seq direction (nullOrder d))

/-- `[ORDER BY …]`. -/
def orderBy (d : Dialect) : Outline :=
  .optional (.seq (.word [.order]) (.seq (.word [.by]) (.separated (orderItem d))))

/-- `ROW_NUMBER (…) OVER ([ORDER BY …]) [AS] alias`. -/
def numberedItem (d : Dialect) : Outline :=
  .seq (.skipped .rowNumber) (.seq (.word [.over])
    (.seq (.sign .leftParen) (.seq (orderBy d) (.seq (.sign .rightParen) label))))

def expressionItem : Outline :=
  .seq .operand label

def selectItem (d : Dialect) : Outline :=
  .seq (.optional (.word d.skippedBeforeItem))
    (match d with
      | .sqlServer => .either (numberedItem .sqlServer) expressionItem
      | _ => expressionItem)

/-! ### FROM -/

/-- `[schema.]name [alias]`. -/
def table : Outline :=
  .seq .name (.either (.seq (.sign .dot) (.seq .name label)) label)

/-- A table, or an entry in parentheses. -/
def plainFactor : Outline :=
  .either (parenthesized .entry) table

/-- A factor with its sample and its partitions. -/
def suffixedFactor : Outline :=
  .seq plainFactor (.seq (.optional (.skipped .sample)) (.seq (.optional (.skipped (.partition .partition)))
    (.optional (.skipped (.partition .subpartition)))))

/-- `ONLY factor | ONLY (factor) | factor [PIVOT …]`. -/
def oracleFactor : Outline :=
  .either (.seq (.word [.only]) (.either (parenthesized suffixedFactor) suffixedFactor))
    (.seq suffixedFactor (.optional (.skipped .pivot)))

def factor : Dialect → Outline
  | .oracle => oracleFactor
  | _ => plainFactor

/-- The hint that SQL Server allows behind a table factor. -/
def hint : Dialect → Outline
  | .sqlServer => .optional (.skipped .hint)
  | _ => .nothing

/-- The words of a join that is by something. -/
def joinWords : Outline :=
  .either (.word [.join]) (.either (.seq (.word [.inner]) (.word [.join]))
    (.seq (.word [.left, .right, .full]) (.seq (.optional (.word [.outer])) (.word [.join]))))

/-- `ON condition | USING (columns)`. -/
def joinedBy : Outline :=
  .either (.seq (.word [.on]) .operand) (.seq (.word [.using]) (parenthesized (.separated .name)))

/-- A join behind its left side. -/
def conditionalJoin (d : Dialect) : Outline :=
  .seq joinWords (.seq (factor d) joinedBy)

def crossWords : Outline :=
  .seq (.word [.cross]) (.word [.join])

def crossJoin (d : Dialect) : Outline :=
  .seq crossWords (factor d)

/-- A join with the hint that may follow, which is never behind a condition. -/
def join (d : Dialect) : Outline :=
  .either (conditionalJoin d) (.seq (crossJoin d) (hint d))

/-- `[FROM entry, …]`. -/
def fromClause : Outline :=
  .optional (.seq (.word [.from]) (.separated .entry))

/-! ### The clauses behind it -/

/-- A condition behind its keyword. -/
def filter (k : Keyword) : Outline :=
  .optional (.seq (.word [k]) .operand)

/-- `[GROUP BY …]`. -/
def groupBy : Outline :=
  .optional (.seq (.word [.group]) (.seq (.word [.by]) (.separated .operand)))

/-- `[CONNECT BY [NOCYCLE] condition]`. -/
def connectBy : Outline :=
  .optional (.seq (.word [.connect]) (.seq (.word [.by]) (.seq (.optional (.word [.nocycle])) .operand)))

/-- `[START WITH condition]`. -/
def startWith : Outline :=
  .optional (.seq (.word [.start]) (.seq (.word [.with]) .operand))

def hierarchy : Outline :=
  .seq connectBy (.seq startWith connectBy)

/-- `[WAIT n | SKIP LOCKED | NOWAIT]`. -/
def waiting : Outline :=
  .either (.seq (.word [.wait]) (.sign (.integer 0)))
    (.either (.seq (.word [.skip]) (.word [.locked])) (.optional (.word [.nowait])))

/-- `[FOR UPDATE [OF column, …] …]`. -/
def forUpdate : Outline :=
  .optional (.seq (.word [.for]) (.seq (.word [.update])
    (.seq (.optional (.seq (.word [.of]) (.separated .operand))) waiting)))

/-- One option of `FOR XML`. -/
def markupOption : Outline :=
  .either (.skipped .markup) (.either (.word [.auto, .explicit, .type])
    (.seq (.word [.elements]) (.optional (.word [.xsinil, .absent]))))

/-- `[FOR BROWSE | FOR XML option, …]`. -/
def forOutput : Outline :=
  .optional (.seq (.word [.for]) (.either (.word [.browse]) (.seq (.word [.xml]) (.separated markupOption))))

/-! ### Pagination -/

/-- `[TOP value [WITH TIES]]`, where the value may stand in parentheses. -/
def top : Outline :=
  .optional (.seq (.word [.top]) (.seq (.either (parenthesized (.bound .top)) (.bound .top))
    (.optional (.seq (.word [.with]) (.word [.ties])))))

/-- `[FETCH FIRST value ROWS ONLY]`. -/
def fetch : Outline :=
  .optional (.seq (.word [.fetch]) (.seq (.word [.first, .next])
    (.seq (.bound .fetch) (.seq (.word [.row, .rows]) (.word [.only])))))

/-- `[OFFSET value ROWS [FETCH …]]`. -/
def offsetFetch : Outline :=
  .optional (.seq (.word [.offset]) (.seq (.bound .offset) (.seq (.word [.row, .rows]) fetch)))

end Outline

/-! ## The statements of a dialect -/

namespace Dialect

open Outline

/-- What an entry of `FROM` is made of: a factor with any number of joins. -/
def entry (d : Dialect) : Outline :=
  .seq (factor d) (.seq (hint d) (.many (join d)))

/-- The clauses that all dialects have, with what a dialect puts between them. -/
def commonClauses (d : Dialect) (behindWhere behindHaving : Outline) : Outline :=
  .seq (.separated (selectItem d)) (.seq fromClause (.seq (filter .where) (.seq behindWhere
    (.seq groupBy (.seq (filter .having) (.seq behindHaving (orderBy d)))))))

/-- The clauses of a dialect in their order. -/
def clauses : Dialect → Outline
  | .generic => .seq (distinct .generic) (commonClauses .generic .nothing .nothing)
  | .oracle =>
    .seq (distinct .oracle) (.seq (commonClauses .oracle hierarchy (.optional (.skipped .model))) forUpdate)
  | .sqlServer =>
    .seq (distinct .sqlServer) (.seq top (.seq (commonClauses .sqlServer .nothing .nothing) (.seq offsetFetch forOutput)))

/-- A whole text: `SELECT`, the clauses, at most a semicolon, and the end of the input. -/
def statement (d : Dialect) : Outline :=
  .seq (.word [.select]) (.seq (.seq d.clauses (.optional (.sign .semicolon))) (.sign .eof))

end Dialect

/-! ## Derivations -/

namespace Outline

/-- Pieces that stand one behind the other as an outline says. -/
inductive Spells (d : Dialect) : Outline → List Piece → Prop where
  | atom {a : Atom} {p : Piece} (fits : a.Fits d p) : Spells d (.atom a) [p]
  | entry {ps : List Piece} (body : Spells d d.entry ps) : Spells d .entry ps
  | nothing : Spells d .nothing []
  | seq {o o' : Outline} {ps qs : List Piece} (head : Spells d o ps) (tail : Spells d o' qs) :
    Spells d (.seq o o') (ps ++ qs)
  | left {o o' : Outline} {ps : List Piece} (chosen : Spells d o ps) : Spells d (.either o o') ps
  | right {o o' : Outline} {ps : List Piece} (chosen : Spells d o' ps) : Spells d (.either o o') ps
  | done {o : Outline} : Spells d (.many o) []
  | more {o : Outline} {ps qs : List Piece} (head : Spells d o ps) (tail : Spells d (.many o) qs) :
    Spells d (.many o) (ps ++ qs)

variable {d : Dialect} {o : Outline} {ps : List Piece}

theorem Spells.of_seq_nothing (h : Spells d (.seq o .nothing) ps) : Spells d o ps := by
  cases h with
  | seq head tail =>
    cases tail
    exact (List.append_nil _).symm ▸ head

theorem Spells.of_nothing_seq (h : Spells d (.seq .nothing o) ps) : Spells d o ps := by
  cases h with
  | seq head tail =>
    cases head
    exact tail

theorem Spells.of_either_self (h : Spells d (.either o o) ps) : Spells d o ps := by
  cases h with
  | left chosen | right chosen => exact chosen

/-- One more part and a list behind it are a list. -/
theorem Spells.separated (h : Spells d (.seq o (.optional (.seq (.sign .comma) (.separated o)))) ps) :
    Spells d (.separated o) ps := by
  cases h with
  | seq head tail =>
    refine .seq head ?_
    cases tail with
    | right chosen =>
      cases chosen
      exact .done
    | left chosen =>
      cases chosen with
      | @seq _ _ cs _ comma more =>
        cases more with
        | @seq _ _ qs rs head' tail' =>
          rw [← List.append_assoc]
          exact .more (.seq comma head') tail'

/-- The atoms of an outline, but for those of the entries that it names. -/
def atoms : Outline → List Atom
  | .atom a => [a]
  | .entry | .nothing => []
  | .seq o p | .either o p => o.atoms ++ p.atoms
  | .many o => o.atoms

/-- What holds of all pieces that its atoms stand for holds of all pieces of an outline. -/
theorem Spells.forall_mem {P : Piece → Prop} (h : Spells d o ps)
    (hentry : ∀ a ∈ d.entry.atoms, ∀ p, a.Fits d p → P p) (ho : ∀ a ∈ o.atoms, ∀ p, a.Fits d p → P p) :
    ∀ p ∈ ps, P p := by
  induction h with
  | atom fits => exact List.forall_mem_singleton.2 (ho _ (List.mem_singleton_self _) _ fits)
  | entry _ ih => exact ih hentry
  | nothing | done => exact List.forall_mem_nil _
  | seq _ _ head tail =>
    obtain ⟨hhead, htail⟩ := List.forall_mem_append.1 ho
    exact List.forall_mem_append.2 ⟨head hhead, tail htail⟩
  | left _ ih => exact ih (List.forall_mem_append.1 ho).1
  | right _ ih => exact ih (List.forall_mem_append.1 ho).2
  | more _ _ head tail => exact List.forall_mem_append.2 ⟨head ho, tail ho⟩

end Outline

end SelectRouting
