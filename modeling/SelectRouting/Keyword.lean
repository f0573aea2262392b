/-!
# Keywords

One set of keywords serves all dialects: a word that is a keyword for one of them is read as a keyword everywhere, in any
case of its letters.  Most of them may still name a table or a column; the reserved ones, which open a clause or a special
form of expression, may not.  Main statement: reading the text of a keyword gives it back (`ofWord?_text`).
-/
namespace SelectRouting

inductive Keyword where
  -- The statement
  | select | «from» | «where» | group | having | order | «by» | distinct | all | as | «with» | «for» | of
  | update | only
  -- Joins
  | join | inner | left | right | full | outer | cross | on | «using»
  -- Set operators
  | union | intersect | except | minus
  -- Predicates
  | and | or | not | «in» | between | like | is | null | trueLiteral | falseLiteral | «exists»
  -- Ordering
  | asc | desc | nulls | first | last
  -- Aggregates
  | count | sum | avg | min | max
  -- Expressions
  | case | when | «then» | «else» | «end» | over | partition | unique
  -- Pagination
  | offset | fetch | next | row | rows
  -- Hierarchies, models, table suffixes and locking
  | start | connect | prior | nocycle | connectByRoot | rollup | cube | grouping | model | return | updated
  | reference | ignore | keep | nav | dimension | single | main | measures | rules | upsert | automatic
  | sequential | iterate | until | sample | block | seed | subpartition | versions | scn | timestamp | pivot
  | unpivot | «include» | exclude | nowait | wait | skip | locked
  -- Row counts, row numbers and output as markup
  | top | percent | ties | rowNumber | browse | xml | raw | auto | explicit | path | type | xmlschema
  | elements | xsinil | absent | root
  deriving DecidableEq

namespace Keyword

/-- The keyword in upper case. -/
def text : Keyword → String
  | .select => "SELECT"
  | .from => "FROM"
  | .where => "WHERE"
  | .group => "GROUP"
  | .having => "HAVING"
  | .order => "ORDER"
  | .by => "BY"
  | .distinct => "DISTINCT"
  | .all => "ALL"
  | .as => "AS"
  | .with => "WITH"
  | .for => "FOR"
  | .of => "OF"
  | .update => "UPDATE"
  | .only => "ONLY"
  | .join => "JOIN"
  | .inner => "INNER"
  | .left => "LEFT"
  | .right => "RIGHT"
  | .full => "FULL"
  | .outer => "OUTER"
  | .cross => "CROSS"
  | .on => "ON"
  | .using => "USING"
  | .union => "UNION"
  | .intersect => "INTERSECT"
  | .except => "EXCEPT"
  | .minus => "MINUS"
  | .and => "AND"
  | .or => "OR"
  | .not => "NOT"
  | .in => "IN"
  | .between => "BETWEEN"
  | .like => "LIKE"
  | .is => "IS"
  | .null => "NULL"
  | .trueLiteral => "TRUE"
  | .falseLiteral => "FALSE"
  | .exists => "EXISTS"
  | .asc => "ASC"
  | .desc => "DESC"
  | .nulls => "NULLS"
  | .first => "FIRST"
  | .last => "LAST"
  | .count => "COUNT"
  | .sum => "SUM"
  | .avg => "AVG"
  | .min => "MIN"
  | .max => "MAX"
  | .case => "CASE"
  | .when => "WHEN"
  | .then => "THEN"
  | .else => "ELSE"
  | .end => "END"
  | .over => "OVER"
  | .partition => "PARTITION"
  | .unique => "UNIQUE"
  | .offset => "OFFSET"
  | .fetch => "FETCH"
  | .next => "NEXT"
  | .row => "ROW"
  | .rows => "ROWS"
  | .start => "START"
  | .connect => "CONNECT"
  | .prior => "PRIOR"
  | .nocycle => "NOCYCLE"
  | .connectByRoot => "CONNECT_BY_ROOT"
  | .rollup => "ROLLUP"
  | .cube => "CUBE"
  | .grouping => "GROUPING"
  | .model => "MODEL"
  | .return => "RETURN"
  | .updated => "UPDATED"
  | .reference => "REFERENCE"
  | .ignore => "IGNORE"
  | .keep => "KEEP"
  | .nav => "NAV"
  | .dimension => "DIMENSION"
  | .single => "SINGLE"
  | .main => "MAIN"
  | .measures => "MEASURES"
  | .rules => "RULES"
  | .upsert => "UPSERT"
  | .automatic => "AUTOMATIC"
  | .sequential => "SEQUENTIAL"
  | .iterate => "ITERATE"
  | .until => "UNTIL"
  | .sample => "SAMPLE"
  | .block => "BLOCK"
  | .seed => "SEED"
  | .subpartition => "SUBPARTITION"
  | .versions => "VERSIONS"
  | .scn => "SCN"
  | .timestamp => "TIMESTAMP"
  | .pivot => "PIVOT"
  | .unpivot => "UNPIVOT"
  | .include => "INCLUDE"
  | .exclude => "EXCLUDE"
  | .nowait => "NOWAIT"
  | .wait => "WAIT"
  | .skip => "SKIP"
  | .locked => "LOCKED"
  | .top => "TOP"
  | .percent => "PERCENT"
  | .ties => "TIES"
  | .rowNumber => "ROW_NUMBER"
  | .browse => "BROWSE"
  | .xml => "XML"
  | .raw => "RAW"
  | .auto => "AUTO"
  | .explicit => "EXPLICIT"
  | .path => "PATH"
  | .type => "TYPE"
  | .xmlschema => "XMLSCHEMA"
  | .elements => "ELEMENTS"
  | .xsinil => "XSINIL"
  | .absent => "ABSENT"
  | .root => "ROOT"

def list : List Keyword := [
  .select, .from, .where, .group, .having, .order, .by, .distinct, .all, .as, .with, .for, .of, .update,
  .only, .join, .inner, .left, .right, .full, .outer, .cross, .on, .using, .union, .intersect, .except,
  .minus, .and, .or, .not, .in, .between, .like, .is, .null, .trueLiteral, .falseLiteral, .exists, .asc, .desc, .nulls,
  .first, .last, .count, .sum, .avg, .min, .max, .case, .when, .then, .else, .end, .over, .partition,
  .unique, .offset, .fetch, .next, .row, .rows, .start, .connect, .prior, .nocycle, .connectByRoot, .rollup,
  .cube, .grouping, .model, .return, .updated, .reference, .ignore, .keep, .nav, .dimension, .single, .main,
  .measures, .rules, .upsert, .automatic, .sequential, .iterate, .until, .sample, .block, .seed,
  .subpartition, .versions, .scn, .timestamp, .pivot, .unpivot, .include, .exclude, .nowait, .wait, .skip,
  .locked, .top, .percent, .ties, .rowNumber, .browse, .xml, .raw, .auto, .explicit, .path, .type,
  .xmlschema, .elements, .xsinil, .absent, .root]

theorem mem_list (k : Keyword) : k ∈ list := by
  cases k <;> exact List.mem_of_elem_eq_true rfl

/-- The keyword that a word spells, in any case of its letters. -/
def ofWord? (word : List Char) : Option Keyword :=
  let upper := String.ofList (word.map Char.toUpper)
  list.find? (·.text == upper)

/-- True of a keyword that can never be a plain name. -/
def reserved : Keyword → Bool
  | .select | .from | .where | .group | .having | .order | .by | .distinct | .all | .as | .with | .for
  | .of | .only | .join | .inner | .left | .right | .full | .outer | .cross | .on | .using | .union
  | .intersect | .except | .minus | .and | .or | .not | .in | .between | .like | .is | .null | .trueLiteral
  | .falseLiteral | .exists | .asc | .desc | .case | .when | .then | .else | .end | .unique | .offset | .fetch
  | .start | .connect | .prior | .connectByRoot | .model | .top | .rowNumber => true
  | _ => false

/-- Each part between underscores with a capital in front, the underscores left out. -/
def titleCase : Bool → List Char → List Char
  | _, [] => []
  | atStart, c :: cs =>
    if c = '_' then titleCase true cs
    else (if atStart then c.toUpper else c.toLower) :: titleCase false cs

/-- The keyword as messages name it. -/
def title (k : Keyword) : String :=
  String.ofList (titleCase true k.text.toList)

/-- The characters of a keyword as the digits of one number, which are compared in one step. -/
def code (k : Keyword) : Nat :=
  k.text.toList.foldl (fun n c => 256 * n + c.toNat) 0

theorem toUpper_text_and_find?_code : ∀ k ∈ list,
    k.text.toList.map Char.toUpper = k.text.toList ∧ list.find? (fun k' => code k' == code k) = some k := by
  decide +kernel

/-- No two keywords are written alike. -/
theorem text_injective {k k' : Keyword} (h : k.text = k'.text) : k = k' := by
  have hk := (toUpper_text_and_find?_code k (mem_list k)).2
  have hk' := (toUpper_text_and_find?_code k' (mem_list k')).2
  rw [code, h, ← code, hk'] at hk
  exact (Option.some.inj hk).symm

theorem ofWord?_text (k : Keyword) : ofWord? k.text.toList = some k := by
  have hupper := (toUpper_text_and_find?_code k (mem_list k)).1
  have hsome : (list.find? fun k' => k'.text == k.text).isSome := List.find?_isSome.2 ⟨k, mem_list k, by simp⟩
  obtain ⟨k', hk'⟩ := Option.isSome_iff_exists.1 hsome
  have htext : k'.text = k.text := by simpa using List.find?_some hk'
  unfold ofWord?
  rw [hupper, String.ofList_toList, hk', text_injective htext]

end Keyword

end SelectRouting
