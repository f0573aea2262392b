import SelectRouting.Proofs.Likeness.Pairing
import SelectRouting.Proofs.Token.Case
/-!
# Case

The case of a letter counts in a string literal and nowhere else.  Two texts that are the same up to the case of letters
outside of their strings, read with rules that are the same up to the case of their names, are accepted or refused alike
(`Statement.parse_of_same_letters`): the statements are equal in lower case, with every edit at the same place, or the
errors are of the same kind at the same place.
-/
namespace SelectRouting

/-- Letters are seen in lower case, and places as they are. -/
def View.folded : View :=
  ⟨Char.toLower, id, id, Text.apply_toLower (by decide)⟩

/-! ## Rules -/

section
variable (v : View)

def TableRule.map (t : TableRule) : TableRule :=
  ⟨v.name t.name, t.columns.map v.name, t.actual.map v.name⟩

/-- What is seen of a rule by its names. -/
def Rule.map (r : Rule) : Rule :=
  ⟨r.tables.map (TableRule.map v)⟩

end

variable {v : View}

theorem TableRule.isShardingColumn_map (t : TableRule) (column : String) :
    (t.map v).isShardingColumn column = t.isShardingColumn column := by
  have hname : (Text.sameName · column) ∘ v.name = (Text.sameName · column) :=
    funext fun c => View.sameName_name_left c column
  rw [isShardingColumn, map, List.any_map, hname, isShardingColumn]

namespace Rule

theorem table?_map (r : Rule) (name : String) : (r.map v).table? name = (r.table? name).map (TableRule.map v) := by
  have hname : (fun t : TableRule => Text.sameName t.name name) ∘ TableRule.map v = fun t => Text.sameName t.name name :=
    funext fun t => View.sameName_name_left t.name name
  rw [table?, map, List.find?_map, hname, table?]

theorem containsTable_map (r : Rule) (name : String) : (r.map v).containsTable name = r.containsTable name := by
  rw [containsTable, table?_map, Option.isSome_map, containsTable]

theorem isShardingColumn_map (r : Rule) (table column : String) :
    (r.map v).isShardingColumn table column = r.isShardingColumn table column := by
  rw [isShardingColumn, table?_map, isShardingColumn]
  cases r.table? table with
  | none => rfl
  | some t => exact t.isShardingColumn_map column

end Rule

/-! ## Tokens -/

namespace Token

/-- Only a string is a string in lower case. -/
theorem Kind.exists_string_of_lower {k : Kind} {s : String} (h : k.lower = .string s) : ∃ s', k = .string s' := by
  cases k with
  | string s' => exact ⟨s', rfl⟩
  | _ => cases h

theorem Kind.map_folded {k : Kind} (h : ∀ s, k ≠ .string s) : k.map .folded = k.lower := by
  cases k with
  | string s => exact absurd rfl (h s)
  | _ => rfl

theorem Kind.map_folded_eq {k k' : Kind} (h : k.lower = k'.lower)
    (hstring : ∀ {s s'}, k = .string s → k' = .string s' → s = s') : k.map .folded = k'.map .folded := by
  by_cases hk : ∃ s, k = .string s
  · obtain ⟨s, rfl⟩ := hk
    obtain ⟨s', rfl⟩ := Kind.exists_string_of_lower h.symm
    rw [hstring rfl rfl]
  · have hk' : ¬∃ s, k' = .string s := by
      rintro ⟨s, rfl⟩
      exact hk (Kind.exists_string_of_lower h)
    rw [Kind.map_folded (not_exists.1 hk), Kind.map_folded (not_exists.1 hk'), h]

/-- Two tokens in the same place with the same characters up to case, and with the same string if they are strings. -/
structure SameLetters (t u : Token) : Prop where
  kind : t.kind.map .folded = u.kind.map .folded
  text : View.folded.name t.text = View.folded.name u.text
  span : t.span = u.span

/-- Texts that are the same up to the case of letters outside of strings. -/
theorem forall₂_sameLetters {a b : String} (h : Text.fold a = Text.fold b)
    (hstrings : ∀ t ∈ lex a, ∀ s, t.kind = .string s → t.span.slice a = t.span.slice b) :
    List.Forall₂ SameLetters (lex a) (lex b) := by
  have hlower := alike_of_fold_eq h
  refine List.forall₂_iff_get.2 ⟨hlower.length_eq, fun i hi hi' => ?_⟩
  have halike : ((lex a).get ⟨i, hi⟩).lower = ((lex b).get ⟨i, hi'⟩).lower := (List.forall₂_iff_get.1 hlower).2 i hi hi'
  have ht := List.get_mem (lex a) ⟨i, hi⟩
  have hu := List.get_mem (lex b) ⟨i, hi'⟩
  generalize (lex a).get ⟨i, hi⟩ = t, (lex b).get ⟨i, hi'⟩ = u at halike ht hu ⊢
  have hspan : t.lower.span = u.lower.span := congrArg Token.span halike
  refine ⟨Kind.map_folded_eq (congrArg Token.kind halike) fun {s s'} hs hs' => ?_, congrArg Token.text halike, hspan⟩
  -- What a string stands for in its own case cannot be told from the lower case, but from its characters.
  have htext : t.text = u.text := by
    rw [← slice_of_mem_lex ht, hstrings t ht s hs, ← slice_of_mem_lex hu]
    exact congrArg (Span.slice · b) hspan
  rw [← unquoted_text_of_string ht hs, htext, unquoted_text_of_string hu hs']

end Token

namespace Grammar

/-- Tokens paired by their place. -/
def casePairing {rule rule' : Rule} (h : rule.map .folded = rule'.map .folded) : Pairing rule rule' where
  view := .folded
  token := Token.SameLetters
  kind := fun h => h.kind
  text := fun h => h.text
  span := fun h h' => by rw [h.span, h'.span]
  start := fun h => by rw [h.span]
  order := fun h h' => by rw [h.span, h'.span]
  containsTable := fun name => by rw [← rule.containsTable_map, h, rule'.containsTable_map]
  isShardingColumn := fun table column => by rw [← rule.isShardingColumn_map, h, rule'.isShardingColumn_map]

end Grammar

namespace ParseError

theorem isUnsupported_of_cause_map {e e' : ParseError} (h : e.cause.map v = e'.cause.map v) :
    e.isUnsupported = e'.isUnsupported := by
  obtain ⟨cause, span⟩ := e
  obtain ⟨cause', span'⟩ := e'
  cases cause <;> cases cause' <;> first | rfl | cases h

end ParseError

namespace Statement

/-- **Case counts in strings only.**  Two texts that differ in the case of letters outside of strings, with rules that
differ in the case of their names, have statements that are equal in lower case; or they have errors of the same kind,
with the same cause in lower case, at the same place. -/
theorem parse_of_same_letters (d : Dialect) {rule rule' : Rule} (hrule : rule.map .folded = rule'.map .folded)
    {a b : String} (htext : Text.fold a = Text.fold b)
    (hstrings : ∀ t ∈ Token.lex a, ∀ s, t.kind = .string s → t.span.slice a = t.span.slice b) :
    (∃ s s', parse d rule a = .ok s ∧ parse d rule' b = .ok s' ∧ s.map .folded = s'.map .folded) ∨
    ∃ e e', parse d rule a = .error e ∧ parse d rule' b = .error e' ∧ e.isUnsupported = e'.isUnsupported ∧
      e.cause.map .folded = e'.cause.map .folded ∧ e.span = e'.span := by
  have halike := (Grammar.casePairing hrule).parse_alike d (Token.forall₂_sameLetters htext hstrings)
  rcases halike with ⟨s, s', ha, hb, hmap, -⟩ | ⟨e, e', ha, hb, hcause, t, u, htu, he, he'⟩
  · exact .inl ⟨s, s', ha, hb, hmap⟩
  · exact .inr ⟨e, e', ha, hb, ParseError.isUnsupported_of_cause_map hcause, hcause, by rw [he, he', htu.span]⟩

/-- A statement in lower case, but for its string. -/
def lowerText : String :=
  "select max(x) y from t where a = 'Bc'"

/-- The same statement in upper case. -/
def upperText : String :=
  "SELECT MAX(X) Y FROM T WHERE A = 'Bc'"

theorem parse_of_same_letters_lowerText : ∃ s s', parse .generic ⟨[⟨"t", ["a"], []⟩]⟩ lowerText = .ok s ∧
    parse .generic ⟨[⟨"T", ["A"], []⟩]⟩ upperText = .ok s' ∧ s.map .folded = s'.map .folded ∧
    s.edits = [.table 21 "t"] ∧ s'.edits = [.table 21 "T"] := by
  have hlower : (parse .generic ⟨[⟨"t", ["a"], []⟩]⟩ lowerText).toOption.map (·.edits) = some [.table 21 "t"] := by
    rw [parse_of_chars lowerText rfl]
    decide +kernel
  have hupper : (parse .generic ⟨[⟨"T", ["A"], []⟩]⟩ upperText).toOption.map (·.edits) = some [.table 21 "T"] := by
    rw [parse_of_chars upperText rfl]
    decide +kernel
  have hrule : Rule.map .folded ⟨[⟨"t", ["a"], []⟩]⟩ = Rule.map .folded ⟨[⟨"T", ["A"], []⟩]⟩ := by decide
  have hstrings : ∀ t ∈ Token.lex lowerText, t.kind.alike (.string "") = true →
      t.span.slice lowerText = t.span.slice upperText := by decide +kernel
  rcases parse_of_same_letters .generic hrule (a := lowerText) (b := upperText) (by decide)
    fun t ht s hs => hstrings t ht (by rw [hs]; rfl) with ⟨s, s', ha, hb, hmap⟩ | ⟨e, e', ha, -⟩
  · rw [ha] at hlower
    rw [hb] at hupper
    exact ⟨s, s', ha, hb, hmap, Option.some.inj hlower, Option.some.inj hupper⟩
  · rw [ha] at hlower
    cases hlower

end Statement

end SelectRouting
