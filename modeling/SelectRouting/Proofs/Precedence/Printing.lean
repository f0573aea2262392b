import SelectRouting.Proofs.Decimal.Digits
import SelectRouting.Proofs.Precedence.Written
import SelectRouting.Proofs.Token.Name
import SelectRouting.Proofs.Token.Relexing
/-!
# Printing an expression

An expression is printed with quotes around every name, a space between every two tokens, and parentheses around an operand
that binds more loosely than its place asks for (`Expr.text`).  The text is lexed to the tokens that were printed
(`Plain.kinds_text`).
-/
namespace SelectRouting

/-! ## Tokens -/

namespace Expr

/-- How tightly the topmost operator binds as it is printed, `NOT` always in front. -/
def printRank : Expr → Nat
  | .binary op _ _ => op.level.rank
  | .unary op _ => op.level.rank
  | .isNull .. | .within .. | .between .. => Level.comparison.rank
  | .literal _ | .column .. | .call .. | .case .. | .paren _ | .placeholder .. | .wildcard _ => Level.negation.rank + 1

/-- Parentheses around what binds more loosely than its place asks for. -/
def enclosed (place rank : Nat) (ks : List Token.Kind) : List Token.Kind :=
  if rank < place then .leftParen :: (ks ++ [.rightParen]) else ks

def marking (k : Keyword) (b : Bool) : List Token.Kind :=
  if b then [.keyword k] else []

def commas (kss : List (List Token.Kind)) : List Token.Kind :=
  List.intercalate [.comma] kss

mutual

/-- The tokens that an expression is printed as.  A left operand is asked for the level of its operator, a right one for
more. -/
def print : Expr → List Token.Kind
  | .literal v => [v.kind]
  | .column none name _ => [.identifier name]
  | .column (some owner) name _ => [.identifier owner, .dot, .identifier name]
  | .binary op left right =>
    enclosed op.level.rank left.printRank left.print ++
      op.kind :: enclosed (op.level.rank + 1) right.printRank right.print
  | .unary op e => op.kind :: enclosed op.level.rank e.printRank e.print
  | .call name distinct args =>
    .identifier name :: .leftParen :: (marking .distinct distinct ++ (commas (printList args) ++ [.rightParen]))
  | .isNull tested negated =>
    enclosed Level.comparison.rank tested.printRank tested.print ++
      .keyword .is :: (marking .not negated ++ [.keyword .null])
  | .within tested members negated =>
    enclosed Level.comparison.rank tested.printRank tested.print ++ (marking .not negated ++
      .keyword .in :: .leftParen :: (commas (printList members) ++ [.rightParen]))
  | .between tested low high negated =>
    enclosed Level.comparison.rank tested.printRank tested.print ++ (marking .not negated ++
      .keyword .between :: (enclosed Level.additive.rank low.printRank low.print ++
        .keyword .and :: enclosed Level.additive.rank high.printRank high.print))
  | .case operand branches otherwise =>
    .keyword .case :: (printOperand operand ++ (printBranches branches ++ (printElse otherwise ++ [.keyword .end])))
  | .paren e => .leftParen :: (e.print ++ [.rightParen])
  | .placeholder .. => [.question]
  | .wildcard none => [.star]
  | .wildcard (some owner) => [.identifier owner, .dot, .star]

def printList : List Expr → List (List Token.Kind)
  | [] => []
  | e :: es => e.print :: printList es

def printOperand : Option Expr → List Token.Kind
  | none => []
  | some e => e.print

def printBranch : Expr × Expr → List Token.Kind
  | (condition, value) => .keyword .when :: (condition.print ++ .keyword .then :: value.print)

def printBranches : List (Expr × Expr) → List Token.Kind
  | [] => []
  | b :: bs => printBranch b ++ printBranches bs

def printElse : Option Expr → List Token.Kind
  | none => []
  | some e => .keyword .else :: e.print

end

mutual

/-- An expression without its parentheses and places. -/
def bare : Expr → Expr
  | .literal v => .literal v
  | .column owner name _ => .column owner name ⟨0, 0⟩
  | .binary op left right => .binary op left.bare right.bare
  | .unary op e => .unary op e.bare
  | .call name distinct args => .call name distinct (bareList args)
  | .isNull tested negated => .isNull tested.bare negated
  | .within tested members negated => .within tested.bare (bareList members) negated
  | .between tested low high negated => .between tested.bare low.bare high.bare negated
  | .case operand branches otherwise => .case (bareOption operand) (bareBranches branches) (bareOption otherwise)
  | .paren e => e.bare
  | .placeholder ordinal _ => .placeholder ordinal ⟨0, 0⟩
  | .wildcard owner => .wildcard owner

def bareList : List Expr → List Expr
  | [] => []
  | e :: es => e.bare :: bareList es

def bareOption : Option Expr → Option Expr
  | none => none
  | some e => some e.bare

def bareBranch : Expr × Expr → Expr × Expr
  | (condition, value) => (condition.bare, value.bare)

def bareBranches : List (Expr × Expr) → List (Expr × Expr)
  | [] => []
  | b :: bs => bareBranch b :: bareBranches bs

end

/-- A node that is printed with what it has: there are no floats, no stars and no parentheses of its own, an integer is a
constant of 64 bits without a sign, and lists have members. -/
def Printable : Expr → Prop
  | .literal (.integer n) => 0 ≤ n ∧ n < twoPow 63
  | .literal (.float _) | .paren _ | .wildcard _ => False
  | .within _ members _ => members ≠ []
  | .case _ branches _ => branches ≠ []
  | _ => True

/-- All nodes are printable. -/
def Plain (e : Expr) : Prop :=
  ∀ n ∈ e.nodes, n.Printable

theorem Plain.child {e c : Expr} (h : e.Plain) (hc : c ∈ e.children) : c.Plain :=
  fun n hn => h n (mem_nodes_of_mem_children hc hn)

theorem Plain.printable {e : Expr} (h : e.Plain) : e.Printable :=
  h e e.mem_nodes_self

end Expr

/-! ## Characters -/

namespace Token

open Text (isWhiteSpace Spaced)
open Decimal (isDigit)

/-- The characters that a kind is printed with, and names between quotes of their own. -/
def Kind.chars (q : Quote) : Kind → List Char
  | .integer n => Nat.toDigits 10 n.toNat
  | .string s => '\x27' :: (Quote.encode '\x27' s.toList ++ ['\x27'])
  | .identifier name => q.opening :: (Quote.encode q.closing name.toList ++ [q.closing])
  | .keyword k => k.text.toList
  | .plus => ['+']
  | .minus => ['-']
  | .star => ['*']
  | .slash => ['/']
  | .percent => ['%']
  | .eq => ['=']
  | .notEq => ['<', '>']
  | .lt => ['<']
  | .ltEq => ['<', '=']
  | .gt => ['>']
  | .gtEq => ['>', '=']
  | .concat => ['|', '|']
  | .leftParen => ['(']
  | .rightParen => [')']
  | .comma => [',']
  | .semicolon => [';']
  | .dot => ['.']
  | .question => ['?']
  | .float _ | .error _ | .eof => []

/-- A kind that is read back from its characters. -/
def Kind.Chosen : Kind → Prop
  | .integer n => 0 ≤ n ∧ n < twoPow 63
  | .float _ | .error _ | .eof => False
  | _ => True

/-- Characters that are one token, closed and no trivia. -/
inductive ReadBack : Kind → List Char → Prop where
  | intro {k : Kind} {c : Char} {xs : List Char} (lexed : lexeme c xs = ⟨k, c :: xs, []⟩) (closed : ¬ Unclosed c xs)
    (apart : ¬ Trivia.Opens (c :: xs)) : ReadBack k (c :: xs)

theorem not_unclosed_of_none {c : Char} (h : Quote.ofOpening? c = none) (xs : List Char) : ¬ Unclosed c xs := by
  rintro ⟨q, hq, -⟩
  rw [h] at hq
  cases hq

theorem readBack_quoted (q : Quote) (payload : List Char) :
    ReadBack (q.kind (String.ofList payload)) (q.opening :: (Quote.encode q.closing payload ++ [q.closing])) := by
  have hopening := ofOpening?_opening q
  have hread := Quote.read?_encode q.closing payload [] nofun
  refine .intro ?_ ?_ ?_
  · rw [lexeme_of_quote hopening, quoted, hread]
  · rintro ⟨q', hq', hnone⟩
    obtain rfl := Option.some.inj (hopening.symm.trans hq')
    rw [hread] at hnone
    cases hnone
  · exact not_opens_opening q _

/-- A number without a sign is read back from its digits. -/
theorem readBack_digits {n : Nat} (hn : n < twoPow 63) : ReadBack (.integer n) (Nat.toDigits 10 n) := by
  have hdigits : ∀ d ∈ Nat.toDigits 10 n, isDigit d = true := fun _ => Decimal.isDigit_of_mem_toDigits
  have hproper : (Decimal.Numeral.ofNat n).Proper := ⟨hdigits, by rintro _ ⟨⟩, by rintro _ ⟨⟩⟩
  have htext : (Decimal.Numeral.ofNat n).text = Nat.toDigits 10 n := by simp [Decimal.Numeral.ofNat, Decimal.Numeral.text]
  have hsplit := Decimal.Numeral.split_text hproper Text.spaced_nil
  have hkind : numeralKind (Decimal.Numeral.ofNat n) = .integer n := by
    have hle : n ≤ largestInteger := Nat.le_sub_one_of_lt hn
    simp [numeralKind, Decimal.Numeral.ofNat, Decimal.digitsValue_toDigits, hle]
  rw [List.append_nil, htext] at hsplit
  cases hchars : Nat.toDigits 10 n with
  | nil => exact absurd hchars Nat.toDigits_ne_nil
  | cons c xs =>
    rw [hchars] at hdigits hsplit htext
    have hc := hdigits c List.mem_cons_self
    refine .intro ?_ (not_unclosed_of_none (of_isDigit hc).2 xs) (not_opens_of_isDigit hc xs)
    rw [lexeme_of_digit hc, hsplit, hkind, htext]

theorem exists_text_of_keyword (k : Keyword) :
    ∃ c xs, k.text.toList = c :: xs ∧ isWordStart c = true ∧ ∀ x ∈ xs, isWordPart x = true := by
  have hall : ∀ k ∈ Keyword.list, (k.text.toList.head?.any isWordStart && k.text.toList.tail.all isWordPart) = true := by
    decide +kernel
  have hk := hall k k.mem_list
  cases hchars : k.text.toList with
  | nil => simp [hchars] at hk
  | cons c xs => exact ⟨c, xs, rfl, by simpa [hchars] using hk⟩

theorem readBack_keyword (k : Keyword) : ReadBack (.keyword k) k.text.toList := by
  obtain ⟨c, xs, hchars, hc, hxs⟩ := exists_text_of_keyword k
  have hstop : ∀ d ∈ ([] : List Char).head?, isWordPart d = false := nofun
  have htake := takeWhile_append_stop hxs hstop
  have hdrop := dropWhile_append_stop hxs hstop
  have hquote : Quote.ofOpening? c = none := by
    cases h : Quote.ofOpening? c with
    | none => rfl
    | some q => simp [(of_ofOpening? h).2] at hc
  rw [List.append_nil] at htake hdrop
  rw [hchars]
  refine .intro ?_ (not_unclosed_of_none hquote xs) (not_opens_of_head ?_ ?_ ?_ xs)
  · rw [lexeme_of_word hc, htake, hdrop, ← hchars, wordKind, Keyword.ofWord?_text]
  · have hpart : isWordPart c = true := by
      simp only [isWordStart, Bool.or_eq_true] at hc
      rcases hc with hc | hc <;> simp [isWordPart, hc]
    exact Bool.eq_false_iff.2 fun hwhite => by simp [isWordPart_of_white hwhite] at hpart
  · rintro rfl
    exact absurd hc (by decide +kernel)
  · rintro rfl
    exact absurd hc (by decide +kernel)

theorem readBack_sign {k : Kind} {c : Char} {xs : List Char} (hsign : sign c xs = ⟨k, c :: xs, []⟩)
    (hquote : Quote.ofOpening? c = none) (hdigit : isDigit c = false) (hword : isWordStart c = false)
    (hapart : Trivia.split (c :: xs) = ([], c :: xs)) : ReadBack k (c :: xs) := by
  have hopens := Trivia.not_opens_split (c :: xs)
  rw [hapart] at hopens
  exact .intro ((lexeme_of_sign hquote hdigit hword xs).trans hsign) (not_unclosed_of_none hquote xs) hopens

/-- What is printed is read back. -/
theorem readBack_chars {q : Quote} (hq : q ≠ .single) {k : Kind} (hk : k.Chosen) : ReadBack k (k.chars q) := by
  cases k with
  | integer n =>
    obtain ⟨v, rfl⟩ := Int.eq_ofNat_of_zero_le hk.1
    exact readBack_digits (Int.ofNat_lt.1 hk.2)
  | string s =>
    have hquoted := readBack_quoted .single s.toList
    rwa [String.ofList_toList] at hquoted
  | identifier name =>
    have hquoted := readBack_quoted q name.toList
    rw [String.ofList_toList] at hquoted
    cases q with
    | single => exact absurd rfl hq
    | double | back | bracket => exact hquoted
  | keyword k => exact readBack_keyword k
  | float _ | error _ | eof => exact hk.elim
  | _ => exact readBack_sign rfl (by decide) (by decide) (by decide +kernel) (by decide +kernel)

/-! ## Texts -/

/-- Kinds as a text, with a space between every two of them. -/
def spell (q : Quote) (ks : List Kind) : List Char :=
  List.intercalate [' '] (ks.map (Kind.chars q))

/-- A space behind a token does not change what it is. -/
theorem ReadBack.kinds {k : Kind} {cs after : List Char} (h : ReadBack k cs) (hafter : Spaced after) :
    (lexFrom 0 (cs ++ after)).map (·.kind) = k :: (lexFrom 0 after).map (·.kind) := by
  obtain ⟨hlexed, hclosed, hapart⟩ := h
  next c xs =>
  have happart : ¬ Trivia.Opens (c :: xs ++ after) := by
    rw [← List.append_nil (c :: xs)] at hapart
    exact Trivia.not_opens_of_text hapart hafter
  have hagain := lexeme_of_text hclosed (congrArg Lexeme.text hlexed) hafter
  rw [hlexed] at hagain
  rw [List.cons_append] at happart ⊢
  rw [kinds_of_not_opens happart, hagain]

/-- **What is printed is lexed to the kinds that were printed.** -/
theorem kinds_spell {q : Quote} (hq : q ≠ .single) : ∀ ks : List Kind, (∀ k ∈ ks, k.Chosen) →
    (lexFrom 0 (spell q ks)).map (·.kind) = ks ++ [.eof]
  | [], _ => by
    rw [spell, List.map_nil, List.intercalate_nil, lexFrom_nil]
    rfl
  | [k], h => by
    have hk := (readBack_chars hq (h k List.mem_cons_self)).kinds Text.spaced_nil
    rw [List.append_nil, lexFrom_nil] at hk
    rw [spell, List.map_singleton, List.intercalate_singleton, hk]
    rfl
  | k :: k' :: ks, h => by
    obtain ⟨hk, hks⟩ := List.forall_mem_cons.1 h
    have hspace : ∀ c ∈ [' '], isWhiteSpace c = true := List.forall_mem_singleton.2 (by decide)
    have htail := kinds_of_split (Trivia.split_white_append hspace (spell q (k' :: ks))) 0 0
    rw [kinds_spell hq (k' :: ks) hks] at htail
    have hspaced : Spaced ([' '] ++ spell q (k' :: ks)) := by
      rintro c ⟨⟩
      decide
    have hfirst := (readBack_chars hq hk).kinds hspaced
    rw [htail] at hfirst
    rw [← List.cons_append] at hfirst
    rw [← hfirst, spell, List.map_cons, List.map_cons, List.intercalate_cons_cons, List.append_assoc, spell, List.map_cons]

end Token

namespace Expr

open Token (Kind)

/-- The text of an expression, with quotes around names. -/
def text (q : Token.Quote) (e : Expr) : String :=
  String.ofList (Token.spell q e.print)

/-- All of some kinds are read back. -/
def Readable (ks : List Kind) : Prop :=
  ∀ k ∈ ks, k.Chosen

section
variable {p r : Nat} {ks ls : List Kind}

@[simp] theorem readable_nil : Readable [] := nofun

@[simp] theorem readable_cons {k : Kind} : Readable (k :: ks) ↔ k.Chosen ∧ Readable ks :=
  List.forall_mem_cons

@[simp] theorem readable_append : Readable (ks ++ ls) ↔ Readable ks ∧ Readable ls :=
  List.forall_mem_append

@[simp] theorem readable_enclosed : Readable (enclosed p r ks) ↔ Readable ks := by
  unfold enclosed
  split <;> simp [Kind.Chosen]

@[simp] theorem readable_marking {k : Keyword} {b : Bool} : Readable (marking k b) := by
  cases b <;> simp [marking, Kind.Chosen]

@[simp] theorem readable_commas : ∀ {kss : List (List Kind)}, Readable (commas kss) ↔ ∀ ks ∈ kss, Readable ks
  | [] => by simp [commas]
  | [ks] => by simp [commas]
  | ks :: ks' :: kss => by
    have ih : Readable (commas (ks' :: kss)) ↔ ∀ ls ∈ ks' :: kss, Readable ls := readable_commas
    simp only [commas] at ih
    simp [commas, Kind.Chosen, ih]

@[simp] theorem readable_flatMap {α : Type} {f : α → List Kind} {as : List α} :
    Readable (as.flatMap f) ↔ ∀ a ∈ as, Readable (f a) := by
  induction as with
  | nil => simp
  | cons a as ih => simp [ih]

end

@[simp] theorem printList_eq (es : List Expr) : printList es = es.map print := by
  induction es with
  | nil => rfl
  | cons e es ih => rw [printList, ih, List.map_cons]

@[simp] theorem printBranches_eq (bs : List (Expr × Expr)) : printBranches bs = bs.flatMap printBranch := by
  induction bs with
  | nil => rfl
  | cons b bs ih => rw [printBranches, ih, List.flatMap_cons]

/-- The tokens of a plain expression are read back. -/
theorem Plain.readable {e : Expr} : e.Plain → Readable e.print := by
  induction e using induction_children with
  | step e ih =>
  intro h
  have hprint := h.printable
  have hchildren : ∀ c ∈ e.children, Readable c.print := fun c hc => ih c hc (h.child hc)
  cases e with
  | literal v =>
    cases v with
    | integer n => exact List.forall_mem_singleton.2 hprint
    | float x => exact hprint.elim
    | boolean b => cases b <;> exact List.forall_mem_singleton.2 trivial
    | string _ | null => exact List.forall_mem_singleton.2 trivial
  | column owner name span => cases owner <;> simp [print, Kind.Chosen]
  | placeholder i span => simp [print, Kind.Chosen]
  | wildcard owner | paren inner => exact hprint.elim
  | unary op operand =>
    have hop : op.kind.Chosen := by cases op <;> trivial
    simpa [print, hop, children] using hchildren
  | binary op left right =>
    have hop : op.kind.Chosen := by cases op <;> trivial
    simpa [print, hop, children] using hchildren
  | isNull tested negated | between tested low high negated =>
    simpa [print, Kind.Chosen, children] using hchildren
  | within tested members negated | call name distinct args =>
    simpa [print, Kind.Chosen, children] using hchildren
  | case operand branches otherwise =>
    simp only [children, List.forall_mem_append, List.mem_flatMap, Option.mem_toList] at hchildren
    obtain ⟨⟨hoperand, hbranches⟩, hotherwise⟩ := hchildren
    have hoperand : Readable (printOperand operand) := by
      cases operand with
      | none => exact readable_nil
      | some e => exact hoperand e rfl
    have hotherwise : Readable (printElse otherwise) := by
      cases otherwise with
      | none => exact readable_nil
      | some e => exact readable_cons.2 ⟨trivial, hotherwise e rfl⟩
    have hbranches : ∀ b ∈ branches, Readable (printBranch b) := by
      rintro ⟨condition, value⟩ hb
      have hwhen := hbranches condition ⟨_, hb, by simp⟩
      have hthen := hbranches value ⟨_, hb, by simp⟩
      simp [printBranch, Kind.Chosen, hwhen, hthen]
    simpa [print, Kind.Chosen, hoperand, hotherwise] using hbranches

/-- A kind that an operand begins with. -/
def begins : Kind → Bool
  | .integer _ | .string _ | .identifier _ | .minus | .leftParen | .question => true
  | .keyword .trueLiteral | .keyword .falseLiteral | .keyword .null | .keyword .not | .keyword .case => true
  | _ => false

theorem exists_enclosed {ks : List Kind} (h : ∃ k ls, ks = k :: ls ∧ begins k = true) (p r : Nat) :
    ∃ k ls, enclosed p r ks = k :: ls ∧ begins k = true := by
  unfold enclosed
  split
  · exact ⟨.leftParen, _, rfl, rfl⟩
  · exact h

/-- A plain expression begins like an operand. -/
theorem Plain.exists_begins {e : Expr} : e.Plain → ∃ k ks, e.print = k :: ks ∧ begins k = true := by
  induction e using induction_children with
  | step e ih =>
  intro h
  have hprint := h.printable
  have hfront : ∀ c ∈ e.children, ∀ p, ∃ k ks, enclosed p c.printRank c.print = k :: ks ∧ begins k = true :=
    fun c hc p => exists_enclosed (ih c hc (h.child hc)) p c.printRank
  cases e with
  | literal v =>
    cases v with
    | float x => exact hprint.elim
    | boolean b => cases b <;> exact ⟨_, _, rfl, rfl⟩
    | integer _ | string _ | null => exact ⟨_, _, rfl, rfl⟩
  | column owner name span => cases owner <;> exact ⟨_, _, rfl, rfl⟩
  | wildcard owner | paren inner => exact hprint.elim
  | unary op operand => cases op <;> exact ⟨_, _, rfl, rfl⟩
  | placeholder _ _ | call _ _ _ | case _ _ _ => exact ⟨_, _, rfl, rfl⟩
  | binary op first _ =>
    obtain ⟨k, ks, hks, hk⟩ := hfront first (by simp [children]) op.level.rank
    exact ⟨k, _, by rw [print, hks, List.cons_append], hk⟩
  | isNull first _ | within first _ _ | between first _ _ _ =>
    obtain ⟨k, ks, hks, hk⟩ := hfront first (by simp [children]) Level.comparison.rank
    exact ⟨k, _, by rw [print, hks, List.cons_append], hk⟩

/-- **The text of a plain expression is lexed to the kinds it is printed as.** -/
theorem Plain.kinds_text {q : Token.Quote} (hq : q ≠ .single) {e : Expr} (h : e.Plain) :
    (Token.lex (e.text q)).map (·.kind) = e.print ++ [.eof] := by
  rw [Token.lex, text, String.toList_ofList]
  exact Token.kinds_spell hq e.print h.readable

end Expr

end SelectRouting
