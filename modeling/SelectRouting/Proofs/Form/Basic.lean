import SelectRouting.Proofs.Token.Region
import SelectRouting.Proofs.Trace.Run
/-!
# The form of a clause

A clause is made of words, names and regions, one behind the other or one of two, and its derivations are trees over the
tokens of a text (`Derives`).  A reader that sees one token ahead takes a part whenever it can (`Greedy`).  Such a
derivation is unique where the two parts of a choice begin differently (`Greedy.unique`), and every derivation is one
where what may follow a part does not continue it (`Derives.greedy`); both can be computed from the form (`Form.clear`).
-/
namespace SelectRouting

inductive Form where
  /-- One of some keywords. -/
  | word (ks : List Keyword)
  | name
  /-- A region in parentheses. -/
  | region
  | empty
  | seq (f g : Form)
  | either (f g : Form)

/-- A part that may be missing. -/
def Form.optional (f : Form) : Form :=
  .either f .empty

inductive Tree where
  | nothing
  | token (t : Token)
  | region (ts : List Token)
  | pair (A B : Tree)
  | left (A : Tree)
  | right (B : Tree)

def Tree.tokens : Tree → List Token
  | .nothing => []
  | .token t => [t]
  | .region ts => ts
  | .pair A B => A.tokens ++ B.tokens
  | .left A | .right A => A.tokens

/-! ## First tokens -/

/-- What a part can begin with. -/
inductive Opener where
  | word (k : Keyword)
  | name
  | region
  deriving DecidableEq

namespace Opener

def Fits : Opener → Token → Prop
  | .word k, t => t.kind = .keyword k
  | .name, t => t.name?.isSome
  | .region, t => t.kind = .leftParen

/-- No token fits both; a keyword that is not reserved is a name, too. -/
def apart : Opener → Opener → Bool
  | .word k, .word k' => k != k'
  | .word k, .name | .name, .word k => k.reserved
  | .name, .name | .region, .region => false
  | _, .region | .region, _ => true

/-- Some tokens begin with one that fits. -/
def Begin (os : List Opener) (ts : List Token) : Prop :=
  ∃ o ∈ os, ∃ t ∈ ts.head?, o.Fits t

def disjoint (os ps : List Opener) : Bool :=
  os.all fun o => ps.all o.apart

variable {o p : Opener} {os ps : List Opener} {t : Token} {ts : List Token}

theorem not_fits_of_apart (h : o.apart p = true) (ho : o.Fits t) : ¬ p.Fits t := by
  intro hp
  cases o <;> cases p <;> simp only [Fits] at ho hp <;> simp_all [apart, Token.name?]

theorem not_begin_nil : ¬ Begin [] ts := by
  rintro ⟨o, ho, -⟩
  cases ho

theorem begin_mono (h : os ⊆ ps) : Begin os ts → Begin ps ts := by
  rintro ⟨o, ho, hfits⟩
  exact ⟨o, h ho, hfits⟩

theorem begin_append : Begin (os ++ ps) ts ↔ Begin os ts ∨ Begin ps ts := by
  simp only [Begin, List.mem_append, or_and_right, exists_or]

theorem not_begin_of_disjoint (h : disjoint os ps = true) (hos : Begin os ts) : ¬ Begin ps ts := by
  obtain ⟨o, ho, t, ht, hfits⟩ := hos
  rintro ⟨p, hp, u, hu, hfits'⟩
  obtain rfl := Option.mem_unique ht hu
  exact not_fits_of_apart (List.all_eq_true.1 (List.all_eq_true.1 h o ho) p hp) hfits hfits'

end Opener

/-! ## What a form begins with -/

namespace Form

/-- Whether a form can be derived from nothing. -/
def nullable : Form → Bool
  | .word _ | .name | .region => false
  | .empty => true
  | .seq f g => f.nullable && g.nullable
  | .either f g => f.nullable || g.nullable

def openers : Form → List Opener
  | .word ks => ks.map .word
  | .name => [.name]
  | .region => [.region]
  | .empty => []
  | .seq f g => f.openers ++ if f.nullable then g.openers else []
  | .either f g => f.openers ++ g.openers

/-- What can continue a derivation that is complete. -/
def extenders : Form → List Opener
  | .word _ | .name | .region | .empty => []
  | .seq f g => g.extenders ++ if g.nullable then f.extenders else []
  | .either f g =>
    f.extenders ++ g.extenders ++ (if f.nullable then g.openers else []) ++ if g.nullable then f.openers else []

/-- At every place the next token says what to do: no part of a sequence can go on with what the rest begins with, and the
two parts of a choice begin differently. -/
def clear : Form → Bool
  | .word _ | .name | .region | .empty => true
  | .seq f g => f.clear && g.clear && Opener.disjoint f.extenders g.openers
  | .either f g => f.clear && g.clear && Opener.disjoint f.openers g.openers && !(f.nullable && g.nullable)

theorem clear_seq {f g : Form} : (f.seq g).clear = true ↔
    f.clear = true ∧ g.clear = true ∧ Opener.disjoint f.extenders g.openers = true := by
  rw [clear, Bool.and_eq_true, Bool.and_eq_true, and_assoc]

theorem clear_either {f g : Form} : (f.either g).clear = true ↔ f.clear = true ∧ g.clear = true ∧
    Opener.disjoint f.openers g.openers = true ∧ ¬ (f.nullable = true ∧ g.nullable = true) := by
  rw [clear, Bool.and_eq_true, Bool.and_eq_true, Bool.and_eq_true, and_assoc, and_assoc, Bool.not_eq_true',
    Bool.and_eq_false_iff, ← Bool.not_eq_true, ← Bool.not_eq_true, not_and_or]

/-! ## Derivations -/

inductive Derives : Form → Tree → Prop where
  | word {ks : List Keyword} {k : Keyword} {t : Token} (mem : k ∈ ks) (kind : t.kind = .keyword k) :
    Derives (.word ks) (.token t)
  | name {t : Token} (named : t.name?.isSome) : Derives .name (.token t)
  | region {ts : List Token} (region : Token.Region ts) : Derives .region (.region ts)
  | empty : Derives .empty .nothing
  | seq {f g : Form} {A B : Tree} (head : Derives f A) (tail : Derives g B) : Derives (.seq f g) (.pair A B)
  | left {f g : Form} {A : Tree} (chosen : Derives f A) : Derives (.either f g) (.left A)
  | right {f g : Form} {B : Tree} (chosen : Derives g B) : Derives (.either f g) (.right B)

/-- Some tokens begin with a derivation. -/
def Heads (f : Form) (ts : List Token) : Prop :=
  ∃ T, f.Derives T ∧ T.tokens <+: ts

/-- A derivation in front of a rest that takes a part whenever it can: where a part is derived from nothing, the other one
could not have begun. -/
inductive Greedy : Form → Tree → List Token → Prop where
  | word {ks : List Keyword} {k : Keyword} {t : Token} {rest : List Token} (mem : k ∈ ks) (kind : t.kind = .keyword k) :
    Greedy (.word ks) (.token t) rest
  | name {t : Token} {rest : List Token} (named : t.name?.isSome) : Greedy .name (.token t) rest
  | region {ts rest : List Token} (region : Token.Region ts) : Greedy .region (.region ts) rest
  | empty {rest : List Token} : Greedy .empty .nothing rest
  | seq {f g : Form} {A B : Tree} {rest : List Token} (head : Greedy f A (B.tokens ++ rest)) (tail : Greedy g B rest) :
    Greedy (.seq f g) (.pair A B) rest
  | left {f g : Form} {A : Tree} {rest : List Token} (chosen : Greedy f A rest)
    (settled : A.tokens = [] → ¬ Opener.Begin g.openers rest) : Greedy (.either f g) (.left A) rest
  | right {f g : Form} {B : Tree} {rest : List Token} (chosen : Greedy g B rest)
    (settled : B.tokens = [] → ¬ Opener.Begin f.openers rest) : Greedy (.either f g) (.right B) rest

variable {f g : Form} {A B T T' : Tree} {rest rest' : List Token}

theorem Greedy.derives (h : Greedy f T rest) : f.Derives T := by
  induction h with
  | word mem kind => exact .word mem kind
  | name named => exact .name named
  | region region => exact .region region
  | empty => exact .empty
  | seq _ _ head tail => exact .seq head tail
  | left _ _ chosen => exact .left chosen
  | right _ _ chosen => exact .right chosen

theorem Derives.nullable (h : f.Derives T) (hnil : T.tokens = []) : f.nullable = true := by
  induction h with
  | word | name => cases hnil
  | region region => exact absurd hnil region.ne_nil
  | empty => rfl
  | seq _ _ head tail =>
    obtain ⟨hA, hB⟩ := List.append_eq_nil_iff.1 hnil
    exact Bool.and_eq_true_iff.2 ⟨head hA, tail hB⟩
  | left _ chosen => exact Bool.or_eq_true_iff.2 (.inl (chosen hnil))
  | right _ chosen => exact Bool.or_eq_true_iff.2 (.inr (chosen hnil))

theorem Derives.begins (h : f.Derives T) (hne : T.tokens ≠ []) (rest : List Token) :
    Opener.Begin f.openers (T.tokens ++ rest) := by
  induction h generalizing rest with
  | word mem kind => exact ⟨_, List.mem_map_of_mem mem, _, rfl, kind⟩
  | name named => exact ⟨_, List.mem_singleton_self _, _, rfl, named⟩
  | region region =>
    obtain ⟨t, us, rfl, hk⟩ := region.exists_opening
    exact ⟨_, List.mem_singleton_self _, t, rfl, hk⟩
  | empty => exact absurd rfl hne
  | @seq f g A B hA hB head tail =>
    rw [openers, Opener.begin_append, Tree.tokens, List.append_assoc]
    by_cases hnil : A.tokens = []
    · right
      rw [hnil, List.nil_append, if_pos (hA.nullable hnil)]
      exact tail (fun h => hne (by rw [Tree.tokens, hnil, h]; rfl)) rest
    · exact .inl (head hnil _)
  | left _ chosen => exact Opener.begin_append.2 (.inl (chosen hne rest))
  | right _ chosen => exact Opener.begin_append.2 (.inr (chosen hne rest))

/-- Of a choice, no two parts are both taken. -/
theorem not_both (hnullable : ¬ (f.nullable = true ∧ g.nullable = true))
    (hdisjoint : Opener.disjoint f.openers g.openers = true) (hA : Greedy f A rest) (hB : Greedy g B rest')
    (hA' : A.tokens = [] → ¬ Opener.Begin g.openers rest) (hB' : B.tokens = [] → ¬ Opener.Begin f.openers rest')
    (h : A.tokens ++ rest = B.tokens ++ rest') : False := by
  by_cases hnil : A.tokens = []
  · by_cases hnil' : B.tokens = []
    · exact hnullable ⟨hA.derives.nullable hnil, hB.derives.nullable hnil'⟩
    · rw [hnil, List.nil_append] at h
      exact hA' hnil (h ▸ hB.derives.begins hnil' rest')
  · have hbegin := hA.derives.begins hnil rest
    by_cases hnil' : B.tokens = []
    · rw [hnil', List.nil_append] at h
      exact hB' hnil' (h ▸ hbegin)
    · exact Opener.not_begin_of_disjoint hdisjoint hbegin (h ▸ hB.derives.begins hnil' rest')

/-- **A derivation that takes what it can is the only one.** -/
theorem Greedy.unique (hclear : f.clear = true) (h : Greedy f T rest) (h' : Greedy f T' rest')
    (htokens : T.tokens ++ rest = T'.tokens ++ rest') : T = T' ∧ rest = rest' := by
  induction h generalizing T' rest' with
  | word | name =>
    cases h' with
    | _ =>
      obtain ⟨rfl, rfl⟩ := List.cons.inj htokens
      exact ⟨rfl, rfl⟩
  | region region =>
    cases h' with
    | region region' =>
      obtain ⟨rfl, rfl⟩ := region.unique region' htokens
      exact ⟨rfl, rfl⟩
  | empty =>
    cases h' with
    | empty => exact ⟨rfl, htokens⟩
  | seq _ _ head tail =>
    obtain ⟨hf, hg, -⟩ := clear_seq.1 hclear
    cases h' with
    | seq head' tail' =>
      simp only [Tree.tokens, List.append_assoc] at htokens
      obtain ⟨rfl, hrest⟩ := head hf head' htokens
      obtain ⟨rfl, hrest'⟩ := tail hg tail' hrest
      exact ⟨rfl, hrest'⟩
  | left hA settled chosen =>
    obtain ⟨hf, -, hdisjoint, hnullable⟩ := clear_either.1 hclear
    cases h' with
    | left hA' =>
      obtain ⟨rfl, hrest⟩ := chosen hf hA' htokens
      exact ⟨rfl, hrest⟩
    | right hB settled' => exact (not_both hnullable hdisjoint hA hB settled settled' htokens).elim
  | right hB settled chosen =>
    obtain ⟨-, hg, hdisjoint, hnullable⟩ := clear_either.1 hclear
    cases h' with
    | left hA settled' => exact (not_both hnullable hdisjoint hA hB settled' settled htokens.symm).elim
    | right hB' =>
      obtain ⟨rfl, hrest⟩ := chosen hg hB' htokens
      exact ⟨rfl, hrest⟩

/-- **A derivation takes what it can**, unless it could go on with the rest. -/
theorem Derives.greedy (hclear : f.clear = true) (h : f.Derives T) (hrest : ¬ Opener.Begin f.extenders rest) :
    Greedy f T rest := by
  induction h generalizing rest with
  | word mem kind => exact .word mem kind
  | name named => exact .name named
  | region region => exact .region region
  | empty => exact .empty
  | @seq f g A B hA hB head tail =>
    obtain ⟨hf, hg, hdisjoint⟩ := clear_seq.1 hclear
    rw [extenders, Opener.begin_append, not_or] at hrest
    refine .seq (head hf fun hbegin => ?_) (tail hg hrest.1)
    by_cases hnil : B.tokens = []
    · rw [if_pos (hB.nullable hnil)] at hrest
      rw [hnil, List.nil_append] at hbegin
      exact hrest.2 hbegin
    · exact Opener.not_begin_of_disjoint hdisjoint hbegin (hB.begins hnil rest)
  | @left f g A hA chosen =>
    obtain ⟨hf, -, -, -⟩ := clear_either.1 hclear
    simp only [extenders, Opener.begin_append, not_or] at hrest
    refine .left (chosen hf hrest.1.1.1) fun hnil => ?_
    have hopen := hrest.1.2
    rwa [if_pos (hA.nullable hnil)] at hopen
  | @right f g B hB chosen =>
    obtain ⟨-, hg, -, -⟩ := clear_either.1 hclear
    simp only [extenders, Opener.begin_append, not_or] at hrest
    refine .right (chosen hg hrest.1.1.2) fun hnil => ?_
    have hopen := hrest.2
    rwa [if_pos (hB.nullable hnil)] at hopen

/-- It does not matter which part of a choice comes first, nor which one stands for nothing. -/
theorem exists_greedy_optional {ts : List Token} :
    (∃ T, Greedy (.either g (.optional f)) T rest ∧ T.tokens = ts) ↔
      ∃ T, Greedy (.optional (.either f g)) T rest ∧ T.tokens = ts := by
  have hopeners : (Form.optional f).openers = f.openers := List.append_nil _
  constructor
  · rintro ⟨T, hT, rfl⟩
    cases hT with
    | left hA settled =>
      rw [hopeners] at settled
      exact ⟨.left (.right _), .left (.right hA settled) fun _ => Opener.not_begin_nil, rfl⟩
    | right hB settled =>
      cases hB with
      | left hA => exact ⟨.left (.left _), .left (.left hA settled) fun _ => Opener.not_begin_nil, rfl⟩
      | right hnothing settled' =>
        cases hnothing with
        | empty =>
          refine ⟨.right .nothing, .right .empty fun _ hbegin => ?_, rfl⟩
          rcases Opener.begin_append.1 hbegin with hf | hg
          · exact settled' rfl hf
          · exact settled rfl hg
  · rintro ⟨T, hT, rfl⟩
    cases hT with
    | left hA =>
      cases hA with
      | left hf settled => exact ⟨.right (.left _), .right (.left hf fun _ => Opener.not_begin_nil) settled, rfl⟩
      | right hg settled => exact ⟨.left _, .left hg (hopeners ▸ settled), rfl⟩
    | right hnothing settled =>
      cases hnothing with
      | empty =>
        obtain ⟨hf, hg⟩ := not_or.1 (mt Opener.begin_append.2 (settled rfl))
        exact ⟨.right (.right .nothing), .right (.right .empty fun _ => hf) fun _ => hg, rfl⟩

/-! ## Whole forms -/

/-- Nothing can continue a derivation of the form. -/
theorem Derives.greedy_of_closed (hclear : f.clear = true) (hclosed : f.extenders = []) (h : f.Derives T) :
    Greedy f T rest := by
  refine h.greedy hclear ?_
  rw [hclosed]
  exact Opener.not_begin_nil

/-- At most one derivation of a form that ends by itself is in front of some tokens. -/
theorem Derives.unique (hclear : f.clear = true) (hclosed : f.extenders = []) (h : f.Derives T) (h' : f.Derives T')
    {ts : List Token} (hts : T.tokens <+: ts) (hts' : T'.tokens <+: ts) : T = T' := by
  obtain ⟨rest, rfl⟩ := hts
  obtain ⟨rest', hrest⟩ := hts'
  exact ((h.greedy_of_closed hclear hclosed).unique hclear (h'.greedy_of_closed hclear hclosed) hrest.symm).1

end Form

end SelectRouting
