import SelectRouting.Proofs.Precedence.Written
/-!
# Where stars stand

A star in a tree has its place when it is the only argument of a call (`Expr.StarsPlaced`).  The tokens show the same: among
them a star is an operator behind an operand, and has its place where the only argument of a call stands
(`Token.StarsFit`).  Main statement: of whatever an expression is written with, either says what the other says
(`Expr.Written.starsFit_iff`).
-/
namespace SelectRouting

/-! ## Stars in trees -/

namespace Expr

/-- `*` or `owner.*`. -/
def IsStar : Expr → Prop
  | .wildcard _ => True
  | _ => False

instance : DecidablePred IsStar
  | .wildcard _ => .isTrue trivial
  | .literal _ | .column .. | .binary .. | .unary .. | .call .. | .isNull .. | .within .. | .between .. | .case ..
  | .paren _ | .placeholder .. => .isFalse id

/-- The node is a call, and the part is all that it is called with. -/
def IsOnlyArgument (n c : Expr) : Prop :=
  match n with
  | .call _ _ arguments => arguments = [c]
  | _ => False

/-- Every star inside is the only argument of a call. -/
def Sheltered (e : Expr) : Prop :=
  ∀ n ∈ e.nodes, ∀ c ∈ n.children, c.IsStar → n.IsOnlyArgument c

/-- As an operand: every star inside is the only argument of a call, and it is no star itself. -/
def StarsPlaced (e : Expr) : Prop :=
  e.Sheltered ∧ ¬ e.IsStar

theorem sheltered_iff {e : Expr} :
    e.Sheltered ↔ ∀ c ∈ e.children, c.Sheltered ∧ (c.IsStar → e.IsOnlyArgument c) := by
  constructor
  · intro h c hc
    exact ⟨fun n hn => h n (mem_nodes_of_mem_children hc hn), h e (mem_nodes_self e) c hc⟩
  · intro h
    rw [Sheltered, nodes_eq, List.forall_mem_cons]
    refine ⟨fun c hc => (h c hc).2, fun n hn => ?_⟩
    obtain ⟨c, hc, hn⟩ := List.mem_flatMap.1 hn
    exact (h c hc).1 n hn

/-- All that a node has is an operand, when the node is no call. -/
theorem sheltered_iff_of_not_call {e : Expr} (h : ∀ c, ¬ e.IsOnlyArgument c) :
    e.Sheltered ↔ ∀ c ∈ e.children, c.StarsPlaced := by
  rw [sheltered_iff]
  refine forall₂_congr fun c _ => and_congr_right fun _ => ?_
  exact ⟨fun honly hstar => h c (honly hstar), fun hno hstar => absurd hstar hno⟩

@[simp] theorem sheltered_literal (v : Literal) : (literal v).Sheltered :=
  sheltered_iff.2 (List.forall_mem_nil _)

@[simp] theorem sheltered_placeholder (i : Nat) (span : Span) : (placeholder i span).Sheltered :=
  sheltered_iff.2 (List.forall_mem_nil _)

@[simp] theorem sheltered_column (owner : Option String) (name : String) (span : Span) :
    (column owner name span).Sheltered :=
  sheltered_iff.2 (List.forall_mem_nil _)

@[simp] theorem sheltered_wildcard (owner : Option String) : (wildcard owner).Sheltered :=
  sheltered_iff.2 (List.forall_mem_nil _)

@[simp] theorem sheltered_binary {op : BinaryOp} {left right : Expr} :
    (binary op left right).Sheltered ↔ left.StarsPlaced ∧ right.StarsPlaced := by
  have hparts : (binary op left right).Sheltered ↔ ∀ c ∈ [left, right], c.StarsPlaced :=
    sheltered_iff_of_not_call fun _ => id
  rw [hparts, List.forall_mem_cons, List.forall_mem_singleton]

@[simp] theorem sheltered_unary {op : UnaryOp} {e : Expr} : (unary op e).Sheltered ↔ e.StarsPlaced := by
  have hparts : (unary op e).Sheltered ↔ ∀ c ∈ [e], c.StarsPlaced := sheltered_iff_of_not_call fun _ => id
  rw [hparts, List.forall_mem_singleton]

@[simp] theorem sheltered_call {name : String} {distinct : Bool} {arguments : List Expr} :
    (call name distinct arguments).Sheltered ↔ ∀ c ∈ arguments, c.Sheltered ∧ (c.IsStar → arguments = [c]) :=
  sheltered_iff

@[simp] theorem sheltered_isNull {e : Expr} {negated : Bool} : (isNull e negated).Sheltered ↔ e.StarsPlaced := by
  have hparts : (isNull e negated).Sheltered ↔ ∀ c ∈ [e], c.StarsPlaced := sheltered_iff_of_not_call fun _ => id
  rw [hparts, List.forall_mem_singleton]

@[simp] theorem sheltered_within {e : Expr} {members : List Expr} {negated : Bool} :
    (within e members negated).Sheltered ↔ e.StarsPlaced ∧ ∀ m ∈ members, m.StarsPlaced := by
  have hparts : (within e members negated).Sheltered ↔ ∀ c ∈ e :: members, c.StarsPlaced :=
    sheltered_iff_of_not_call fun _ => id
  rw [hparts, List.forall_mem_cons]

@[simp] theorem sheltered_between {e low high : Expr} {negated : Bool} :
    (between e low high negated).Sheltered ↔ e.StarsPlaced ∧ low.StarsPlaced ∧ high.StarsPlaced := by
  have hparts : (between e low high negated).Sheltered ↔ ∀ c ∈ [e, low, high], c.StarsPlaced :=
    sheltered_iff_of_not_call fun _ => id
  rw [hparts, List.forall_mem_cons, List.forall_mem_cons, List.forall_mem_singleton]

@[simp] theorem sheltered_case {operand : Option Expr} {branches : List (Expr × Expr)} {otherwise : Option Expr} :
    (case operand branches otherwise).Sheltered ↔ (∀ e ∈ operand, e.StarsPlaced) ∧
      (∀ b ∈ branches, b.1.StarsPlaced ∧ b.2.StarsPlaced) ∧ ∀ e ∈ otherwise, e.StarsPlaced := by
  have hparts : (case operand branches otherwise).Sheltered ↔
      ∀ c ∈ operand.toList ++ branches.flatMap (fun b => [b.1, b.2]) ++ otherwise.toList, c.StarsPlaced :=
    sheltered_iff_of_not_call fun _ => id
  rw [hparts, List.forall_mem_append, List.forall_mem_append, List.forall_mem_flatMap, and_assoc]
  simp

@[simp] theorem sheltered_paren {e : Expr} : (paren e).Sheltered ↔ e.StarsPlaced := by
  have hparts : (paren e).Sheltered ↔ ∀ c ∈ [e], c.StarsPlaced := sheltered_iff_of_not_call fun _ => id
  rw [hparts, List.forall_mem_singleton]

end Expr

/-! ## Stars among tokens

Tokens that have been passed are listed with the last one first. -/

namespace Token

/-- An operand can end with the token.  A star is none of these tokens. -/
def endsOperand (t : Token) : Bool :=
  match t.kind with
  | .integer _ | .float _ | .string _ | .question | .rightParen => true
  | .keyword .trueLiteral | .keyword .falseLiteral | .keyword .null | .keyword .end => true
  | _ => t.name?.isSome

/-- The tokens passed end where the first argument of a call begins: behind its parenthesis, a `DISTINCT` and any marks.
The owner of a star is part of that argument. -/
def opensCall : List Token → Bool
  | [] => false
  | t :: passed =>
    match t.kind with
    | .leftParen => passed.head?.any (·.name?.isSome)
    | .keyword .distinct | .keyword .prior => opensCall passed
    | .dot =>
      match passed with
      | [] => false
      | _ :: passed => opensCall passed
    | _ => false

/-- A closing parenthesis comes next. -/
def closes (after : List Token) : Bool :=
  after.head?.any (·.kind = .rightParen)

/-- A star is an operator behind an operand, or the only argument of a call. -/
def StarFits (passed after : List Token) : Prop :=
  passed.head?.any endsOperand = true ∨ (opensCall passed = true ∧ closes after = true)

/-- Every star among some tokens fits where it stands. -/
def StarsFit (passed : List Token) : List Token → List Token → Prop
  | [], _ => True
  | t :: ts, after => (t.kind = .star → StarFits passed (ts ++ after)) ∧ StarsFit (t :: passed) ts after

section
variable {passed ts us after : List Token} {t : Token}

@[simp] theorem starsFit_nil : StarsFit passed [] after := trivial

@[simp] theorem starsFit_cons :
    StarsFit passed (t :: ts) after ↔ (t.kind = .star → StarFits passed (ts ++ after)) ∧ StarsFit (t :: passed) ts after :=
  Iff.rfl

@[simp] theorem starsFit_append : StarsFit passed (ts ++ us) after ↔
    StarsFit passed ts (us ++ after) ∧ StarsFit (ts.reverse ++ passed) us after := by
  induction ts generalizing passed with
  | nil => simp
  | cons t ts ih => simp [ih, and_assoc]

/-! ### Where operands stand -/

/-- No operand has ended with the last token passed. -/
def AtOperand (passed : List Token) : Prop :=
  passed.head?.any endsOperand = false

/-- Here an operand may begin, and no argument of a call does. -/
structure AtInnerOperand (passed : List Token) : Prop where
  operand : AtOperand passed
  noCall : opensCall passed = false

/-- The kinds in front of an operand that is no argument. -/
def Kind.divides : Kind → Bool
  | .comma | .plus | .minus | .star | .slash | .percent | .eq | .notEq | .lt | .ltEq | .gt | .gtEq | .concat => true
  | .keyword k => [.not, .or, .and, .like, .between, .case, .when, .then, .else].contains k
  | _ => false

theorem atInnerOperand_of_divides (passed : List Token) {t : Token} {k : Kind} (h : t.kind = k) (hk : k.divides = true) :
    AtInnerOperand (t :: passed) := by
  subst h
  obtain ⟨kind, span, text⟩ := t
  cases kind with
  | keyword k => cases k <;> first | exact ⟨rfl, rfl⟩ | cases hk
  | _ => first | exact ⟨rfl, rfl⟩ | cases hk

/-! ### Words -/

theorem ne_star_of_name? {name : String} (h : t.name? = some name) : t.kind ≠ .star := by
  intro hk
  rw [name?, hk] at h
  cases h

theorem endsOperand_of_name? {name : String} (h : t.name? = some name) : t.endsOperand = true := by
  unfold endsOperand
  split <;> first | rfl | simp [h]

/-- Whatever calls a function can be a name. -/
theorem exists_name?_of_functionName? {name : String} (h : t.functionName? = some name) : ∃ n, t.name? = some n := by
  rcases name_or_aggregate_of_functionName? h with hname | ⟨k, hk, haggregate, -⟩
  · exact ⟨name, hname⟩
  · refine ⟨t.text, name?_eq_some.2 (.inr ⟨k, hk, ?_, rfl⟩)⟩
    cases k <;> first | rfl | cases haggregate

end

/-! ### Where arguments begin -/

section
variable {passed : List Token} {t : Token}

theorem opensCall_leftParen (h : t.kind = .leftParen) :
    opensCall (t :: passed) = passed.head?.any (·.name?.isSome) := by
  rw [opensCall.eq_def]
  dsimp only
  rw [h]

theorem opensCall_distinct (h : t.kind = .keyword .distinct) : opensCall (t :: passed) = opensCall passed := by
  rw [opensCall.eq_def]
  dsimp only
  rw [h]

theorem opensCall_prior (h : t.kind = .keyword .prior) : opensCall (t :: passed) = opensCall passed := by
  rw [opensCall.eq_def]
  dsimp only
  rw [h]

theorem opensCall_dot {o : Token} (h : t.kind = .dot) : opensCall (t :: o :: passed) = opensCall passed := by
  rw [opensCall.eq_def]
  dsimp only
  rw [h]

theorem atOperand_leftParen (h : t.kind = .leftParen) : AtOperand (t :: passed) := by
  simp [AtOperand, endsOperand, name?, h]

theorem atOperand_reserved {k : Keyword} (h : t.kind = .keyword k) (hk : k ∈ [.distinct, .prior]) :
    AtOperand (t :: passed) := by
  simp only [List.mem_cons, List.not_mem_nil, or_false] at hk
  rcases hk with rfl | rfl <;> simp [AtOperand, endsOperand, name?, h, Keyword.reserved]

/-- Behind an opening parenthesis that no name stands in front of. -/
theorem atInnerOperand_leftParen (h : t.kind = .leftParen) (hname : passed.head?.any (·.name?.isSome) = false) :
    AtInnerOperand (t :: passed) :=
  ⟨atOperand_leftParen h, (opensCall_leftParen h).trans hname⟩

/-- Behind the parenthesis of a list. -/
theorem atInnerOperand_within (passed : List Token) {word : Token} (hin : word.kind = .keyword .in)
    (h : t.kind = .leftParen) : AtInnerOperand (t :: word :: passed) :=
  atInnerOperand_leftParen h (by simp [name?, hin, Keyword.reserved])

theorem opensCall_call (passed : List Token) {f : Token} {name : String} (hf : f.functionName? = some name)
    (h : t.kind = .leftParen) : opensCall (t :: f :: passed) = true := by
  obtain ⟨n, hn⟩ := exists_name?_of_functionName? hf
  simp [opensCall_leftParen h, hn]

/-- No operand ends with a name that stands in front. -/
theorem AtOperand.any_name? (h : AtOperand passed) : passed.head?.any (·.name?.isSome) = false := by
  cases passed with
  | nil => rfl
  | cons u passed =>
    rw [Bool.eq_false_iff]
    intro hname
    obtain ⟨name, hname⟩ := Option.isSome_iff_exists.1 hname
    exact Bool.false_ne_true (h.symm.trans (endsOperand_of_name? hname))

end

/-! ### Ends of operands -/

/-- Some tokens end as operands do. -/
def EndsOperand (ts : List Token) : Prop :=
  ∃ us t, ts = us ++ [t] ∧ t.endsOperand = true

theorem EndsOperand.append {ts us : List Token} (h : EndsOperand us) : EndsOperand (ts ++ us) := by
  obtain ⟨vs, t, rfl, ht⟩ := h
  exact ⟨ts ++ vs, t, (List.append_assoc _ _ _).symm, ht⟩

theorem EndsOperand.cons {t : Token} {ts : List Token} (h : EndsOperand ts) : EndsOperand (t :: ts) :=
  @append [t] ts h

theorem endsOperand_concat (ts : List Token) {t : Token} (h : t.endsOperand = true) : EndsOperand (ts ++ [t]) :=
  ⟨ts, t, rfl, h⟩

/-- The tokens that always end an operand. -/
theorem endsOperand_of_kind {t : Token} {k : Kind} (h : t.kind = k)
    (hk : k ∈ [.question, .rightParen, .keyword .null, .keyword .end]) : t.endsOperand = true := by
  unfold endsOperand
  rw [h]
  simp only [List.mem_cons, List.not_mem_nil, or_false] at hk
  rcases hk with rfl | rfl | rfl | rfl <;> rfl

/-- A star behind an operand is an operator. -/
theorem EndsOperand.starFits {ts passed after : List Token} (h : EndsOperand ts) :
    StarFits (ts.reverse ++ passed) after := by
  obtain ⟨us, t, rfl, ht⟩ := h
  exact .inl (by simp [ht])

end Token

theorem Literal.endsOperand {v : Literal} {t : Token} (h : t.kind = v.kind) : t.endsOperand = true := by
  unfold Token.endsOperand
  rw [h]
  cases v with
  | boolean b => cases b <;> rfl
  | _ => rfl

theorem Literal.kind_ne_star (v : Literal) : v.kind ≠ .star := by
  cases v with
  | boolean b => cases b <;> nofun
  | _ => nofun

theorem UnaryOp.kind_ne_star (op : UnaryOp) : op.kind ≠ .star := by
  cases op <;> nofun

theorem UnaryOp.divides (op : UnaryOp) : op.kind.divides = true := by
  cases op <;> rfl

theorem BinaryOp.kind_ne_rightParen (op : BinaryOp) : op.kind ≠ .rightParen := by
  cases op <;> nofun

theorem BinaryOp.divides (op : BinaryOp) : op.kind.divides = true := by
  cases op <;> rfl

/-! ## What an expression is written with -/

namespace Expr

open Token (StarsFit starsFit_cons starsFit_append AtOperand AtInnerOperand opensCall closes EndsOperand
  endsOperand_concat endsOperand_of_kind Marking)

variable {prior : Bool}

/-- What an operand is written with ends as operands do. -/
theorem Written.endsOperand : ∀ {e : Expr} {ts : List Token}, Written prior e ts → e.StarsPlaced → EndsOperand ts
  | _, _, .literal word, _ => endsOperand_concat [] (Literal.endsOperand word)
  | _, _, .column named, _ => endsOperand_concat [] (Token.endsOperand_of_name? named)
  | _, _, .qualified _ _ named, _ => endsOperand_concat [_, _] (Token.endsOperand_of_name? named)
  | _, _, .placeholder mark, _ => endsOperand_concat [] (endsOperand_of_kind mark (by decide))
  | _, _, .star _, h => absurd trivial h.2
  | _, _, .qualifiedStar .., h => absurd trivial h.2
  | _, _, .paren _ _ closing, _ => endsOperand_concat _ (endsOperand_of_kind closing (by decide))
  | _, _, .unary _ operand, h => (operand.endsOperand (sheltered_unary.1 h.1)).cons
  | _, _, .binary _ _ second, h => (second.endsOperand (sheltered_binary.1 h.1).2).cons.append
  | _, _, .notLike _ _ _ second, h => by
    have hlike := sheltered_unary.1 h.1
    exact (second.endsOperand (sheltered_binary.1 hlike.1).2).cons.cons.append
  | _, _, .call _ _ _ _ closing, _ =>
    (endsOperand_concat _ (endsOperand_of_kind closing (by decide))).append.cons.cons
  | _, _, .isNull _ _ _ behind, _ => (endsOperand_concat _ (endsOperand_of_kind behind (by decide))).cons.append
  | _, _, .within _ _ _ _ _ closing, _ =>
    (endsOperand_concat _ (endsOperand_of_kind closing (by decide))).cons.cons.append.append
  | _, _, .between _ _ _ _ _ upper, h => (upper.endsOperand (sheltered_between.1 h.1).2.2).cons.append.cons.append.append
  | _, _, .case _ _ _ _ closing, _ =>
    (endsOperand_concat _ (endsOperand_of_kind closing (by decide))).append.append.cons
  | _, _, .marked _ _ operand, h => (operand.endsOperand h).cons

/-- The stars among some tokens fit exactly where the expression that these are written with may stand. -/
def Shows (e : Expr) (ts : List Token) : Prop :=
  ∀ passed after, AtOperand passed →
    (StarsFit passed ts after ↔ e.Sheltered ∧ (e.IsStar → opensCall passed = true ∧ closes after = true))

/-- The same of a list, where a star may only be the only member. -/
def ShowsAll (es : List Expr) (ts : List Token) : Prop :=
  ∀ passed after, AtOperand passed → (StarsFit passed ts after ↔
    ∀ e ∈ es, e.Sheltered ∧ (e.IsStar → es = [e] ∧ opensCall passed = true ∧ closes after = true))

section
variable {e : Expr} {es : List Expr} {t : Token} {ts us passed after : List Token}

theorem Shows.inner (h : Shows e ts) (hpassed : AtInnerOperand passed) : StarsFit passed ts after ↔ e.StarsPlaced := by
  rw [h passed after hpassed.operand, hpassed.noCall]
  simp [StarsPlaced]

/-- A left operand, with what follows it. -/
theorem Shows.left (h : Shows e ts) (hends : e.StarsPlaced → EndsOperand ts) (hpassed : AtOperand passed)
    (ht : t.kind ≠ .rightParen) : StarsFit passed (ts ++ t :: us) after ↔
      e.StarsPlaced ∧ StarsFit (t :: (ts.reverse ++ passed)) us after := by
  have hcloses : closes (t :: us ++ after) = false := by simp [closes, ht]
  rw [starsFit_append, starsFit_cons, h passed _ hpassed, hcloses]
  constructor
  · rintro ⟨⟨hsheltered, hstar⟩, -, hbehind⟩
    exact ⟨⟨hsheltered, fun h => Bool.false_ne_true (hstar h).2⟩, hbehind⟩
  · rintro ⟨hplaced, hbehind⟩
    exact ⟨⟨hplaced.1, fun h => absurd h hplaced.2⟩, fun _ => (hends hplaced).starFits, hbehind⟩

theorem ShowsAll.inner (h : ShowsAll es ts) (hpassed : AtInnerOperand passed) :
    StarsFit passed ts after ↔ ∀ e ∈ es, e.StarsPlaced := by
  rw [h passed after hpassed.operand, hpassed.noCall]
  simp [StarsPlaced]

/-- The arguments of a call, which alone may be a star. -/
theorem ShowsAll.call {name : String} {distinct : Bool} {f l r : Token} {ds : List Token} (h : ShowsAll es ts)
    (named : f.functionName? = some name) (opening : l.kind = .leftParen) (marked : Marking .distinct distinct ds)
    (closing : r.kind = .rightParen) : StarsFit passed (f :: l :: (ds ++ (ts ++ [r]))) after ↔
      (call name distinct es).Sheltered ∧
        ((call name distinct es).IsStar → opensCall passed = true ∧ closes after = true) := by
  obtain ⟨n, hn⟩ := Token.exists_name?_of_functionName? named
  have hcall := Token.opensCall_call passed named opening
  have hcloses : closes (r :: after) = true := by simp [closes, closing]
  cases marked with
  | absent =>
    have hlist := h (l :: f :: passed) (r :: after) (Token.atOperand_leftParen opening)
    simp [Token.ne_star_of_name? hn, opening, closing, IsStar, hlist, hcall, hcloses]
  | @present d word =>
    have hlist := h (d :: l :: f :: passed) (r :: after) (Token.atOperand_reserved word (by decide))
    simp [Token.ne_star_of_name? hn, opening, word, closing, IsStar, hlist, Token.opensCall_distinct word, hcall, hcloses]

end

mutual

theorem Written.shows : ∀ {e : Expr} {ts : List Token}, Written prior e ts → Shows e ts
  | _, _, .literal word, passed, after, _ => by simp [word, Literal.kind_ne_star, IsStar]
  | _, _, .column named, passed, after, _ => by simp [Token.ne_star_of_name? named, IsStar]
  | _, _, .qualified owned point named, passed, after, _ => by
    simp [Token.ne_star_of_name? owned, Token.ne_star_of_name? named, point, IsStar]
  | _, _, .placeholder mark, passed, after, _ => by simp [mark, IsStar]
  | _, _, .star mark, passed, after, hpassed => by
    have hpassed : passed.head?.any Token.endsOperand = false := hpassed
    simp [mark, IsStar, Token.StarFits, hpassed]
  | _, _, .qualifiedStar owned point mark, passed, after, _ => by
    simp [Token.ne_star_of_name? owned, point, mark, IsStar, Token.StarFits, Token.endsOperand, Token.name?,
      Token.opensCall_dot point]
  | _, _, .paren opening inner closing, passed, after, hpassed => by
    have hinner := Token.atInnerOperand_leftParen opening hpassed.any_name?
    simp [opening, closing, IsStar, inner.shows.inner hinner]
  | _, _, .unary word operand, passed, after, _ => by
    have hinner := Token.atInnerOperand_of_divides passed word (UnaryOp.divides _)
    simp [word, UnaryOp.kind_ne_star, IsStar, operand.shows.inner hinner]
  | _, _, .binary first word second, passed, after, hpassed => by
    have hright := fun passed => Token.atInnerOperand_of_divides passed word (BinaryOp.divides _)
    rw [first.shows.left first.endsOperand hpassed (word ▸ BinaryOp.kind_ne_rightParen _),
      second.shows.inner (hright _)]
    simp [IsStar]
  | _, _, .notLike first negation word second, passed, after, hpassed => by
    have hright := fun passed => Token.atInnerOperand_of_divides passed word rfl
    rw [first.shows.left first.endsOperand hpassed (by simp [negation]), starsFit_cons, second.shows.inner (hright _)]
    simp [word, IsStar, StarsPlaced]
  | _, _, .call named opening marked listed closing, passed, after, _ =>
    listed.showsAll.call named opening marked closing
  | _, _, .isNull first word marked behind, passed, after, hpassed => by
    rw [first.shows.left first.endsOperand hpassed (by simp [word])]
    cases marked with
    | absent => simp [behind, IsStar]
    | present negation => simp [negation, behind, IsStar]
  | _, _, .within first marked word opening listed closing, passed, after, hpassed => by
    have hlist := fun passed => Token.atInnerOperand_within passed word opening
    cases marked with
    | absent =>
      rw [List.nil_append, first.shows.left first.endsOperand hpassed (by simp [word])]
      simp [opening, closing, IsStar, listed.showsAll.inner (hlist _)]
    | present negation =>
      rw [List.singleton_append, first.shows.left first.endsOperand hpassed (by simp [negation])]
      simp [word, opening, closing, IsStar, listed.showsAll.inner (hlist _)]
  | _, _, .between first marked word lower conjunction upper, passed, after, hpassed => by
    have hlow := fun passed => Token.atInnerOperand_of_divides passed word rfl
    have hhigh := fun passed => Token.atInnerOperand_of_divides passed conjunction rfl
    cases marked with
    | absent =>
      rw [List.nil_append, first.shows.left first.endsOperand hpassed (by simp [word])]
      simp [conjunction, IsStar, lower.shows.inner (hlow _), upper.shows.inner (hhigh _)]
    | present negation =>
      rw [List.singleton_append, first.shows.left first.endsOperand hpassed (by simp [negation])]
      simp [word, conjunction, IsStar, lower.shows.inner (hlow _), upper.shows.inner (hhigh _)]
  | _, _, .case word compared branched last closing, passed, after, _ => by
    have hoperand := Token.atInnerOperand_of_divides passed word rfl
    simp [word, closing, IsStar, compared.starsFit_iff hoperand, branched.starsFit_iff, last.starsFit_iff]
  | _, _, .marked allowed word operand, passed, after, hpassed => by
    have hoperand := operand.shows (_ :: passed) after (Token.atOperand_reserved word (by decide))
    simp [word, hoperand, Token.opensCall_prior word]

theorem WrittenList.showsAll : ∀ {es : List Expr} {ts : List Token}, WrittenList prior es ts → ShowsAll es ts
  | _, _, .nil, passed, after, _ => by simp
  | _, _, .single only, passed, after, hpassed => by
    rw [only.shows passed after hpassed]
    simp
  | _, _, .cons first comma filled rest, passed, after, hpassed => by
    have hrest := fun passed => Token.atInnerOperand_of_divides passed comma rfl
    rw [first.shows.left first.endsOperand hpassed (by simp [comma]), rest.showsAll.inner (hrest _)]
    simp [filled, StarsPlaced]

theorem WrittenOptional.starsFit_iff : ∀ {e : Option Expr} {ts : List Token}, WrittenOptional prior e ts →
    ∀ {passed after}, AtInnerOperand passed → (StarsFit passed ts after ↔ ∀ x ∈ e, x.StarsPlaced)
  | _, _, .absent, _, _, _ => by simp
  | _, _, .present inner, _, _, hpassed => by simp [inner.shows.inner hpassed]

theorem WrittenBranches.starsFit_iff : ∀ {bs : List (Expr × Expr)} {ts : List Token}, WrittenBranches prior bs ts →
    ∀ {passed after}, StarsFit passed ts after ↔ ∀ b ∈ bs, b.1.StarsPlaced ∧ b.2.StarsPlaced
  | _, _, .nil, _, _ => by simp
  | _, _, .cons word tested word' valued rest, _, _ => by
    have hcondition := fun passed => Token.atInnerOperand_of_divides passed word rfl
    have hvalue := fun passed => Token.atInnerOperand_of_divides passed word' rfl
    simp [word, word', tested.shows.inner (hcondition _), valued.shows.inner (hvalue _), rest.starsFit_iff, and_assoc]

theorem WrittenElse.starsFit_iff : ∀ {e : Option Expr} {ts : List Token}, WrittenElse prior e ts →
    ∀ {passed after}, StarsFit passed ts after ↔ ∀ x ∈ e, x.StarsPlaced
  | _, _, .absent, _, _ => by simp
  | _, _, .present word inner, passed, _ => by
    have hinner := Token.atInnerOperand_of_divides passed word rfl
    simp [word, inner.shows.inner hinner]

end

/-- The stars of an operand are placed exactly if those among the tokens that it is written with fit. -/
theorem Written.starsFit_iff {e : Expr} {ts : List Token} (h : Written prior e ts) :
    StarsFit [] ts [] ↔ e.StarsPlaced :=
  h.shows.inner ⟨rfl, rfl⟩

end Expr

end SelectRouting
