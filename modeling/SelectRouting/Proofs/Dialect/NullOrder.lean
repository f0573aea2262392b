import SelectRouting.Proofs.Dialect.Grouping
/-!
# Where nulls sort

The generic dialect sorts nulls first unless told otherwise, and SQL Server, which has no words for it, sorts them last.
So an order of SQL Server is the generic one with its nulls last (`Statement.nullsLast`), unless `NULLS` is written: then
SQL Server ends the clause in front of that word (`orderBy_sqlServer`), and nothing behind it passes the word.
-/
namespace SelectRouting

def OrderItem.nullsLast (i : OrderItem) : OrderItem :=
  { i with nulls := .descending }

namespace SelectItem

/-- The order that rows are numbered by. -/
def order : SelectItem → List OrderItem
  | .star _ | .expression .. => []
  | .rowNumber order _ => order

def nullsLast : SelectItem → SelectItem
  | .rowNumber order a => .rowNumber (order.map OrderItem.nullsLast) a
  | item => item

theorem nullsLast_of_order_eq_nil {item : SelectItem} (h : item.order = []) : item.nullsLast = item := by
  cases item with
  | star | expression => rfl
  | rowNumber order a => rw [show order = [] from h]; rfl

end SelectItem

namespace Statement

/-- The items of all orders of a statement. -/
def orderItems (s : Statement) : List OrderItem :=
  s.items.flatMap SelectItem.order ++ s.order

/-- The statement with its nulls last, in every order. -/
def nullsLast (s : Statement) : Statement :=
  { s with items := s.items.map SelectItem.nullsLast, order := s.order.map OrderItem.nullsLast }

/-- Where no rows are numbered, only the order of the statement itself changes. -/
theorem nullsLast_of_items {s : Statement} (h : ∀ item ∈ s.items, item.order = []) :
    s.nullsLast = { s with order := s.order.map OrderItem.nullsLast } := by
  have hitems : s.items.map SelectItem.nullsLast = s.items :=
    (List.map_congr_left fun item hitem => SelectItem.nullsLast_of_order_eq_nil (h item hitem)).trans (List.map_id' _)
  rw [nullsLast, hitems]

theorem orderItems_of_items {s : Statement} (h : ∀ item ∈ s.items, item.order = []) : s.orderItems = s.order := by
  rw [orderItems, List.flatMap_eq_nil_iff.2 h, List.nil_append]

end Statement

namespace Grammar

section
variable {rule : Rule} {s s' : State} {α β : Type}

/-! ## Items of an order -/

/-- The result of SQL Server beside the generic one: the same error, the same value up to where nulls sort, or a value in
front of `NULLS`. -/
inductive NullsLast (f : α → α) (P : α → Prop) :
    EStateM.Result ParseError State α → EStateM.Result ParseError State α → Prop where
  | error {e : ParseError} {s : State} : NullsLast f P (.error e s) (.error e s)
  | ok {a : α} {s : State} (ha : P a) : NullsLast f P (.ok a s) (.ok (f a) s)
  | stopped {r : EStateM.Result ParseError State α} {a : α} {s : State} (hs : s.cursor.kind = .keyword .nulls) :
    NullsLast f P r (.ok a s)

/-- What is made of the values: `g` of the generic one, and `g'` of the other. -/
theorem NullsLast.map {p q : Parser α} {f : α → α} {P : α → Prop} {f' : β → β} {P' : β → Prop} {g g' : α → β}
    (h : NullsLast f P (p s) (q s)) (hP : ∀ a, P a → P' (g a)) (hf : ∀ a, f' (g a) = g' (f a)) :
    NullsLast f' P' ((p >>= fun a => pure (g a)) s) ((q >>= fun a => pure (g' a)) s) := by
  rw [bind_apply, bind_apply]
  generalize p s = r, q s = r' at h
  cases h with
  | error => exact .error
  | @ok a s₁ ha =>
    show NullsLast f' P' (.ok (g a) s₁) (.ok (g' (f a)) s₁)
    rw [← hf a]
    exact .ok (hP a ha)
  | stopped hs => exact .stopped hs

theorem exists_direction_eq (s : State) : ∃ rows s', direction s = .ok rows s' := by
  have hskip : ∀ k (s : State), ∃ b s', skipKeyword k s = .ok b s' := by
    intro k s
    cases hat : s.cursor.atKeyword k with
    | true => exact ⟨true, _, skipWhen_of_true hat⟩
    | false => exact ⟨false, _, skipWhen_of_false hat⟩
  obtain ⟨b, s₁, hdesc⟩ := hskip .desc s
  unfold direction
  rw [bind_of_ok hdesc]
  cases b with
  | true => exact ⟨_, _, rfl⟩
  | false =>
    obtain ⟨b', s₂, hasc⟩ := hskip .asc s₁
    exact ⟨.ascending, s₂, bind_of_ok hasc _⟩

theorem nullsLast_orderItem (rule : Rule) (s : State) : NullsLast OrderItem.nullsLast (·.nulls = .ascending)
    (orderItem .generic rule s) (orderItem .sqlServer rule s) := by
  unfold orderItem
  cases he : expression rule s with
  | error error s₁ =>
    rw [bind_of_error he, bind_of_error he]
    exact .error
  | ok e s₁ =>
    obtain ⟨rows, s₂, hrows⟩ := exists_direction_eq s₁
    rw [bind_of_ok he, bind_of_ok he, bind_of_ok hrows, bind_of_ok hrows]
    cases hnulls : s₂.cursor.atKeyword .nulls with
    | true => exact .stopped (Cursor.kind_of_atKeyword hnulls)
    | false =>
      have hfirst : nullOrder .generic s₂ = .ok .ascending s₂ := bind_of_ok (skipKeyword_of_false hnulls) _
      rw [bind_of_ok hfirst]
      exact .ok (a := OrderItem.mk e rows .ascending) rfl

/-- In front of `NULLS` no list goes on. -/
theorem separated_of_nulls {item : Parser α} {a : α} (rounds : Nat) (h : item s = .ok a s')
    (hnulls : s'.cursor.kind = .keyword .nulls) : separated item rounds s = .ok [a] s' := by
  cases rounds with
  | zero => exact bind_of_ok h _
  | succ rounds => exact separated_of_not_comma rounds h (by rw [hnulls]; rfl)

theorem nullsLast_separated (rule : Rule) (rounds : Nat) (s : State) :
    NullsLast (List.map OrderItem.nullsLast) (fun items => ∀ i ∈ items, i.nulls = .ascending)
      (separated (orderItem .generic rule) rounds s) (separated (orderItem .sqlServer rule) rounds s) := by
  induction rounds generalizing s with
  | zero =>
    exact (nullsLast_orderItem rule s).map (fun _ hi => List.forall_mem_singleton.2 hi) fun _ => rfl
  | succ rounds ih =>
    have hitem := nullsLast_orderItem rule s
    generalize hp : orderItem .generic rule s = p, hq : orderItem .sqlServer rule s = q at hitem
    cases hitem with
    | error =>
      rw [separated_of_error _ hp, separated_of_error _ hq]
      exact .error
    | stopped hnulls =>
      rw [separated_of_nulls _ hq hnulls]
      exact .stopped hnulls
    | @ok i s₁ hi =>
      cases hcomma : s₁.cursor.kind.alike .comma with
      | false =>
        rw [separated_of_not_comma rounds hp hcomma, separated_of_not_comma rounds hq hcomma]
        exact .ok (List.forall_mem_singleton.2 hi)
      | true =>
        rw [separated_of_comma rounds hp hcomma, separated_of_comma rounds hq hcomma]
        exact (ih s₁.advanced).map (fun _ his => List.forall_mem_cons.2 ⟨hi, his⟩) fun _ => rfl

/-! ## ORDER BY -/

/-- A state whose statement has its nulls last. -/
def State.nullsLast (s : State) : State :=
  { s with statement := s.statement.nullsLast }

/-- A state whose statement has the given order. -/
def State.ordered (s : State) (order : List OrderItem) : State :=
  { s with statement := { s.statement with order } }

theorem State.nullsLast_ordered (h : ∀ item ∈ s.statement.items, item.order = []) (order : List OrderItem) :
    (s.ordered order).nullsLast = s.ordered (order.map OrderItem.nullsLast) := by
  have hstatement := Statement.nullsLast_of_items (s := (s.ordered order).statement) h
  rw [State.nullsLast, hstatement]
  rfl

theorem items_of_orderBy {d : Dialect} (hs : Token.Complete s.cursor.tokens) {u : Unit}
    (h : orderBy d rule s = .ok u s') : s'.statement.items = s.statement.items := by
  obtain ⟨es, -, order?, -, hclauses⟩ := Traced.of_ok (fills_orderBy (d := d) s) hs h
  have hitems := congrArg Statement.items hclauses
  cases order? <;> exact hitems

/-- Where nothing is ordered yet, an `ORDER BY` of SQL Server fails as the generic one does, or stores the same items with
their nulls last, or ends in front of `NULLS`. -/
theorem orderBy_sqlServer (hs : Token.Complete s.cursor.tokens) (hitems : ∀ item ∈ s.statement.items, item.order = [])
    (horder : s.statement.order = []) :
    (∃ e s', orderBy .generic rule s = .error e s' ∧ orderBy .sqlServer rule s = .error e s') ∨
    (∃ s', orderBy .generic rule s = .ok () s' ∧ orderBy .sqlServer rule s = .ok () s'.nullsLast ∧
      ∀ i ∈ s'.statement.orderItems, i.nulls = .ascending) ∨
    ∃ s', orderBy .sqlServer rule s = .ok () s' ∧ s'.cursor.kind = .keyword .nulls := by
  rcases behindWords_cases .order .by s with hmissing | ⟨e, s', herror⟩ | ⟨-, -, hlist⟩
  · have hlast : s.nullsLast = s := by
      obtain ⟨cursor, statement, priorAllowed⟩ := s
      rw [State.nullsLast, Statement.nullsLast_of_items hitems, horder, List.map_nil, ← horder]
    refine .inr (.inl ⟨s, hmissing _, (hmissing _).trans (by rw [hlast]), ?_⟩)
    rw [Statement.orderItems_of_items hitems, horder]
    exact List.forall_mem_nil _
  · exact .inl ⟨e, s', herror _, herror _⟩
  · let s₂ := s.advanced.advanced
    have horderBy : ∀ d, orderBy d rule s = (separated (orderItem d rule) s₂.cursor.rest.length >>= fun items =>
        modifyStatement ({ · with order := items })) s₂ :=
      fun d => hlist _
    have hlists := nullsLast_separated rule s₂.cursor.rest.length s₂
    rw [horderBy .sqlServer]
    generalize hp : separated (orderItem .generic rule) s₂.cursor.rest.length s₂ = p,
      hq : separated (orderItem .sqlServer rule) s₂.cursor.rest.length s₂ = q at hlists
    cases hlists with
    | error => exact .inl ⟨_, _, (horderBy .generic).trans (bind_of_error hp _), bind_of_error hq _⟩
    | stopped hnulls => exact .inr (.inr ⟨_, bind_of_ok hq _, hnulls⟩)
    | @ok order s₃ hascending =>
      have hok : orderBy .generic rule s = .ok () (s₃.ordered order) := (horderBy .generic).trans (bind_of_ok hp _)
      have hplain : ∀ item ∈ (s₃.ordered order).statement.items, item.order = [] := by
        rw [items_of_orderBy hs hok]
        exact hitems
      have hlast := State.nullsLast_ordered (s := s₃) hplain order
      refine .inr (.inl ⟨_, hok, (bind_of_ok hq _).trans ?_, ?_⟩)
      · rw [hlast]
        rfl
      · rw [Statement.orderItems_of_items hplain]
        exact hascending

end

end Grammar

end SelectRouting
