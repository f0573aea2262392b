import SelectRouting.Proofs.Trace.Outcome
/-!
# The parameters that a run claims

Each parameter of a run is claimed by a `?` of its own, and no other leaf has an ordinal (`Event.filter_leaves`).  Where
nothing is skipped, every `?` that is passed claims a parameter (`Event.parameters_passed`), and the ordinals of those in
trees count them in their order (`Event.map_fst_claims`).
-/
namespace SelectRouting

/-! ## Parameters among tokens -/

namespace Token

/-- The parameters among some tokens. -/
def parameters (ts : List Token) : List Token :=
  ts.filter (·.kind = .question)

/-- The placeholders of some tokens, numbered from an ordinal on. -/
def numbered (n : Nat) (ts : List Token) : List Leaf :=
  ts.mapIdx fun i t => .placeholder (n + i) t.span

variable {t : Token} {ts us : List Token}

theorem parameters_eq_nil (h : ∀ t ∈ ts, t.kind ≠ .question) : parameters ts = [] :=
  List.filter_eq_nil_iff.2 fun t ht => by simpa using h t ht

theorem parameters_singleton (h : t.kind = .question) : parameters [t] = [t] := by
  rw [parameters, List.filter_cons_of_pos (by exact decide_eq_true h), List.filter_nil]

theorem parameters_append : parameters (ts ++ us) = parameters ts ++ parameters us :=
  List.filter_append ..

theorem numbered_append (n : Nat) : numbered n (ts ++ us) = numbered n ts ++ numbered (n + ts.length) us := by
  simp only [numbered, List.mapIdx_append, Nat.add_assoc, Nat.add_comm ts.length]

/-- A number is the place of its token. -/
theorem mem_numbered {n i : Nat} {span : Span} : .placeholder i span ∈ numbered n ts ↔
    ∃ j t, ts[j]? = some t ∧ i = n + j ∧ span = t.span := by
  rw [numbered, List.mem_mapIdx]
  constructor
  · rintro ⟨j, hj, ⟨⟩⟩
    exact ⟨j, ts[j], List.getElem?_eq_getElem hj, rfl, rfl⟩
  · rintro ⟨j, t, ht, rfl, rfl⟩
    obtain ⟨hj, rfl⟩ := List.getElem?_eq_some_iff.1 ht
    exact ⟨j, hj, rfl⟩

theorem ne_question_of_name? (h : t.name?.isSome) : t.kind ≠ .question := by
  intro hk
  rw [name?, hk] at h
  cases h

end Token

theorem Leaf.SpelledBy.ne_question {l : Leaf} {ts : List Token} (h : l.SpelledBy ts) :
    ∀ t ∈ ts, t.kind ≠ .question := by
  unfold SpelledBy at h
  split at h
  case h_1 | h_2 => exact List.forall_mem_singleton.2 (Token.ne_question_of_name? (by rw [h.1]; rfl))
  case h_3 | h_4 =>
    obtain ⟨ho, hdot, ht, -⟩ := h
    refine List.forall_mem_cons.2 ⟨Token.ne_question_of_name? (by rw [ho]; rfl), ?_⟩
    refine List.forall_mem_cons.2 ⟨by rw [hdot]; exact nofun, ?_⟩
    exact List.forall_mem_singleton.2 (Token.ne_question_of_name? (by rw [ht]; rfl))
  case h_5 => exact List.forall_mem_singleton.2 (by rw [h]; exact nofun)
  case h_6 =>
    obtain ⟨ho, hdot, ht⟩ := h
    refine List.forall_mem_cons.2 ⟨Token.ne_question_of_name? (by rw [ho]; rfl), ?_⟩
    refine List.forall_mem_cons.2 ⟨by rw [hdot]; exact nofun, ?_⟩
    exact List.forall_mem_singleton.2 (by rw [ht]; exact nofun)
  case h_7 => exact h.elim

/-! ## Claims -/

namespace Event

/-- The parameter that an event claims, with its token. -/
def claim? : Event → Option (Leaf × Token)
  | .parameter l t => some (l, t)
  | _ => none

def claims (es : List Event) : List (Leaf × Token) :=
  es.filterMap claim?

theorem claims_cons (ev : Event) (es : List Event) : claims (ev :: es) = ev.claim?.toList ++ claims es := by
  rw [claims, List.filterMap_cons]
  cases ev.claim? <;> rfl

variable {es : List Event}

theorem exists_ordinal_of_mem_claims (hes : ∀ ev ∈ es, ev.Sound) {c : Leaf × Token} (hc : c ∈ claims es) :
    c.2.kind = .question ∧ ∃ i, c.1 = .placeholder i c.2.span ∨ c.1 = .bound i := by
  obtain ⟨ev, hev, hc⟩ := List.mem_filterMap.1 hc
  cases ev with
  | parameter l t =>
    cases hc
    exact hes _ hev
  | _ => cases hc

theorem claims_sublist_passed (es : List Event) : ((claims es).map Prod.snd).Sublist (passed es) := by
  induction es with
  | nil => exact .slnil
  | cons ev es ih =>
    rw [passed_cons, claims_cons]
    cases ev with
    | parameter l t => exact ih.cons_cons t
    | _ => exact ih.trans (List.sublist_append_right _ _)

/-- No other leaf has an ordinal. -/
theorem filter_leaves (hes : ∀ ev ∈ es, ev.Sound) :
    (leaves es).filter (·.ordinal?.isSome) = (claims es).map Prod.fst := by
  induction es with
  | nil => rfl
  | cons ev es ih =>
    obtain ⟨hev, htail⟩ := List.forall_mem_cons.1 hes
    rw [leaves_cons, List.filter_append, ih htail, claims_cons, List.map_append]
    cases ev with
    | parameter l t =>
      obtain ⟨-, i, rfl | rfl⟩ := hev
      · rfl
      · rfl
    | name l ts => simp [leaf?, claim?, hev.ordinal?_eq_none]
    | _ => rfl

/-- There are as many claims as ordinals. -/
theorem length_claims (hes : ∀ ev ∈ es, ev.Sound) : (claims es).length = (es.flatMap ordinals).length := by
  rw [← filterMap_ordinal?_leaves, List.length_filterMap_eq_countP, List.countP_eq_length_filter, filter_leaves hes,
    List.length_map]

/-- Where nothing is skipped, the parameters that are passed are those that are claimed. -/
theorem parameters_passed (hes : ∀ ev ∈ es, ev.Sound) (hallowed : ∀ ev ∈ es, ev.Allowed .generic .storing) :
    Token.parameters (passed es) = (claims es).map Prod.snd := by
  induction es with
  | nil => rfl
  | cons ev es ih =>
    obtain ⟨hev, hes⟩ := List.forall_mem_cons.1 hes
    obtain ⟨hev', hallowed⟩ := List.forall_mem_cons.1 hallowed
    rw [passed_cons, Token.parameters_append, ih hes hallowed, claims_cons, List.map_append]
    congr 1
    cases ev with
    | pass t => exact Token.parameters_eq_nil (List.forall_mem_singleton.2 hev')
    | parameter l t => exact Token.parameters_singleton hev.1
    | name l ts => exact Token.parameters_eq_nil hev.ne_question
    | owner o dot =>
      refine Token.parameters_eq_nil (List.forall_mem_cons.2 ⟨Token.ne_question_of_name? hev.1, ?_⟩)
      exact List.forall_mem_singleton.2 (by rw [hev.2]; exact nofun)
    | limit e t us =>
      obtain ⟨v, ht, -⟩ := hev
      exact Token.parameters_eq_nil (List.forall_mem_cons.2 ⟨by rw [ht]; exact nofun, hev'⟩)
    | skip ts =>
      obtain ⟨t, us, k, -, -, hk⟩ := hev'
      cases hk
    | store => rfl

/-- Claims in trees are the placeholders of their tokens, numbered in their order. -/
theorem map_fst_claims (hes : ∀ ev ∈ es, ev.Sound) {n : Nat}
    (hn : es.flatMap ordinals = List.range' n (es.flatMap ordinals).length) (htree : ∀ l ∈ leaves es, l.InTree) :
    (claims es).map Prod.fst = Token.numbered n ((claims es).map Prod.snd) := by
  induction es generalizing n with
  | nil => rfl
  | cons ev es ih =>
    obtain ⟨hev, htail⟩ := List.forall_mem_cons.1 hes
    rw [leaves_cons] at htree
    obtain ⟨htree, htrees⟩ := List.forall_mem_append.1 htree
    rw [List.flatMap_cons] at hn
    have hnone : ev.ordinals = [] → ev.claim? = none →
        (claims (ev :: es)).map Prod.fst = Token.numbered n ((claims (ev :: es)).map Prod.snd) := by
      intro hordinals hclaim
      rw [hordinals, List.nil_append] at hn
      rw [claims_cons, hclaim]
      exact ih htail hn htrees
    cases ev with
    | parameter l t =>
      obtain ⟨-, i, rfl | rfl⟩ := hev
      · rw [show (Event.parameter (.placeholder i t.span) t).ordinals = [i] from rfl, List.singleton_append,
          List.length_cons, List.range'_succ] at hn
        obtain ⟨rfl, hn⟩ := List.cons.inj hn
        rw [claims_cons, List.map_append, List.map_append, Token.numbered_append, ih htail hn htrees]
        rfl
      · exact (htree _ (List.mem_singleton_self _)).elim
    | name l ts => exact hnone (by rw [ordinals]; simp [leaf?, hev.ordinal?_eq_none]) rfl
    | _ => exact hnone rfl rfl

/-- The spans in the tree are those of the tokens, in the same order. -/
theorem placeholderSpans_sublist (hes : ∀ ev ∈ es, ev.Sound) :
    ((leaves es).filterMap Leaf.placeholderSpan?).Sublist ((claims es).map (·.2.span)) := by
  induction es with
  | nil => exact .slnil
  | cons ev es ih =>
    obtain ⟨hev, htail⟩ := List.forall_mem_cons.1 hes
    rw [leaves_cons, claims_cons, List.filterMap_append, List.map_append]
    refine List.Sublist.append ?_ (ih htail)
    cases ev with
    | parameter l t =>
      obtain ⟨-, i, rfl | rfl⟩ := hev
      · exact .refl _
      · exact List.nil_sublist _
    | name l ts =>
      cases l with
      | placeholder | bound => exact hev.elim
      | column | star | table => exact .refl _
    | _ => exact .refl _

end Event

end SelectRouting
