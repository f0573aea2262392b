import SelectRouting.Proofs.Condition
import SelectRouting.Proofs.Trace.Claim
import SelectRouting.Proofs.Trace.Select
/-!
# The order of the parameters

The parameters of an accepted statement are numbered in the order in which they are written, and stand where their `?`
stands in the text (`parameters_in_order`).  Only in Oracle some of them are read and not kept.
-/
namespace SelectRouting

namespace Statement

variable {d : Dialect} {rule : Rule} {source : String} {s : Statement}

/-- A parameter of a condition is a parameter of the predicate. -/
theorem exists_placeholder_of_mem_conditions (h : parse d rule source = .ok s) {c : Condition} (hc : c ∈ s.conditions)
    {i : Nat} (hi : .parameter i ∈ c.values) : ∃ p, s.predicate = some p ∧ ∃ span, .placeholder i span ∈ p.nodes := by
  obtain ⟨es, h⟩ := readFrom_of_parse h
  rw [h.read.conditions] at hc
  obtain ⟨p, hp, hc⟩ := List.mem_flatMap.1 hc
  exact ⟨p, Option.mem_toList.1 hp, Condition.exists_placeholder_mem_nodes hc hi⟩

/-- The parameters of an accepted statement stand in their order, from the first to the last clause, and each of them
is a `?` of the text; a condition only uses parameters of the predicate. -/
theorem parameters_in_order (h : parse d rule source = .ok s) :
    let leaves := s.leaves (Token.topWritten (Token.lex source))
    let ordinals := leaves.filterMap Leaf.ordinal?
    let spans := leaves.filterMap Leaf.placeholderSpan?
    (ordinals.Pairwise (· < ·) ∧ ∀ i ∈ ordinals, i < s.parameters) ∧
    (spans.Pairwise Span.Before ∧ ∀ span ∈ spans, ∃ t ∈ Token.lex source, t.kind = .question ∧ t.span = span) ∧
    (d ≠ .oracle → ordinals = List.range s.parameters) ∧
    ∀ c ∈ s.conditions, ∀ i, .parameter i ∈ c.values →
      ∃ p, s.predicate = some p ∧ ∃ span, .placeholder i span ∈ p.nodes := by
  intro leaves ordinals spans
  have hconditions := fun c hc i hi => exists_placeholder_of_mem_conditions h (c := c) hc (i := i) hi
  obtain ⟨es, h⟩ := readFrom_of_parse h
  have hordinals : (Event.leaves es).filterMap Leaf.ordinal? = List.range s.parameters := by
    rw [Event.filterMap_ordinal?_leaves, h.ordinals]
  have hsublist : ordinals.Sublist (List.range s.parameters) := hordinals ▸ h.read.sublist.filterMap _
  have hspans : spans.Sublist ((Event.claims es).map (·.2.span)) :=
    (h.read.sublist.filterMap _).trans (Event.placeholderSpans_sublist h.sound)
  have hclaims : ((Event.claims es).map Prod.snd).Sublist (Token.lex source) := by
    obtain ⟨t, -, ht⟩ := h.tokens
    rw [ht]
    exact (Event.claims_sublist_passed es).trans (List.sublist_append_left _ _)
  refine ⟨⟨List.pairwise_lt_range.sublist hsublist, fun i hi => List.mem_range.1 (hsublist.subset hi)⟩,
    ⟨?_, fun span hspan => ?_⟩, fun hd => ?_, hconditions⟩
  · refine List.Pairwise.sublist hspans ?_
    have hpairs := (Token.pairwise_before_lex source).sublist hclaims
    rw [List.pairwise_map] at hpairs ⊢
    exact hpairs
  · obtain ⟨c, hc, rfl⟩ := List.mem_map.1 (hspans.subset hspan)
    exact ⟨c.2, hclaims.subset (List.mem_map_of_mem hc), (Event.exists_ordinal_of_mem_claims h.sound hc).1, rfl⟩
  · rw [← hordinals, h.read.leaves hd]

/-- A text with parameters in the row count, the select list, a join, a list of values, the order and the offset. -/
def crowdedText : String :=
  "SELECT TOP (?) b, CASE WHEN b = ? THEN ? END FROM t JOIN u ON k = i + ? WHERE a IN (?, 1) ORDER BY ? OFFSET ? ROWS"

/-- Its condition. -/
def crowdedCondition : Condition :=
  ⟨⟨"t", "a"⟩, .oneOf, [.parameter 4, .literal (.integer 1)]⟩

theorem parameters_in_order_crowded :
    ∃ s, parse .sqlServer ⟨[⟨"t", ["a"], []⟩]⟩ crowdedText = .ok s ∧
      ((s.leaves true).filterMap Leaf.ordinal? = [0, 1, 2, 3, 4, 5, 6] ∧ ∃ c ∈ s.conditions, .parameter 4 ∈ c.values) ∧
      ∃ p, s.predicate = some p ∧ ∃ span, .placeholder 4 span ∈ p.nodes := by
  refine exists_of_parse (fun s => (s.parameters, s.conditions)) (7, [crowdedCondition]) rfl (by decide +kernel)
    fun s hs hrun => ?_
  obtain ⟨hparameters, hconditions⟩ := Prod.mk.inj hrun
  have htop : Token.topWritten (Token.lex crowdedText) = true := by
    rw [Token.lex_of_chars crowdedText rfl]
    decide +kernel
  have hmem : crowdedCondition ∈ s.conditions := by
    rw [hconditions]
    exact List.mem_singleton_self _
  obtain ⟨-, -, hrange, hplaceholder⟩ := parameters_in_order hs
  refine ⟨⟨?_, _, hmem, List.mem_cons_self⟩, hplaceholder _ hmem 4 List.mem_cons_self⟩
  have hordinals := hrange nofun
  rw [htop, hparameters] at hordinals
  exact hordinals

end Statement

end SelectRouting
