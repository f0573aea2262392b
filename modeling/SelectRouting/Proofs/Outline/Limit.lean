import SelectRouting.Proofs.Outline.Reading
import SelectRouting.Proofs.Pagination
/-!
# The bounds of a text

The values of `TOP`, `OFFSET` and `FETCH` are pieces of their own, each behind its keyword, and they are what the limit of a
statement gains (`Limit.Gains`).  Where an outline has no bound, its pieces have none (`Outline.Spells.unbounded`).
-/
namespace SelectRouting

/-! ## Bounds among pieces -/

namespace Piece

/-- The value behind `TOP` or `FETCH`. -/
def rowCount? : Piece → Option Limit.Value
  | .bound .top v _ | .bound .fetch v _ => some v
  | _ => none

/-- The value behind `OFFSET`. -/
def offset? : Piece → Option Limit.Value
  | .bound .offset v _ => some v
  | _ => none

variable {v : Limit.Value} {t : Token}

@[simp]
theorem rowCount?_token : (token t).rowCount? = none :=
  rfl

@[simp]
theorem rowCount?_fetch : (bound .fetch v t).rowCount? = some v :=
  rfl

@[simp]
theorem rowCount?_offset : (bound .offset v t).rowCount? = none :=
  rfl

@[simp]
theorem offset?_token : (token t).offset? = none :=
  rfl

@[simp]
theorem offset?_fetch : (bound .fetch v t).offset? = none :=
  rfl

@[simp]
theorem offset?_offset : (bound .offset v t).offset? = some v :=
  rfl

end Piece

def Atom.unbounded : Atom → Bool
  | .bound _ => false
  | _ => true

theorem Outline.Spells.unbounded {d : Dialect} {o : Outline} {ps : List Piece} (h : Spells d o ps)
    (ho : o.atoms.all Atom.unbounded = true) :
    ps.filterMap Piece.rowCount? = [] ∧ ps.filterMap Piece.offset? = [] := by
  have hatom : ∀ a : Atom, a.unbounded = true → ∀ p, a.Fits d p → p.rowCount? = none ∧ p.offset? = none := by
    intro a ha p hp
    cases p with
    | bound k v t =>
      cases a with
      | bound => cases ha
      | _ => exact hp.elim
    | _ => exact ⟨rfl, rfl⟩
  have hentry : d.entry.atoms.all Atom.unbounded = true := by cases d <;> decide +kernel
  have hall := h.forall_mem (fun a ha => hatom a (List.all_eq_true.1 hentry a ha))
    fun a ha => hatom a (List.all_eq_true.1 ho a ha)
  exact ⟨List.filterMap_eq_nil_iff.2 fun p hp => (hall p hp).1, List.filterMap_eq_nil_iff.2 fun p hp => (hall p hp).2⟩

namespace Limit

/-- What a limit has beside the values of another one are the bounds of some pieces. -/
structure Gains (l : Option Limit) (ps : List Piece) (l' : Option Limit) : Prop where
  rowCounts : (l'.bind (·.rowCount)).toList = (l.bind (·.rowCount)).toList ++ ps.filterMap Piece.rowCount?
  offsets : (l'.bind (·.offset)).toList = (l.bind (·.offset)).toList ++ ps.filterMap Piece.offset?

namespace Gains

variable {l l' l'' : Option Limit} {ps qs : List Piece}

theorem trans (h : Gains l ps l') (h' : Gains l' qs l'') : Gains l (ps ++ qs) l'' where
  rowCounts := by rw [h'.rowCounts, h.rowCounts, List.filterMap_append, List.append_assoc]
  offsets := by rw [h'.offsets, h.offsets, List.filterMap_append, List.append_assoc]

/-- Where nothing is bound, a limit stays as it is. -/
theorem unbounded {d : Dialect} {o : Outline} (h : o.Spells d ps) (ho : o.atoms.all Atom.unbounded = true)
    (hl : l' = l) : Gains l ps l' := by
  obtain ⟨hrowCounts, hoffsets⟩ := h.unbounded ho
  subst hl
  exact ⟨by rw [hrowCounts, List.append_nil], by rw [hoffsets, List.append_nil]⟩

end Gains

end Limit

namespace Statement.Takes

variable {c : Statement} {k : Keyword} {t : Token}

theorem literal {n : Nat} (ht : t.kind = .integer n) : c.Takes [.bound k (.literal n) t] c := by
  have hnone : Piece.readParameters [.bound k (.literal n) t] = [] :=
    Token.parameters_eq_nil (List.forall_mem_singleton.2 (by rw [ht]; exact nofun))
  exact ⟨by rw [hnone]; rfl, by rw [hnone]; rfl, fun _ => .inl⟩

/-- A parameter claims the next ordinal. -/
theorem parameter (ht : t.kind = .question) : c.Takes [.bound k (.parameter c.parameters) t] c.claimParameter := by
  have hone : Piece.readParameters [.bound k (.parameter c.parameters) t] = [t] := Token.parameters_singleton ht
  exact ⟨by rw [hone]; rfl, by rw [hone]; rfl, fun _ => .inl⟩

end Statement.Takes

namespace Grammar

open Outline (Spells)
open Limit (Gains)
open Statement (Takes)

variable {d : Dialect} {rule : Rule} {s : State}

/-- A steady parser leaves the limit as it is, and where nothing is bound, its pieces have no bound. -/
theorem Collects.unbounded {α : Type} {d' : Dialect} {o : Outline} {p : Parser α} {f : α → List Expr}
    (hp : Collects d o [] p f) (hsteady : Steady d' p) (ho : o.atoms.all Atom.unbounded = true) : Cuts s p fun _ ps s' =>
      o.Spells d ps ∧ (ps.filterMap Piece.rowCount? = [] ∧ ps.filterMap Piece.offset? = []) ∧
        s'.statement.limit = s.statement.limit :=
  ((hp s).and_passes hsteady.passes).mono fun _ _ _ hps =>
    ⟨hps.1.1, hps.1.1.unbounded ho, congrArg Statement.Pagination.limit hps.2.2⟩

/-! ## Values -/

theorem cuts_limitValue (k : Keyword) : Cuts s limitValue fun v ps s' =>
    (∃ t, v.1.SpelledBy t ∧ ps = [.bound k v.1 t]) ∧ s'.statement.limit = s.statement.limit := by
  refine Passes.look_bind ?_
  split
  · next n hk =>
    unfold literalLimit
    split
    · exact .fail
    · have hspelled : s.cursor.current.kind = .integer n.toNat := by
        rw [Int.toNat_of_nonneg (by omega)]
        exact hk
      refine Passes.advance_bind (by rw [Cursor.kind, hk]; exact Token.Kind.noConfusion) (.pure ?_)
      exact ⟨[.bound k (.literal n.toNat) s.cursor.current], rfl, .literal hspelled, ⟨_, hspelled, rfl⟩, rfl⟩
  · next hk =>
    -- The ordinal is claimed before the token is passed.
    have hclaimed : Passes { s with statement := s.statement.claimParameter } (advance >>= fun _ =>
        pure (.parameter s.statement.parameters, s.cursor.span) : Parser (Limit.Value × Span)) fun v ts s' => ∃ ps,
          ps.flatMap Piece.tokens = ts ∧ s.statement.Takes ps s'.statement ∧
            (∃ t, v.1.SpelledBy t ∧ ps = [.bound k v.1 t]) ∧ s'.statement.limit = s.statement.limit := by
      refine Passes.advance_bind (by rw [Cursor.kind, hk]; exact Token.Kind.noConfusion) (.pure ?_)
      exact ⟨[.bound k (.parameter s.statement.parameters) s.cursor.current], rfl, .parameter hk, ⟨_, hk, rfl⟩, rfl⟩
    exact hclaimed
  · exact Passes.unexpected

theorem cuts_recordLimit {edit : Nat → Nat → Edit} {v : Limit.Value} {span : Span} :
    Cuts s (recordLimit edit v span) fun _ ps s' => ps = [] ∧ s'.statement.limit = s.statement.limit := by
  cases v with
  | literal n =>
    show Cuts s (modifyStatement (·.addEdit (edit span.start n))) _
    exact .modify rfl rfl ⟨rfl, rfl⟩
  | parameter i => exact .pure ⟨rfl, rfl⟩

/-! ## TOP -/

theorem cuts_topValue : Cuts s topValue fun v ps s' =>
    Spells d (.either (.parenthesized (.bound .top)) (.bound .top)) ps ∧ ps.filterMap Piece.rowCount? = [v.1] ∧
      ps.filterMap Piece.offset? = [] ∧ s'.statement.limit = s.statement.limit := by
  refine Passes.skip_bind trivial nofun (fun hopening => Cuts.token (hopening ▸ nofun) ?_) ?_
  · refine (cuts_limitValue .top).bind fun v ps s₁ hv => ?_
    obtain ⟨⟨t, ht, rfl⟩, hs₁⟩ := hv
    refine Passes.expect_bind trivial nofun fun hclosing => Cuts.token (hclosing ▸ nofun) (.pure ?_)
    have hbound : Atom.Fits d (.bound .top) (.bound .top v.1 t) := ⟨rfl, ht⟩
    have hparens : Spells d (.parenthesized (.bound .top))
        [.token s.cursor.current, .bound .top v.1 t, .token s₁.cursor.current] :=
      .seq (.atom (Atom.fits_sign hopening)) (.seq (.atom hbound) (.atom (Atom.fits_sign hclosing)))
    exact ⟨.left hparens, rfl, rfl, hs₁⟩
  · refine (cuts_limitValue .top).mono fun v ps s' hv => ?_
    obtain ⟨⟨t, ht, rfl⟩, hs'⟩ := hv
    exact ⟨.right (.atom ⟨rfl, ht⟩), rfl, rfl, hs'⟩

theorem cuts_topClause (hs : s.statement.limit = none) : Cuts s topClause fun _ ps s' => Spells d Outline.top ps ∧
    Gains none ps s'.statement.limit ∧ s'.statement.limit.bind (·.offset) = none := by
  have hties : Traverses d (.optional (.seq (.word [.with]) (.word [.ties]))) skipTies :=
    .whenKeyword (traverses_expectKeyword.last (List.nil_subset _))
  refine Passes.skipKeyword_bind (fun hk => Cuts.token (hk ▸ nofun) ?_) fun _ => Cuts.pure ?_
  · refine (cuts_topValue (d := d)).bind fun v ps s₁ hv => Passes.look_bind ?_
    obtain ⟨hspells, hrowCounts, hoffsets, hs₁⟩ := hv
    split
    · exact Passes.unsupported
    · refine (hties.unbounded (steady_skipTies (d := d)) rfl).bind fun _ qs s₂ hqs => ?_
      obtain ⟨hqs, ⟨hnone, hnone'⟩, hs₂⟩ := hqs
      refine cuts_recordLimit.bind fun _ rs s₃ hrs => ?_
      obtain ⟨rfl, hs₃⟩ := hrs
      have hlimit : s₃.statement.limit = none := hs₃.trans (hs₂.trans (hs₁.trans hs))
      have hword : Atom.Fits d (.word [.top]) (.token s.cursor.current) := Atom.fits_word (List.mem_singleton_self _) hk
      refine .modify rfl rfl ?_
      rw [List.append_nil, List.append_nil]
      have hlimit' : (storeRowCount v.1 s₃.statement).limit = some ⟨none, some v.1, false⟩ := by
        rw [storeRowCount, Statement.limitOr, hlimit]
        rfl
      refine ⟨.left (.seq (.atom hword) (.seq hspells hqs)), ⟨?_, ?_⟩, ?_⟩
      · rw [hlimit', List.filterMap_cons_none rfl, List.filterMap_append, hrowCounts, hnone]
        rfl
      · rw [hlimit', List.filterMap_cons_none rfl, List.filterMap_append, hoffsets, hnone']
        rfl
      · rw [hlimit']
        rfl
  · rw [hs]
    exact ⟨.right .nothing, ⟨rfl, rfl⟩, rfl⟩

/-! ## OFFSET and FETCH -/

theorem traverses_expectRows : Traverses d (.word [.row, .rows]) expectRows :=
  .demandAtom spots_word (.pure (List.nil_subset _))

/-- A row count is refused where there is one. -/
theorem cuts_recordFetch {v : Limit.Value} {span : Span} : Cuts s (recordFetch v span) fun _ ps s' => ps = [] ∧
    s.statement.limit.bind (·.rowCount) = none ∧ s'.statement.limit = s.statement.limit := by
  refine Passes.inspect_bind ?_
  cases hcount : s.statement.hasRowCount with
  | true => exact Passes.fail
  | false =>
    have hnone : s.statement.limit.bind (·.rowCount) = none := Option.not_isSome_iff_eq_none.1 (Bool.eq_false_iff.1 hcount)
    exact cuts_recordLimit.mono fun _ _ _ hps => ⟨hps.1, hnone, hps.2⟩

/-- A `FETCH` is refused where there is a row count, and leaves the limit as it is. -/
theorem cuts_fetchClause : Cuts s fetchClause fun v? ps s' => Spells d Outline.fetch ps ∧
    ps.filterMap Piece.rowCount? = v?.toList ∧ ps.filterMap Piece.offset? = [] ∧
      (v?.isSome → s.statement.limit.bind (·.rowCount) = none) ∧ s'.statement.limit = s.statement.limit := by
  have hrows : Traverses d (.word [.row, .rows]) expectRows := traverses_expectRows
  have honly : Traverses d (.word [.only]) (expectKeyword .only) := traverses_expectKeyword
  have hsteady : Steady d (expectKeyword .only) := fun _ => .expectKeyword rfl
  refine Passes.skipKeyword_bind (fun hk => Cuts.token (hk ▸ nofun) ?_) fun _ =>
    Cuts.pure ⟨.right .nothing, rfl, rfl, fun hnone => absurd hnone Bool.false_ne_true, rfl⟩
  refine Passes.skipAny_bind (fun hfirst => ?_) Passes.unexpected
  obtain ⟨k, hmem, hk'⟩ := hfirst
  refine Cuts.token (hk' ▸ nofun) ((cuts_limitValue .fetch).bind fun v ps s₁ hv => ?_)
  obtain ⟨⟨t, ht, rfl⟩, hs₁⟩ := hv
  refine (hrows.unbounded (steady_expectRows (d := d)) rfl).bind fun _ qs s₂ hqs => ?_
  obtain ⟨hqs, ⟨hnone, hnone'⟩, hs₂⟩ := hqs
  refine (honly.unbounded hsteady rfl).bind fun _ rs s₃ hrs => ?_
  obtain ⟨hrs, ⟨hnone₃, hnone₃'⟩, hs₃⟩ := hrs
  refine (cuts_recordFetch (v := v.1)).bind fun _ us s₄ hus => .pure ?_
  obtain ⟨rfl, hcount, hs₄⟩ := hus
  have hlimit : s₃.statement.limit = s.statement.limit := hs₃.trans (hs₂.trans hs₁)
  have hword : Atom.Fits d (.word [.fetch]) (.token s.cursor.current) := Atom.fits_word (List.mem_singleton_self _) hk
  have hword' : Atom.Fits d (.word [.first, .next]) (.token s.advanced.cursor.current) := Atom.fits_word hmem hk'
  have hbound : Atom.Fits d (.bound .fetch) (.bound .fetch v.1 t) := ⟨rfl, ht⟩
  rw [List.append_nil, List.append_nil]
  refine ⟨.left (.seq (.atom hword) (.seq (.atom hword') (.seq (.atom hbound) (.seq hqs hrs)))), ?_, ?_, ?_, ?_⟩
  · simp [List.filterMap_cons, List.filterMap_append, hnone, hnone₃]
  · simp [List.filterMap_cons, hnone', hnone₃', -List.filterMap_eq_nil_iff, List.filterMap_append]
  · exact fun _ => hlimit ▸ hcount
  · exact hs₄.trans hlimit

/-- A limit without an offset takes over the one of an `OFFSET`, and a row count only where it has none. -/
theorem bounds_mergeLimit {c : Statement} {v : Limit.Value} {w : Option Limit.Value}
    (hc : c.limit.bind (·.offset) = none) (hw : w.isSome → c.limit.bind (·.rowCount) = none) :
    ((c.mergeLimit true ⟨some v, w, true⟩).limit.bind (·.rowCount)).toList =
        (c.limit.bind (·.rowCount)).toList ++ w.toList ∧
      (c.mergeLimit true ⟨some v, w, true⟩).limit.bind (·.offset) = some v := by
  rw [Statement.mergeLimit, Statement.limitOr]
  cases hl : c.limit with
  | none => cases w <;> exact ⟨rfl, rfl⟩
  | some l =>
    rw [hl] at hc hw
    obtain ⟨offset, rowCount, offsetFirst⟩ := l
    obtain rfl : offset = none := hc
    cases w with
    | none => cases rowCount <;> exact ⟨rfl, rfl⟩
    | some n =>
      obtain rfl : rowCount = none := hw rfl
      exact ⟨rfl, rfl⟩

theorem cuts_offsetFetch (hs : s.statement.limit.bind (·.offset) = none) : Cuts s offsetFetch fun _ ps s' =>
    Spells d Outline.offsetFetch ps ∧ Gains s.statement.limit ps s'.statement.limit := by
  have hrows : Traverses d (.word [.row, .rows]) expectRows := traverses_expectRows
  refine Passes.skipKeyword_bind (fun hk => Cuts.token (hk ▸ nofun) ?_) fun _ =>
    Cuts.pure ⟨.right .nothing, ⟨(List.append_nil _).symm, (List.append_nil _).symm⟩⟩
  refine (cuts_limitValue .offset).bind fun v ps s₁ hv => ?_
  obtain ⟨⟨t, ht, rfl⟩, hs₁⟩ := hv
  refine (hrows.unbounded (steady_expectRows (d := d)) rfl).bind fun _ qs s₂ hqs => ?_
  obtain ⟨hqs, ⟨hnone, hnone'⟩, hs₂⟩ := hqs
  refine cuts_recordLimit.bind fun _ rs s₃ hrs => ?_
  obtain ⟨rfl, hs₃⟩ := hrs
  refine (cuts_fetchClause (d := d)).bind fun fetch us s₄ hus => .modify rfl rfl ?_
  obtain ⟨hus, hfetch, hnone₄, hcount, hs₄⟩ := hus
  have hlimit : s₃.statement.limit = s.statement.limit := hs₃.trans (hs₂.trans hs₁)
  rw [hlimit] at hcount hs₄
  have hword : Atom.Fits d (.word [.offset]) (.token s.cursor.current) := Atom.fits_word (List.mem_singleton_self _) hk
  have hbound : Atom.Fits d (.bound .offset) (.bound .offset v.1 t) := ⟨rfl, ht⟩
  have hbounds := bounds_mergeLimit (c := s₄.statement) (v := v.1) (w := fetch) (by rw [hs₄, hs]) (by rwa [hs₄])
  obtain ⟨hrowCounts, hoffsets⟩ := hbounds
  rw [hs₄] at hrowCounts
  rw [List.append_nil, List.nil_append]
  refine ⟨.left (.seq (.atom hword) (.seq (.atom hbound) (.seq hqs hus))), ⟨?_, ?_⟩⟩
  · simp [hrowCounts, List.filterMap_cons, List.filterMap_append, hnone, hfetch]
  · simp [hoffsets, hs, List.filterMap_cons, List.filterMap_append, hnone', hnone₄]

end Grammar

end SelectRouting
