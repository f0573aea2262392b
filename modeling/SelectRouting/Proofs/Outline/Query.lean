import SelectRouting.Proofs.Outline.Select
import SelectRouting.Proofs.Prior.Marks
/-!
# Queries among pieces

Behind its first token an accepted text has a `SELECT` only inside a clause that is skipped: no other piece of an outline can
have one (`Outline.Spells.plain`).  A skipped clause begins with a keyword of its own, so where a parenthesis has a `SELECT`
behind it, both stand in one such clause (`Piece.exists_skipped`).
-/
namespace SelectRouting

/-! ## Skipped clauses -/

/-- A clause that a dialect does not look into, as one of its forms says. -/
def Token.SkippedClause (d : Dialect) (ts : List Token) : Prop :=
  ∃ f ∈ d.skippedForms, ∃ T, f.Derives T ∧ T.tokens = ts

/-- A clause that is skipped begins neither with a parenthesis nor with `SELECT`. -/
theorem Token.SkippedClause.begins {d : Dialect} {ts : List Token} (h : SkippedClause d ts) :
    ∃ t us, ts = t :: us ∧ t.kind ≠ .leftParen ∧ t.kind ≠ .keyword .select := by
  obtain ⟨f, hf, T, hT, rfl⟩ := h
  have hforms : ∀ f ∈ d.skippedForms, f.nullable = false ∧
      Opener.disjoint f.openers [.region, .word .select] = true := by
    cases d <;> decide
  obtain ⟨hnullable, hdisjoint⟩ := hforms f hf
  cases hts : T.tokens with
  | nil => cases hnullable.symm.trans (hT.nullable hts)
  | cons t us =>
    have hbegin := hT.begins (hts ▸ List.cons_ne_nil t us) []
    rw [hts, List.append_nil] at hbegin
    have hnot := Opener.not_begin_of_disjoint hdisjoint hbegin
    refine ⟨t, us, rfl, fun hk => hnot ⟨.region, List.mem_cons_self, t, rfl, hk⟩, fun hk => hnot ?_⟩
    exact ⟨.word .select, List.mem_cons_of_mem _ (List.mem_singleton_self _), t, rfl, hk⟩

/-! ## Pieces without a query -/

/-- A piece that is read without a `SELECT`, or a clause that is skipped. -/
def Piece.Plain (d : Dialect) : Piece → Prop
  | .skipped ts => Token.SkippedClause d ts
  | p => ∀ t ∈ p.tokens, t.kind ≠ .keyword .select

/-- An atom whose pieces are plain. -/
def Atom.plain : Atom → Bool
  | .word ks => !ks.contains .select
  | .sign k => !(Token.Kind.keyword .select).alike k
  | _ => true

theorem Atom.Fits.plain {d : Dialect} {a : Atom} {p : Piece} (h : a.Fits d p) (ha : a.plain = true) : p.Plain d := by
  cases p with
  | token t =>
    refine List.forall_mem_singleton.2 fun hk => ?_
    cases a with
    | word ks =>
      obtain ⟨k, hmem, hk'⟩ := h
      obtain rfl := Token.Kind.keyword.inj (hk.symm.trans hk')
      simp [Atom.plain, hmem] at ha
    | sign k =>
      have halike : t.kind.alike k = true := h
      rw [hk] at halike
      simp [Atom.plain, halike] at ha
    | name =>
      have hname : t.name?.isSome := h
      rw [Token.name?, hk] at hname
      cases hname
    | _ => exact h.elim
  | operand e ts =>
    cases a with
    | operand =>
      obtain ⟨prior, hwritten⟩ := h
      exact hwritten.ne_select
    | _ => exact h.elim
  | bound k v t =>
    refine List.forall_mem_singleton.2 fun hk => ?_
    cases a with
    | bound k' =>
      obtain ⟨-, hspelled⟩ := h
      cases v with
      | literal | parameter => exact nomatch hk.symm.trans hspelled
    | _ => exact h.elim
  | skipped ts =>
    cases a with
    | skipped f => exact ⟨f, h⟩
    | _ => exact h.elim

/-- All pieces behind the first token of a statement are plain. -/
theorem Outline.Spells.plain {d : Dialect} {ps : List Piece} (h : d.statement.Spells d ps) :
    ∃ t qs, ps = .token t :: qs ∧ t.kind = .keyword .select ∧ ∀ p ∈ qs, p.Plain d := by
  have hentry : d.entry.atoms.all Atom.plain = true := by cases d <;> decide +kernel
  have hclauses : (Outline.seq (.seq d.clauses (.optional (.sign .semicolon))) (.sign .eof)).atoms.all Atom.plain = true := by
    cases d <;> decide +kernel
  cases h with
  | @seq _ _ qs rs head tail =>
    cases head with
    | @atom _ p fits =>
      cases p with
      | token t =>
        obtain ⟨k, hk, ht⟩ := fits
        obtain rfl := List.mem_singleton.1 hk
        refine ⟨t, rs, rfl, ht, tail.forall_mem (fun a ha p hp => ?_) fun a ha p hp => ?_⟩
        · exact hp.plain (List.all_eq_true.1 hentry a ha)
        · exact hp.plain (List.all_eq_true.1 hclauses a ha)
      | _ => exact fits.elim

namespace Piece

variable {d : Dialect} {ps : List Piece} {i : Nat} {t : Token}

/-- A token of pieces is a token of one of them. -/
theorem exists_of_getElem? (h : (ps.flatMap tokens)[i]? = some t) : ∃ before p after k, ps = before ++ p :: after ∧
    i = (before.flatMap tokens).length + k ∧ p.tokens[k]? = some t := by
  induction ps generalizing i with
  | nil => cases h
  | cons p ps ih =>
    rw [List.flatMap_cons] at h
    by_cases hi : i < p.tokens.length
    · rw [List.getElem?_append_left hi] at h
      exact ⟨[], p, ps, i, rfl, (Nat.zero_add i).symm, h⟩
    · rw [List.getElem?_append_right (Nat.le_of_not_lt hi)] at h
      obtain ⟨before, q, after, k, rfl, hk, ht⟩ := ih h
      refine ⟨p :: before, q, after, k, rfl, ?_, ht⟩
      rw [List.flatMap_cons, List.length_append]
      omega

/-- Among plain pieces, a parenthesis and the `SELECT` behind it stand in one clause that is skipped. -/
theorem exists_skipped (hps : ∀ p ∈ ps, p.Plain d) {l w : Token} (hl : (ps.flatMap tokens)[i]? = some l)
    (hlk : l.kind = .leftParen) (hw : (ps.flatMap tokens)[i + 1]? = some w) (hwk : w.kind = .keyword .select) :
    ∃ before clause after, ps = before ++ .skipped clause :: after ∧ (before.flatMap tokens).length < i ∧
      i + 1 < (before.flatMap tokens).length + clause.length := by
  obtain ⟨before, p, after, k, rfl, hk, hwp⟩ := exists_of_getElem? hw
  have hp : p.Plain d := hps p (List.mem_append_right _ List.mem_cons_self)
  cases p with
  | token | operand | bound => exact absurd hwk (hp w (List.mem_of_getElem? hwp))
  | skipped clause =>
    obtain ⟨hlength, -⟩ := List.getElem?_eq_some_iff.1 hwp
    obtain ⟨u, us, rfl, hparen, hselect⟩ := Token.SkippedClause.begins hp
    -- Neither of the two is the first token of the clause.
    match k with
    | 0 =>
      obtain rfl := Option.some.inj hwp
      exact absurd hwk hselect
    | 1 =>
      obtain rfl : i = (before.flatMap tokens).length := Nat.succ.inj hk
      rw [List.flatMap_append, List.getElem?_append_right (Nat.le_refl _), Nat.sub_self] at hl
      obtain rfl := Option.some.inj hl
      exact absurd hlk hparen
    | k + 2 =>
      have hend : k + 2 < (u :: us).length := hlength
      exact ⟨before, u :: us, after, rfl, by omega, by omega⟩

end Piece

end SelectRouting
