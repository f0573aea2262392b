import SelectRouting.Proofs.Trace.Session
/-!
# The places of the edits

Each edit replaces a token of its own, and is recorded before any later token is claimed by another.  So at every
point of a session the edits stand in the order of their tokens, one behind the other, and each of them is what its
token is (`edits_of_session`).
-/
namespace SelectRouting

namespace Edit

/-! ## Edits that come last -/

theorem insert_of_forall_le {e : Edit} {es : List Edit} (h : ∀ x ∈ es, x.start ≤ e.start) :
    insert e es = es ++ [e] := by
  induction es with
  | nil => rfl
  | cons x es ih =>
    obtain ⟨hx, hes⟩ := List.forall_mem_cons.1 h
    rw [insert, if_pos hx, ih hes]
    rfl

/-- Edits that are recorded in their order, none before those already there, stay in it. -/
theorem foldl_insert {es acc : List Edit} (hacc : ∀ a ∈ acc, ∀ e ∈ es, a.start ≤ e.start)
    (hes : es.Pairwise fun a b => a.start < b.start) : es.foldl (fun es e => e.insert es) acc = acc ++ es := by
  induction es generalizing acc with
  | nil => exact (List.append_nil acc).symm
  | cons e es ih =>
    obtain ⟨he, hes⟩ := List.pairwise_cons.1 hes
    have hlast : insert e acc = acc ++ [e] := insert_of_forall_le fun a ha => hacc a ha e List.mem_cons_self
    have hacc' : ∀ a ∈ acc ++ [e], ∀ x ∈ es, a.start ≤ x.start := by
      intro a ha x hx
      rcases List.mem_append.1 ha with ha | ha
      · exact hacc a ha x (List.mem_cons_of_mem e hx)
      · exact List.mem_singleton.1 ha ▸ Nat.le_of_lt (he x hx)
    rw [List.foldl_cons, hlast, ih hacc' hes, List.append_assoc]
    rfl

/-- The token that an edit replaces: a name of a logic table as it is written, or the number that the edit records. -/
def Replaces (rule : Rule) (source : String) (e : Edit) (t : Token) : Prop :=
  t.span.start = e.start ∧ match e with
    | .table _ written => written = t.span.slice source ∧
      ∃ name, t.name? = some name ∧ ∃ r ∈ rule.tables, Text.sameName r.name name = true
    | .rowCount _ v | .offset _ v => t.kind = .integer v ∧ t.Spells v

end Edit

/-! ## The edits of a run -/

namespace Event

/-- The edit of an event, with the token that it replaces. -/
def edited? (rule : Rule) : Event → Option (Edit × Token)
  | .name l ts => (l.tableToken? ts).bind fun t => (t.tableEdit? rule).map (·, t)
  | .owner o _ => (o.tableEdit? rule).map (·, o)
  | .limit e t _ => some (e, t)
  | _ => none

variable {rule : Rule}

theorem edits_eq (ev : Event) : ev.edits rule = (ev.edited? rule).toList.map Prod.fst := by
  cases ev with
  | name l ts =>
    rw [edits, edited?]
    cases l.tableToken? ts with
    | none => rfl
    | some t => cases h : t.tableEdit? rule <;> simp [h]
  | owner o dot =>
    rw [edits, edited?]
    cases h : o.tableEdit? rule <;> simp
  | _ => rfl

theorem tableToken?_mem {l : Leaf} {ts : List Token} {t : Token} (h : l.tableToken? ts = some t) : t ∈ ts := by
  unfold Leaf.tableToken? at h
  split at h <;> cases h <;> simp

theorem edited_sublist (ev : Event) : ((ev.edited? rule).toList.map Prod.snd).Sublist ev.tokens := by
  cases ev with
  | name l ts =>
    rw [edited?]
    cases ht : l.tableToken? ts with
    | none => exact List.nil_sublist _
    | some t =>
      cases he : t.tableEdit? rule with
      | none => simp [he]
      | some e => simpa [he, tokens] using tableToken?_mem ht
  | owner o dot =>
    rw [edited?]
    cases o.tableEdit? rule with
    | none => exact List.nil_sublist _
    | some e => exact (List.nil_sublist _).cons_cons o
  | limit e t us => exact (List.nil_sublist _).cons_cons t
  | _ => exact List.nil_sublist _

theorem replaces_of_tableEdit? {source : String} {t : Token} (ht : t ∈ Token.lex source) {e : Edit}
    (he : t.tableEdit? rule = some e) : e.Replaces rule source t := by
  unfold Token.tableEdit? at he
  split at he
  · next hany =>
    cases he
    obtain ⟨name, hname, hcontains⟩ := (Option.any_eq_true _ _).1 hany
    obtain ⟨r, hr⟩ := Option.isSome_iff_exists.1 hcontains
    unfold Rule.table? at hr
    have hsame := List.find?_some hr
    exact ⟨rfl, (Token.slice_of_mem_lex ht).symm, name, hname, r, List.mem_of_find?_eq_some hr, hsame⟩
  · cases he

theorem replaces_of_edited? {source : String} {ev : Event} (hev : ev.Sound)
    (htokens : ∀ t ∈ ev.tokens, t ∈ Token.lex source) {e : Edit} {t : Token} (h : ev.edited? rule = some (e, t)) :
    e.Replaces rule source t := by
  cases ev with
  | name l ts =>
    obtain ⟨t', ht', he⟩ := Option.bind_eq_some_iff.1 h
    obtain ⟨e', he', heq⟩ := Option.map_eq_some_iff.1 he
    cases heq
    exact replaces_of_tableEdit? (htokens _ (tableToken?_mem ht')) he'
  | owner o dot =>
    obtain ⟨e', he', heq⟩ := Option.map_eq_some_iff.1 h
    cases heq
    exact replaces_of_tableEdit? (htokens _ List.mem_cons_self) he'
  | limit e' t' us =>
    cases h
    obtain ⟨v, hv, hedit⟩ := hev
    have hspells := Token.spells_of_mem_lex (htokens _ List.mem_cons_self) hv
    rcases hedit with rfl | rfl
    · exact ⟨rfl, hv, hspells⟩
    · exact ⟨rfl, hv, hspells⟩
  | _ => cases h

/-- The edits of some events, with the tokens that they replace. -/
def edited (rule : Rule) (es : List Event) : List (Edit × Token) :=
  es.filterMap (edited? rule)

theorem edited_cons (ev : Event) (es : List Event) :
    edited rule (ev :: es) = (ev.edited? rule).toList ++ edited rule es := by
  rw [edited, List.filterMap_cons]
  cases ev.edited? rule <;> rfl

theorem map_fst_edited (es : List Event) : (edited rule es).map Prod.fst = es.flatMap (edits rule) := by
  induction es with
  | nil => rfl
  | cons ev es ih => rw [edited_cons, List.map_append, ih, List.flatMap_cons, edits_eq]

theorem map_snd_edited_sublist (es : List Event) : ((edited rule es).map Prod.snd).Sublist (passed es) := by
  induction es with
  | nil => exact .slnil
  | cons ev es ih =>
    rw [edited_cons, List.map_append, passed_cons]
    exact (edited_sublist ev).append ih

end Event

namespace Grammar

/-- The edits of a run replace tokens that it passes, each behind the one before. -/
theorem Run.edited {rule : Rule} {source : String} {s s' : State} {es : List Event} (h : Run rule s es s')
    (hs : s.cursor.tokens <:+ Token.lex source) :
    (∀ x ∈ Event.edited rule es, x.1.Replaces rule source x.2) ∧
      (es.flatMap (Event.edits rule)).Pairwise fun a b => a.start < b.start := by
  have hpassed : (Event.passed es).Sublist (Token.lex source) :=
    (h.tokens_eq ▸ List.sublist_append_left _ _ : (Event.passed es).Sublist s.cursor.tokens).trans hs.sublist
  have hreplaces : ∀ x ∈ Event.edited rule es, x.1.Replaces rule source x.2 := by
    intro x hx
    obtain ⟨ev, hev, hx⟩ := List.mem_filterMap.1 hx
    exact Event.replaces_of_edited? (h.sound ev hev)
      (fun t ht => hpassed.subset (List.mem_flatMap.2 ⟨ev, hev, ht⟩)) hx
  refine ⟨hreplaces, ?_⟩
  have hsublist : ((Event.edited rule es).map Prod.snd).Sublist (Token.lex source) :=
    (Event.map_snd_edited_sublist es).trans hpassed
  have hbefore := List.pairwise_map.1 ((Token.pairwise_before_lex source).sublist hsublist)
  rw [← Event.map_fst_edited]
  refine List.pairwise_map.2 (hbefore.imp_of_mem fun {x y} hx hy hxy => ?_)
  rw [← (hreplaces x hx).1, ← (hreplaces y hy).1]
  exact hxy.1

/-- At every point of a session, the edits stand one behind the other, each at the token that it replaces. -/
theorem edits_of_session (d : Dialect) (rule : Rule) (source : String) (calls : List Call) :
    let edits := (session d rule source calls).statement.edits
    (edits.Pairwise fun a b => a.start < b.start) ∧
    (edits.Pairwise fun a b => ∃ t ∈ Token.lex source, a.Replaces rule source t ∧
      a.start + Text.byteSize t.text.toList ≤ b.start) ∧
    ∀ e ∈ edits, ∃ t ∈ Token.lex source, e.Replaces rule source t := by
  intro edits
  obtain ⟨es, hrun⟩ := exists_run_session d rule source calls
  have htokens := hrun.tokens_eq
  rw [State.tokens_ofSource] at htokens
  have hsublist : ((Event.edited rule es).map Prod.snd).Sublist (Token.lex source) := by
    rw [htokens]
    exact (Event.map_snd_edited_sublist es).trans (List.sublist_append_left _ _)
  have hreplaces : ∀ x ∈ Event.edited rule es, x.2 ∈ Token.lex source ∧ x.1.Replaces rule source x.2 := by
    intro x hx
    obtain ⟨ev, hev, hx'⟩ := List.mem_filterMap.1 hx
    have hmem := hsublist.subset (List.mem_map_of_mem hx)
    refine ⟨hmem, Event.replaces_of_edited? (hrun.sound ev hev) (fun t ht => ?_) hx'⟩
    rw [htokens]
    exact List.mem_append_left _ (List.mem_flatMap.2 ⟨ev, hev, ht⟩)
  have hbefore : (Event.edited rule es).Pairwise fun x y => x.2.span.Before y.2.span := by
    have hspans := (Token.pairwise_before_lex source).sublist hsublist
    rwa [List.pairwise_map] at hspans
  have hstart : ((Event.edited rule es).map Prod.fst).Pairwise fun a b => a.start < b.start := by
    refine List.pairwise_map.2 (hbefore.imp_of_mem fun {x y} hx hy hxy => ?_)
    rw [← (hreplaces x hx).2.1, ← (hreplaces y hy).2.1]
    exact hxy.1
  -- Each edit is inserted behind all earlier ones, since its token is behind theirs.
  have hedits : edits = (Event.edited rule es).map Prod.fst := by
    rw [Event.map_fst_edited] at hstart ⊢
    exact hrun.edits_eq.trans (Edit.foldl_insert (List.forall_mem_nil _) hstart)
  rw [hedits]
  refine ⟨hstart, List.pairwise_map.2 (hbefore.imp_of_mem fun {x y} hx hy hxy => ?_), fun e he => ?_⟩
  · obtain ⟨hmem, hx⟩ := hreplaces x hx
    refine ⟨x.2, hmem, hx, ?_⟩
    rw [← hx.1, ← (hreplaces y hy).2.1, ← Token.stop_of_mem_lex hmem]
    exact hxy.2
  · obtain ⟨x, hx, rfl⟩ := List.mem_map.1 he
    exact ⟨x.2, hreplaces x hx⟩

end Grammar

end SelectRouting
