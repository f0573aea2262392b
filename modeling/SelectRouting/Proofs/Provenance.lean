import SelectRouting.Proofs.Tables
import SelectRouting.Proofs.Token.Boundary
import Mathlib.Data.List.Flatten
/-!
# Where the leaves of a statement stand

The tree keeps a place for each table, column and parameter.  It reaches from the first to the last of the tokens that the
leaf is written with, and the leaves start one behind the other in the order in which they are written; so the tables of a
statement come in the order of the text (`stands_in_order`).
-/
namespace SelectRouting

namespace Token

variable {source : String} {t : Token}

/-! ## Characters of a parameter -/

theorem quoted_kind_ne_question (q : Quote) (cs : List Char) : (quoted q cs).kind ≠ .question := by
  unfold quoted
  split
  · cases q <;> exact nofun
  · exact nofun

theorem wordKind_ne_question (word : List Char) : wordKind word ≠ .question := by
  unfold wordKind
  split <;> exact nofun

theorem eq_of_signKind {c : Char} (h : signKind c = .question) : c = '?' := by
  unfold signKind sign? at h
  split at h <;> first | rfl | cases h

theorem doubleSign?_ne_question (c d : Char) : doubleSign? c d ≠ some .question := by
  unfold doubleSign?
  split <;> exact nofun

theorem sign_of_question {c : Char} {cs : List Char} (h : (sign c cs).kind = .question) : (sign c cs).text = ['?'] := by
  unfold sign at h ⊢
  split at h
  · next d rest =>
    cases hd : doubleSign? c d with
    | none =>
      rw [hd] at h
      simp [eq_of_signKind h]
    | some k =>
      rw [hd] at h
      cases show k = .question from h
      exact absurd hd (doubleSign?_ne_question c d)
  · rw [eq_of_signKind h]

/-- Only a question mark is read as a parameter. -/
theorem lexeme_of_question {c : Char} {cs : List Char} (h : (lexeme c cs).kind = .question) :
    (lexeme c cs).text = ['?'] := by
  unfold lexeme at h ⊢
  split at h
  · exact absurd h (quoted_kind_ne_question _ cs)
  · split at h
    · exact (h ▸ numeric_numeralKind _ : Kind.Numeric .question).elim
    · split at h
      · exact absurd h (wordKind_ne_question _)
      · next hdigit hword => rw [if_neg hdigit, if_neg hword, sign_of_question h]

theorem slice_of_question (ht : t ∈ lex source) (h : t.kind = .question) : t.span.slice source = "?" := by
  rw [slice_of_mem_lex ht]
  rcases exists_lexeme_of_mem_lexFrom 0 source.toList t ht with heof | ⟨c, cs, hkind, htext⟩
  · rw [heof] at h
    cases h
  · rw [htext, lexeme_of_question (hkind ▸ h)]

/-! ## Names -/

/-- A token is read as a name: a bare or quoted one without its quotes, or as it stands in the text a keyword that may be a
name. -/
def Names (source : String) (t : Token) (name : String) : Prop :=
  t.kind = .identifier name ∨ ∃ k, t.kind = .keyword k ∧ k.reserved = false ∧ t.span.slice source = name

theorem names_of_name? (ht : t ∈ lex source) {name : String} (h : t.name? = some name) : t.Names source name := by
  rw [Names, slice_of_mem_lex ht]
  exact name?_eq_some.1 h

end Token

/-! ## Leaves -/

namespace Leaf

/-- The place that the tree keeps; a star and a bound have none. -/
def span? : Leaf → Option Span
  | .placeholder _ span | .column _ _ span | .table _ _ span => some span
  | .bound _ | .star _ => none

/-- The place of a leaf is that of its tokens. -/
def StandsIn (source : String) : Leaf → Prop
  | .placeholder _ span => (∃ t ∈ Token.lex source, t.kind = .question ∧ t.span = span) ∧ span.slice source = "?"
  | .column none name span | .table _ name span => ∃ t ∈ Token.lex source, t.Names source name ∧ t.span = span
  | .column (some owner) name span => ∃ o dot t, [o, dot, t] <:+: Token.lex source ∧ o.Names source owner ∧
      dot.kind = .dot ∧ t.Names source name ∧ span = ⟨o.span.start, t.span.stop⟩
  | .bound _ | .star _ => True

theorem standsIn_of_spelledBy {source : String} {l : Leaf} {ts : List Token} (h : l.SpelledBy ts)
    (hts : ts <:+: Token.lex source) : l.StandsIn source := by
  unfold SpelledBy at h
  split at h
  case h_1 | h_2 =>
    have ht := hts.subset (List.mem_singleton.2 rfl)
    exact ⟨_, ht, Token.names_of_name? ht h.1, h.2.symm⟩
  · next owner name span o dot t =>
    obtain ⟨ho, hdot, ht, hspan⟩ := h
    exact ⟨o, dot, t, hts, Token.names_of_name? (hts.subset (by simp)) ho, hdot,
      Token.names_of_name? (hts.subset (by simp)) ht, hspan⟩
  · next schema name span o dot t =>
    obtain ⟨-, -, hname, hspan⟩ := h
    have ht : t ∈ Token.lex source := hts.subset (by simp)
    exact ⟨t, ht, Token.names_of_name? ht hname, hspan.symm⟩
  · trivial
  · trivial
  · exact h.elim

/-- A leaf starts where one of its tokens starts. -/
theorem exists_start_of_spelledBy {l : Leaf} {ts : List Token} (h : l.SpelledBy ts) :
    ∀ span ∈ l.span?, ∃ t ∈ ts, span.start = t.span.start := by
  unfold SpelledBy at h
  split at h
  · next name span t =>
    rintro _ ⟨⟩
    exact ⟨t, List.mem_singleton_self t, by rw [h.2]⟩
  · next name span t =>
    rintro _ ⟨⟩
    exact ⟨t, List.mem_singleton_self t, by rw [h.2]⟩
  · next o dot t =>
    rintro _ ⟨⟩
    exact ⟨o, List.mem_cons_self, by rw [h.2.2.2]⟩
  · next o dot t =>
    rintro _ ⟨⟩
    exact ⟨t, by simp, by rw [h.2.2.2]⟩
  · rintro _ ⟨⟩
  · rintro _ ⟨⟩
  · exact h.elim

end Leaf

namespace Event

variable {source : String} {es : List Event}

theorem standsIn_of_mem_leaves (hsound : ∀ ev ∈ es, ev.Sound) (hes : passed es <:+: Token.lex source) :
    ∀ l ∈ leaves es, l.StandsIn source := by
  intro l hl
  obtain ⟨ev, hev, hl⟩ := List.mem_filterMap.1 hl
  have htokens := (tokens_infix_passed hev).trans hes
  cases ev with
  | parameter l' t =>
    cases hl
    obtain ⟨hk, i, rfl | rfl⟩ := hsound _ hev
    · have ht : t ∈ Token.lex source := htokens.subset (List.mem_singleton_self t)
      exact ⟨⟨t, ht, hk, rfl⟩, Token.slice_of_question ht hk⟩
    · trivial
  | name l' ts =>
    cases hl
    exact Leaf.standsIn_of_spelledBy (hsound _ hev) htokens
  | _ => cases hl

/-- The leaves of a run start where some of its tokens start, in the same order. -/
theorem starts_sublist (hsound : ∀ ev ∈ es, ev.Sound) :
    (((leaves es).filterMap Leaf.span?).map Span.start).Sublist ((passed es).map (·.span.start)) := by
  induction es with
  | nil => exact .slnil
  | cons ev es ih =>
    obtain ⟨hev, hsound⟩ := List.forall_mem_cons.1 hsound
    rw [leaves_cons, List.filterMap_append, List.map_append, passed_cons, List.map_append]
    refine List.Sublist.append ?_ (ih hsound)
    cases ev with
    | parameter l t =>
      obtain ⟨-, i, rfl | rfl⟩ := hev
      · exact .refl _
      · exact List.nil_sublist _
    | name l ts =>
      have hstart := Leaf.exists_start_of_spelledBy hev
      cases hspan : l.span? with
      | none => simp [leaf?, hspan]
      | some span =>
        obtain ⟨t, ht, hspan'⟩ := hstart span hspan
        simpa [leaf?, hspan, tokens] using ⟨t, ht, hspan'.symm⟩
    | _ => exact List.nil_sublist _

end Event

/-! ## Whole texts -/

/-- The names of the tables with their places, left to right. -/
def TableRef.places : TableRef → List (String × Span)
  | .table _ name _ span => [(name, span)]
  | .join _ left right _ _ => left.places ++ right.places

theorem TableRef.map_fst_places : ∀ r : TableRef, r.places.map Prod.fst = r.tables.map Prod.fst
  | .table .. => rfl
  | .join _ left right _ _ => by
    rw [places, tables, List.map_append, List.map_append, map_fst_places left, map_fst_places right]

/-- The tables are among the leaves. -/
theorem TableRef.places_sublist : ∀ r : TableRef, (r.places.map Prod.snd).Sublist (r.leaves.filterMap Leaf.span?)
  | .table .. => .refl _
  | .join _ left right _ _ => by
    rw [places, leaves, List.map_append, List.filterMap_append, List.filterMap_append]
    exact (places_sublist left).append ((places_sublist right).trans (List.sublist_append_left _ _))

theorem TableRef.exists_leaf_of_mem_places {p : String × Span} : ∀ {r : TableRef}, p ∈ r.places →
    ∃ schema, Leaf.table schema p.1 p.2 ∈ r.leaves
  | .table schema _ _ _, h => by
    obtain rfl := List.mem_singleton.1 h
    exact ⟨schema, List.mem_singleton_self _⟩
  | .join _ _ _ _ _, h => by
    rcases List.mem_append.1 h with h | h
    · obtain ⟨schema, h⟩ := exists_leaf_of_mem_places h
      exact ⟨schema, List.mem_append_left _ h⟩
    · obtain ⟨schema, h⟩ := exists_leaf_of_mem_places h
      exact ⟨schema, List.mem_append_right _ (List.mem_append_left _ h)⟩

namespace Statement

variable {d : Dialect} {rule : Rule} {source : String} {s : Statement}

theorem clauseLeaves_sublist (s : Statement) (top : Bool) : s.clauseLeaves.Sublist (s.leaves top) := by
  unfold leaves
  split
  · exact (List.sublist_append_left _ _).trans (List.sublist_append_right _ _)
  · exact List.sublist_append_left _ _

/-- The names of the tables of `FROM` with their places, left to right. -/
def tablePlaces (s : Statement) : List (String × Span) :=
  s.sources.flatMap TableRef.places

theorem map_fst_tablePlaces (s : Statement) : s.tablePlaces.map Prod.fst = s.tables.map Prod.fst := by
  simp only [tablePlaces, tables, List.map_flatMap, TableRef.map_fst_places]

theorem tablePlaces_sublist (s : Statement) :
    (s.tablePlaces.map Prod.snd).Sublist (s.clauseLeaves.filterMap Leaf.span?) := by
  have hsources : (s.tablePlaces.map Prod.snd).Sublist ((s.sources.flatMap TableRef.leaves).filterMap Leaf.span?) := by
    rw [tablePlaces, List.map_flatMap, List.filterMap_flatMap]
    exact List.Sublist.flatMap_right _ fun r _ => r.places_sublist
  refine hsources.trans (List.Sublist.filterMap _ ?_)
  exact (List.sublist_append_left _ _).trans (List.sublist_append_right _ _)

theorem exists_leaf_of_mem_tablePlaces {p : String × Span} (h : p ∈ s.tablePlaces) :
    ∃ schema, Leaf.table schema p.1 p.2 ∈ s.clauseLeaves := by
  obtain ⟨r, hr, hp⟩ := List.mem_flatMap.1 h
  obtain ⟨schema, hleaf⟩ := r.exists_leaf_of_mem_places hp
  exact ⟨schema, List.mem_append_right _ (List.mem_append_left _ (List.mem_flatMap.2 ⟨r, hr, hleaf⟩))⟩

/-- The tables, columns and parameters of an accepted statement have the places of their tokens, and start one behind the
other in the order in which they are written; so `FROM` lists its tables in the order of the text. -/
theorem stands_in_order (h : parse d rule source = .ok s) :
    (∀ l ∈ s.clauseLeaves, l.StandsIn source) ∧
    ((s.clauseLeaves.filterMap Leaf.span?).Pairwise fun a b => a.start < b.start) ∧
    s.tables.map Prod.fst = s.tablePlaces.map Prod.fst ∧
    (∀ p ∈ s.tablePlaces, ∃ t ∈ Token.lex source, t.Names source p.1 ∧ t.span = p.2) ∧
    s.tablePlaces.Pairwise fun a b => a.2.start < b.2.start := by
  obtain ⟨es, h⟩ := readFrom_of_parse h
  have hleaves : s.clauseLeaves.Sublist (Event.leaves es) := (s.clauseLeaves_sublist _).trans h.read.sublist
  have hstands : ∀ l ∈ s.clauseLeaves, l.StandsIn source := fun l hl =>
    Event.standsIn_of_mem_leaves h.sound h.passed_infix l (hleaves.subset hl)
  have hstarts : ((Event.passed es).map (·.span.start)).Pairwise (· < ·) :=
    List.pairwise_map.2 (((Token.pairwise_before_lex source).sublist h.passed_infix.sublist).imp fun hab => hab.1)
  have hordered : (s.clauseLeaves.filterMap Leaf.span?).Pairwise fun a b => a.start < b.start :=
    List.pairwise_map.1 (hstarts.sublist (((hleaves.filterMap _).map _).trans (Event.starts_sublist h.sound)))
  refine ⟨hstands, hordered, s.map_fst_tablePlaces.symm, fun p hp => ?_, ?_⟩
  · obtain ⟨schema, hleaf⟩ := exists_leaf_of_mem_tablePlaces hp
    exact hstands _ hleaf
  · have htables := hordered.sublist s.tablePlaces_sublist
    rw [List.pairwise_map] at htables
    exact htables

/-- A text with its names in every place, of which some are quoted, one is a keyword and some have other signs between
their tokens. -/
def placedText : String :=
  "SELECT x . k, COUNT(\x22n\x22) FROM s./**/\x22a\x22\x22b\x22 x JOIN [c] ON x.k\n= ?, Type WHERE Type.row IN (?, 1)"

/-- Its leaves, and where they stand. -/
def placedLeaves : List Leaf :=
  [.column (some "x") "k" ⟨7, 12⟩, .column none "n" ⟨20, 23⟩, .table (some "s") "a\x22b" ⟨36, 42⟩, .table none "c" ⟨50, 53⟩,
    .column (some "x") "k" ⟨57, 60⟩, .placeholder 0 ⟨63, 64⟩, .table none "Type" ⟨66, 70⟩,
    .column (some "Type") "row" ⟨77, 85⟩, .placeholder 1 ⟨90, 91⟩]

theorem stands_in_order_placedText : ∃ s, parse .generic .empty placedText = .ok s ∧
    s.tables.map Prod.fst = ["a\x22b", "c", "Type"] ∧ s.clauseLeaves = placedLeaves ∧
      (∀ l ∈ placedLeaves, l.StandsIn placedText) ∧
        (placedLeaves.filterMap Leaf.span?).Pairwise fun a b => a.start < b.start := by
  refine exists_of_parse (fun s => (s.tables.map Prod.fst, s.clauseLeaves)) (["a\x22b", "c", "Type"], placedLeaves)
    rfl (by decide +kernel) fun s hs hrun => ?_
  obtain ⟨htables, hleaves⟩ := Prod.mk.inj hrun
  obtain ⟨hstands, hordered, -⟩ := stands_in_order hs
  rw [hleaves] at hstands hordered
  exact ⟨htables, hleaves, hstands, hordered⟩

end Statement

end SelectRouting
