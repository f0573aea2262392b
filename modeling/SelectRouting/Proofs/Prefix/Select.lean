import SelectRouting.Proofs.Prefix.From
import SelectRouting.Proofs.Prefix.Pagination
import SelectRouting.Proofs.Trace.Select
/-!
# Errors are located, and what is in front of them decides

All clauses settle their ends, and so does a whole statement (`settles_select`).  A text that is refused is therefore
refused at one of its tokens, and so is every text that agrees with it up to the second token behind that one
(`Statement.refused_of_parse`).  Two tokens are needed for a row count that is given twice; every other error takes one.
-/
namespace SelectRouting

/-! ## Whole statements -/

namespace Grammar

variable {d : Dialect} {rule : Rule} {n n' : Nat}

theorem settles_endOfStatement : Settles nowhere n n' endOfStatement endOfStatement := by
  intro s
  refine .look_bind (fun c c' h => ?_) ?_
  · rw [setOperator?, setOperator?, Cursor.keyword?, Cursor.keyword?, kind_of_alike h]
  · cases hk : setOperator? s.cursor with
    | some k =>
      obtain ⟨hkeyword, hmem⟩ := Option.filter_eq_some_iff.1 hk
      refine .unsupported fun hselect => ?_
      rw [Cursor.keyword?_of_kind hselect] at hkeyword
      obtain rfl := Option.some.inj hkeyword
      cases hmem
    | none =>
      have hskip : Settles nowhere n n' (skip .semicolon) (skip .semicolon) := .skip (by decide)
      refine hskip.bind (fun _ => .look_bind (fun _ _ => check_of_alike .eof) fun b => ?_) s
      cases b with
      | true => exact .pure
      | false => exact .unexpected

theorem settles_clauses : Settles nowhere n n' (clauses d rule) (clauses d rule) := by
  have hdistinct : Settles nowhere n n' (distinct d) (distinct d) := settles_distinct.mono fun _ h => h.elim
  cases d with
  | generic =>
    refine .bind hdistinct fun _ => .bind settles_selectList fun _ => .bind settles_fromClause fun _ => ?_
    refine .bind settles_whereClause fun _ => .bind settles_groupBy fun _ => ?_
    exact .bind settles_havingClause fun _ => settles_orderBy
  | oracle =>
    refine .bind hdistinct fun _ => .bind settles_selectList fun _ => .bind settles_fromClause fun _ => ?_
    refine .bind settles_whereClause fun _ => .bind settles_skipHierarchy fun _ => .bind settles_groupBy fun _ => ?_
    refine .bind settles_havingClause fun _ => .bind settles_skipModel fun _ => ?_
    exact .bind settles_orderBy fun _ => settles_skipForUpdate
  | sqlServer =>
    have htop : Settles nowhere n n' topClause topClause := settles_topClause.mono fun _ h => h.elim
    refine .bind hdistinct fun _ => .bind htop fun _ => .bind settles_selectList fun _ => ?_
    refine .bind settles_fromClause fun _ => .bind settles_whereClause fun _ => .bind settles_groupBy fun _ => ?_
    refine .bind settles_havingClause fun _ => .bind settles_orderBy fun _ => ?_
    exact .bind settles_offsetFetch fun _ => settles_skipForOutput

theorem settles_select : Settles nowhere n n' (select d rule) (select d rule) :=
  .andThen settles_expectKeyword fun _ => .bind settles_clauses fun _ => settles_endOfStatement

end Grammar

/-! ## Texts that agree -/

namespace Token

variable {ts us vs : List Token} {m : Nat}

/-- Two lists have the same tokens up to an index, or up to their common end. -/
def AgreeTo (m : Nat) (ts us : List Token) : Prop :=
  ∀ i ≤ m, ∀ t, ts[i]? = some t → us[i]? = some t

theorem agreeTo_of_take (h : ts.take (m + 1) = us.take (m + 1)) : AgreeTo m ts us := by
  intro i hi t ht
  rw [← List.getElem?_take_of_lt (Nat.lt_succ_of_le hi), ← h, List.getElem?_take_of_lt (Nat.lt_succ_of_le hi), ht]

/-- A list that agrees with another beyond some of its tokens begins with them. -/
theorem AgreeTo.exists_append (h : AgreeTo m (ts ++ vs) us) (hm : ts.length ≤ m + 1) : ∃ ws, us = ts ++ ws := by
  refine ⟨us.drop ts.length, ?_⟩
  refine List.ext_getElem? fun i => ?_
  by_cases hi : i < ts.length
  · have hts : (ts ++ vs)[i]? = some ts[i] := by rw [List.getElem?_append_left hi, List.getElem?_eq_getElem hi]
    rw [h i (by omega) _ hts, List.getElem?_append_left hi, List.getElem?_eq_getElem hi]
  · rw [List.getElem?_append_right (by omega), List.getElem?_drop]
    congr 1
    omega

/-- What completes some tokens once completes them never at once. -/
theorem Complete.ne_nil_of_append (h : Complete (ts ++ vs)) (hvs : vs ≠ []) (h' : Complete (ts ++ us)) : us ≠ [] := by
  induction ts with
  | nil =>
    rintro rfl
    exact h'
  | cons t ts ih =>
    rcases h with ⟨-, hnil⟩ | ⟨hne, h⟩
    · exact absurd (List.append_eq_nil_iff.1 hnil).2 hvs
    · rcases h' with ⟨heof, -⟩ | ⟨-, h'⟩
      · exact absurd heof hne
      · exact ih h h'

end Token

namespace Cursor

variable {b c u : Cursor} {ts ws : List Token}

theorem exists_reaches (hb : b.tokens = ts ++ ws) (hws : ws ≠ []) : ∃ b', Reaches b ts b' ∧ b'.tokens = ws := by
  cases ws with
  | nil => exact absurd rfl hws
  | cons w ws => exact ⟨⟨b.source, w, ws⟩, ⟨hb, rfl⟩, rfl⟩

/-- Where two lists agree as far as the token behind some others, the cursors behind these see the same. -/
theorem Reaches.exists_of_agreeTo (h : Reaches c ts u) (hc : Token.Complete c.tokens) (hb : Token.Complete b.tokens)
    (hagree : Token.AgreeTo (ts.length + 1) c.tokens b.tokens) :
    ∃ b', Reaches b ts b' ∧ b'.current = u.current ∧ b'.next = u.next := by
  rw [h.tokens] at hagree hc
  obtain ⟨ws, hws⟩ := hagree.exists_append (by omega)
  rw [hws] at hb
  obtain ⟨b', hb', rfl⟩ := exists_reaches hws (hc.ne_nil_of_append (List.cons_ne_nil _ _) hb)
  have hbehind : ∀ i ≤ 1, ∀ t, u.tokens[i]? = some t → b'.tokens[i]? = some t := by
    intro i hi t ht
    have hat := hagree (ts.length + i) (by omega) t
    rw [hws, List.getElem?_append_right (by omega), List.getElem?_append_right (by omega), Nat.add_sub_cancel_left] at hat
    exact hat ht
  have hcurrent : b'.current = u.current := Option.some.inj (hbehind 0 (by omega) u.current rfl)
  refine ⟨b', hb', hcurrent, ?_⟩
  by_cases hk : u.kind = .eof
  · -- Behind the end of the input there is nothing, in both texts.
    have hkb : b'.kind = .eof := (congrArg Token.kind hcurrent).trans hk
    have hu := tokens_of_eof (h.complete (h.tokens ▸ hc)) hk
    have hb' := tokens_of_eof (hb'.complete (hws ▸ hb)) hkb
    rw [next, next, (List.cons.inj hu).2, (List.cons.inj hb').2]
    exact hcurrent
  · have hadvance := tokens_advance (h.complete (h.tokens ▸ hc)) hk
    have hnext : b'.tokens[1]? = some u.next :=
      hbehind 1 (Nat.le_refl 1) u.next (by rw [hadvance, ← current_advance hk]; rfl)
    cases hrest : b'.rest with
    | nil =>
      rw [Cursor.tokens, hrest] at hnext
      cases hnext
    | cons w ws =>
      rw [Cursor.tokens, hrest] at hnext
      rw [next, hrest]
      exact Option.some.inj hnext

end Cursor

/-! ## What is reported -/

namespace Grammar

variable {opened : Prop} {c c' : Cursor} {e : ParseError} {ts : List Token}

/-- An error rests on the current token and the one behind it. -/
theorem rests_of_next (hcurrent : c'.current = c.current) (hnext : c'.next = c.next) : Rests e c c' := by
  have halike := Cursor.Alike.of_next hcurrent hnext
  unfold Rests
  cases e.cause with
  | unexpected expected found => exact halike
  | unsupported construct =>
    refine ⟨halike, ?_⟩
    rw [Cursor.atSubquery, Cursor.atSubquery, Cursor.nextIsKeyword, Cursor.nextIsKeyword, hnext, kind_of_alike halike]
  | invalid message => exact fun _ => halike

/-- The token at which an error lies: the one where the parser has failed, or the one three tokens in front. -/
theorem Located.exists_token (h : Located opened c e ts) : ∃ k t, (ts ++ c.tokens)[k]? = some t ∧ e.span = t.span ∧
    (∀ kind, e.found? = some kind → kind = t.kind) ∧ (e.expected?.isSome = e.found?.isSome) ∧
    (e.isUnsupported = true → e.expected? = none ∧ e.found? = none) ∧
    (k = ts.length ∨ (ts.length = k + 3 ∧ ∀ c', Rests e c c')) := by
  have hhere : (ts ++ c.tokens)[ts.length]? = some c.current := by
    rw [List.getElem?_append_right (Nat.le_refl _), Nat.sub_self]
    rfl
  cases h with
  | unexpected expected =>
    exact ⟨_, _, hhere, rfl, fun _ h => (Option.some.inj h).symm, rfl, nofun, .inl rfl⟩
  | unsupported construct => exact ⟨_, _, hhere, rfl, nofun, rfl, fun _ => ⟨rfl, rfl⟩, .inl rfl⟩
  | negative => exact ⟨_, _, hhere, rfl, nofun, rfl, nofun, .inl rfl⟩
  | @fetched v x y us value =>
    refine ⟨us.length, v, ?_, rfl, nofun, rfl, nofun, .inr ⟨by simp, fun _ h => absurd h (by decide)⟩⟩
    rw [List.append_assoc, List.getElem?_append_right (Nat.le_refl _), Nat.sub_self]
    rfl

end Grammar

namespace Statement

open Token (AgreeTo)

variable {d : Dialect} {rule : Rule} {source source' : String} {e : ParseError}

/-- The error of a text that is refused is that of its whole run. -/
theorem exists_select_of_refused (h : parse d rule source = .error e) :
    ∃ s, Grammar.select d rule (.ofSource source) = .error e s := by
  unfold parse at h
  cases hr : Grammar.select d rule (.ofSource source) with
  | ok a s =>
    rw [hr] at h
    cases h
  | error e' s =>
    rw [hr] at h
    cases h
    exact ⟨s, rfl⟩

theorem parse_of_select {s : Grammar.State} (h : Grammar.select d rule (.ofSource source) = .error e s) :
    parse d rule source = .error e := by
  unfold parse
  rw [h]

/-- A text that is refused is read as far as a place where the error lies, and every text is refused with this error that
begins with the tokens read and has behind them what the error rests on. -/
theorem exists_located_of_refused (h : parse d rule source = .error e) :
    ∃ ts c, Cursor.Reaches (.ofSource source) ts c ∧ Grammar.Located True c e ts ∧
      ∀ source' b', Cursor.Reaches (.ofSource source') ts b' → Grammar.Rests e c b' →
        parse d rule source' = .error e := by
  obtain ⟨s, hr⟩ := exists_select_of_refused h
  obtain ⟨ts, hts, hlocated, hall⟩ :=
    Grammar.Settles.of_error (fun _ _ => Grammar.settles_select) (Grammar.State.complete_ofSource source) hr
  refine ⟨ts, s.cursor, hts, hlocated, fun source' b' hb' hrests => ?_⟩
  obtain ⟨t', ht'⟩ := hall _ b' (Grammar.State.complete_ofSource source') hb' hrests
  exact parse_of_select ht'

/-- A text that is refused is refused at one of its tokens.  What was found is the kind of that token, something is
expected just where something is found, and neither where a construct is rejected; and the error is the same for every
text that agrees as far as the second token behind. -/
theorem refused_of_parse (h : parse d rule source = .error e) :
    ∃ k t, (Token.lex source)[k]? = some t ∧ e.span = t.span ∧ (∀ kind, e.found? = some kind → kind = t.kind) ∧
      (e.expected?.isSome = e.found?.isSome) ∧ (e.isUnsupported = true → e.expected? = none ∧ e.found? = none) ∧
      ∀ source', AgreeTo (k + 2) (Token.lex source) (Token.lex source') → parse d rule source' = .error e := by
  have hcomplete := Grammar.State.complete_ofSource
  obtain ⟨ts, c, hts, hlocated, hsame⟩ := exists_located_of_refused h
  have hlex : Token.lex source = ts ++ c.tokens := (Cursor.tokens_ofSource source).symm.trans hts.tokens
  rw [hlex]
  obtain ⟨k, t, hk, hspan, hfound, hexpected, hunsupported, hplace⟩ := hlocated.exists_token
  refine ⟨k, t, hk, hspan, hfound, hexpected, hunsupported, fun source' hagree => ?_⟩
  have hlex' := Cursor.tokens_ofSource source'
  rcases hplace with rfl | ⟨hlength, hrests⟩
  · have hnear : AgreeTo (ts.length + 1) (Cursor.ofSource source).tokens (Cursor.ofSource source').tokens := by
      rw [hts.tokens, hlex']
      exact fun i hi => hagree i (by omega)
    obtain ⟨b', hb', hcurrent, hnext⟩ := hts.exists_of_agreeTo (hcomplete source) (hcomplete source') hnear
    exact hsame source' b' hb' (Grammar.rests_of_next hcurrent hnext)
  · obtain ⟨ws, hws⟩ := hagree.exists_append (by omega)
    have hne : ws ≠ [] := Token.Complete.ne_nil_of_append (hlex ▸ Token.complete_lex source) (List.cons_ne_nil _ _)
      (hws ▸ Token.complete_lex source')
    obtain ⟨b', hb', -⟩ := Cursor.exists_reaches (hlex'.trans hws) hne
    exact hsame source' b' hb' (hrests b')

/-- A text that gives its row count twice; the second one is its fifteenth token. -/
def doubledText : String :=
  "SELECT TOP 1 a FROM t ORDER BY a OFFSET 2 ROWS FETCH NEXT 3 ROWS ONLY"

/-- It is refused in the same way when it goes on behind the two words that follow. -/
theorem refused_of_parse_doubled : ∃ e, parse .sqlServer .empty doubledText = .error e ∧
    e.span = ⟨58, 59⟩ ∧ parse .sqlServer .empty (doubledText ++ " FOR ?") = .error e := by
  have hplace : ∀ i < (Token.lex doubledText).length,
      (Token.lex doubledText)[i]?.map (·.span) = some ⟨58, 59⟩ → i = 14 := by
    rw [Token.lex_of_chars doubledText rfl]
    decide +kernel
  have hr : parse .sqlServer .empty doubledText =
      .error ⟨.invalid "Row count specified by both TOP and FETCH", ⟨58, 59⟩⟩ := error_of_parse rfl (by decide +kernel)
  obtain ⟨k, t, hk, ht, -, -, -, hsame⟩ := refused_of_parse hr
  have hlt : k < (Token.lex doubledText).length := (List.getElem?_eq_some_iff.1 hk).1
  obtain rfl := hplace k hlt (by rw [hk, Option.map_some, ← ht])
  refine ⟨_, hr, rfl, hsame _ (Token.agreeTo_of_take ?_)⟩
  rw [Token.lex_of_chars doubledText rfl, Token.lex_of_chars (doubledText ++ " FOR ?") (String.ofList_append ..).symm]
  decide +kernel

end Statement

end SelectRouting
