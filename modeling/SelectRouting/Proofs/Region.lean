import SelectRouting.Proofs.Prefix.Rejection
import SelectRouting.Proofs.Token.Region
/-!
# Skipping a region in parentheses

A region is skipped up to the parenthesis that closes it, whatever stands inside (`skipRegion_cases`); where that is, the
depth of parentheses says (`skipRegion_exact`).
-/
namespace SelectRouting.Grammar

open Cursor (Reaches)
open Token (Balanced ClosesAt depth tally)

section
variable {s : State}

theorem skipRegion_of_leftParen (hk : s.cursor.kind = .leftParen) :
    skipRegion s = restOfRegion s.cursor.span s.advanced := by
  rw [skipRegion_eq]
  exact bind_of_ok (expect_of_kind hk rfl) _

theorem skipRegion_of_ne (hk : s.cursor.kind ≠ .leftParen) :
    skipRegion s = .error ⟨.unexpected "LeftParen" s.cursor.kind, s.cursor.span⟩ s := by
  have hnone : placeIf (·.kind.alike .leftParen) s.cursor.current = none :=
    if_neg fun halike => hk (Token.Kind.eq_of_alike halike trivial)
  have hexpect : expect .leftParen s = .error ⟨.unexpected "LeftParen" s.cursor.kind, s.cursor.span⟩ s := by
    rw [demands_expect, hnone]
    rfl
  rw [skipRegion_eq]
  exact bind_of_error hexpect _

/-- Behind an opening parenthesis: the place where the region is closed, or the end of the input if it is not. -/
theorem leaveRegion_of_complete {c : Cursor} (hc : Token.Complete c.tokens) :
    (∃ inner close c', Balanced inner ∧ close.kind = .rightParen ∧ Reaches c (inner ++ [close]) c' ∧
      c.leaveRegion = (some close, c')) ∨
    ((∀ inner close after, c.tokens = inner ++ close :: after → Balanced inner → close.kind ≠ .rightParen) ∧
      ∃ ts c', Reaches c ts c' ∧ c'.kind = .eof ∧ c.leaveRegion = (none, c')) := by
  obtain ⟨hsource, ⟨inner, close, hsome, hclose, hinside, htokens⟩ | ⟨hnone, hclosing, heof, hlast, ts, htokens⟩⟩ :=
    Cursor.leaveRegion_cases hc
  · refine .inl ⟨inner, close, c.leaveRegion.2, hinside.leads.1.balanced, hclose, ⟨?_, hsource.symm⟩, Prod.ext hsome rfl⟩
    rw [List.append_assoc]
    exact htokens
  · refine .inr ⟨fun inner close after hts hinner hclose => ?_, ts, c.leaveRegion.2, ⟨?_, hsource.symm⟩, heof,
      Prod.ext hnone rfl⟩
    · have hne : ∀ t ∈ inner, t.kind ≠ .eof := (hts ▸ hc).ne_eof (List.cons_ne_nil _ _)
      rw [hts, Cursor.closing?_of_leads hclose (.of_balanced hinner) hne] at hclosing
      cases hclosing
    · rwa [hlast]

/-- What skipping a region comes to: behind the parenthesis that closes it, at the end of the input if there is none, and
where it stands if no region begins there. -/
theorem skipRegion_cases (hs : Token.Complete s.cursor.tokens) :
    (s.cursor.kind = .leftParen ∧ ∃ inner close c, Balanced inner ∧ close.kind = .rightParen ∧
      Reaches s.cursor (s.cursor.current :: (inner ++ [close])) c ∧
      skipRegion s = .ok ⟨s.cursor.span.start, close.span.stop⟩ (s.moved c)) ∨
    (s.cursor.kind = .leftParen ∧
      (∀ inner close after, s.cursor.rest = inner ++ close :: after → Balanced inner → close.kind ≠ .rightParen) ∧
      ∃ ts c, Reaches s.cursor ts c ∧ c.kind = .eof ∧
        skipRegion s = .error ⟨.unexpected "')'" .eof, c.span⟩ (s.moved c)) ∨
    (s.cursor.kind ≠ .leftParen ∧
      skipRegion s = .error ⟨.unexpected "LeftParen" s.cursor.kind, s.cursor.span⟩ s) := by
  by_cases hk : s.cursor.kind = .leftParen
  · have hstep : Reaches s.cursor [s.cursor.current] s.cursor.advance := .advance hs (hk ▸ nofun)
    have hrest : s.cursor.rest = s.cursor.advance.tokens := (List.cons.inj hstep.tokens).2
    have hcomplete := hstep.complete hs
    have hrun := (skipRegion_of_leftParen hk).trans (restOfRegion_apply s.cursor.span s.advanced)
    rcases leaveRegion_of_complete hcomplete with
      ⟨inner, close, c, hinner, hclose, hreach, hleave⟩ | ⟨hopen, ts, c, hreach, heof, hleave⟩
    · refine .inl ⟨hk, inner, close, c, hinner, hclose, hstep.trans hreach, ?_⟩
      rw [hrun, show s.advanced.cursor.leaveRegion = _ from hleave]
      rfl
    · rw [hrest]
      refine .inr (.inl ⟨hk, hopen, _, c, hstep.trans hreach, heof, ?_⟩)
      rw [hrun, show s.advanced.cursor.leaveRegion = _ from hleave, ← heof]
      rfl
  · exact .inr (.inr ⟨hk, skipRegion_of_ne hk⟩)

theorem rest_of_region {c c' : Cursor} {inner : List Token} {close : Token}
    (h : Reaches c (c.current :: (inner ++ [close])) c') : c.rest = inner ++ close :: c'.tokens :=
  (List.cons.inj h.tokens).2.trans (List.append_cons inner close c'.tokens).symm

theorem skipRegion_of_closesAt (hs : Token.Complete s.cursor.tokens) (hk : s.cursor.kind = .leftParen) {i : Nat}
    (hcloses : ClosesAt s.cursor.tokens i) : ∃ close c, s.cursor.tokens[i]? = some close ∧
      c.source = s.cursor.source ∧ c.tokens = s.cursor.tokens.drop (i + 1) ∧
      skipRegion s = .ok ⟨s.cursor.span.start, close.span.stop⟩ (s.moved c) := by
  rcases skipRegion_cases hs with ⟨-, inner, close, c, hinner, hclose, hreach, hrun⟩ | ⟨-, hopen, -⟩ | ⟨hne, -⟩
  · have hrest := rest_of_region hreach
    obtain rfl := hcloses.unique ((Token.closesAt_iff hk).2 ⟨inner, close, c.tokens, hrest, rfl, hinner, hclose⟩)
    refine ⟨close, c, ?_, hreach.source.symm, ?_, hrun⟩
    · rw [Cursor.tokens, hrest]
      simp
    · rw [show s.cursor.tokens = s.cursor.current :: (inner ++ close :: c.tokens) from congrArg _ hrest,
        List.drop_succ_cons, List.drop_length_add_append]
      rfl
  · obtain ⟨inner, close, after, hrest, -, hinner, hclose⟩ := (Token.closesAt_iff hk).1 hcloses
    exact absurd hclose (hopen inner close after hrest hinner)
  · exact absurd hk hne

theorem skipRegion_of_open (hs : Token.Complete s.cursor.tokens) (hk : s.cursor.kind = .leftParen)
    (hopen : ∀ i, ¬ ClosesAt s.cursor.tokens i) : ∃ c, c.source = s.cursor.source ∧ c.kind = .eof ∧
      c.tokens = [c.current] ∧ s.cursor.tokens.getLast? = some c.current ∧
      skipRegion s = .error ⟨.unexpected "')'" .eof, c.span⟩ (s.moved c) := by
  rcases skipRegion_cases hs with
    ⟨-, inner, close, c, hinner, hclose, hreach, -⟩ | ⟨-, -, ts, c, hreach, heof, hrun⟩ | ⟨hne, -⟩
  · have hrest := rest_of_region hreach
    exact absurd ((Token.closesAt_iff hk).2 ⟨inner, close, c.tokens, hrest, rfl, hinner, hclose⟩) (hopen _)
  · have htokens := Cursor.tokens_of_eof (hreach.complete hs) heof
    refine ⟨c, hreach.source.symm, heof, htokens, ?_, hrun⟩
    rw [hreach.tokens, htokens, List.getLast?_concat]
  · exact absurd hk hne

theorem exists_closesAt_of_ok (hs : Token.Complete s.cursor.tokens) {span : Span} {t : State}
    (h : skipRegion s = .ok span t) : s.cursor.kind = .leftParen ∧ ∃ i, ClosesAt s.cursor.tokens i := by
  by_cases hk : s.cursor.kind = .leftParen
  · refine ⟨hk, by_contra fun hnone => ?_⟩
    obtain ⟨c, -, -, -, -, hrun⟩ := skipRegion_of_open hs hk (not_exists.1 hnone)
    cases h.symm.trans hrun
  · cases h.symm.trans (skipRegion_of_ne hk)

/-- Tokens at which a region that is open has not been closed are counted without going below one, and the loop that
looks for the closing parenthesis has passed them. -/
theorem counter_of_open (hs : Token.Complete s.cursor.tokens) (hk : s.cursor.kind = .leftParen) {xs ys : List Token}
    (hrest : s.cursor.rest = xs ++ ys) (hys : ys ≠ []) (hopen : ∀ i ≤ xs.length, ¬ ClosesAt s.cursor.tokens i) :
    1 ≤ xs.foldl tally 1 ∧ ((xs.foldl tally 1 : Nat) : Int) = depth (s.cursor.current :: xs) ∧
      Cursor.closing? 0 s.cursor.rest = Cursor.closing? (xs.foldl tally 1 - 1) ys := by
  have hne : ∀ j < xs.length + 1, depth (s.cursor.tokens.take (j + 1)) ≠ 0 := fun j hj hzero => by
    obtain ⟨i, hi, hcloses⟩ := Token.exists_closesAt hk hzero
    exact hopen i (by omega) hcloses
  have hpos : ∀ us, us <+: xs → 0 ≤ depth us := fun us hus => by
    have htake : s.cursor.rest.take us.length = us :=
      (List.prefix_iff_eq_take.1 (hus.trans ⟨ys, hrest.symm⟩)).symm
    have hdepth := Token.depth_pos_of_ne_zero hk hne us.length (Nat.lt_succ_of_le hus.length_le)
    rw [List.take_succ_cons, htake, Token.depth_cons, Token.depth_of_leftParen hk] at hdepth
    omega
  have hcounter : ((xs.foldl tally 1 : Nat) : Int) = 1 + depth xs := Token.foldl_tally_eq fun us hus => by
    have := hpos us hus
    omega
  have hxs := hpos xs List.prefix_rfl
  have hleads : Token.Leads 0 xs (xs.foldl tally 1 - 1) := by
    refine ⟨?_, fun us vs hus => ?_⟩
    · rw [depth] at hcounter hxs
      omega
    · have hprefix := hpos us ⟨vs, hus.symm⟩
      rw [depth] at hprefix
      omega
  refine ⟨by omega, ?_, ?_⟩
  · rw [Token.depth_cons, Token.depth_of_leftParen hk, hcounter]
  · have hsplit : s.cursor.tokens = (s.cursor.current :: xs) ++ ys := congrArg (s.cursor.current :: ·) hrest
    have heof := (hsplit ▸ hs : Token.Complete ((s.cursor.current :: xs) ++ ys)).ne_eof hys
    rw [hrest, Cursor.closing?_append_of_leads hleads fun t ht => heof t (List.mem_cons_of_mem _ ht)]

/-- **A region is skipped exactly.**  Wherever a parser stands in a text, skipping a region succeeds if it stands on an
opening parenthesis and the depth of parentheses returns to zero behind it; then it stands behind the closing parenthesis
where it first does, and the span goes up to there.  In front of any other token it fails in its place, and if the region
is not closed it fails on the end of the input.  The counter of open parentheses is their number, and never below one
while the region is open. -/
theorem skipRegion_exact (source : String) (s : State) (hs : s.cursor.tokens <:+ Token.lex source) :
    ((∃ span t, skipRegion s = .ok span t) ↔ s.cursor.kind = .leftParen ∧ ∃ i, ClosesAt s.cursor.tokens i) ∧
    (s.cursor.kind = .leftParen → ∀ i, ClosesAt s.cursor.tokens i → ∃ close c, s.cursor.tokens[i]? = some close ∧
      c.source = s.cursor.source ∧ c.tokens = s.cursor.tokens.drop (i + 1) ∧
      skipRegion s = .ok ⟨s.cursor.span.start, close.span.stop⟩ (s.moved c)) ∧
    (s.cursor.kind ≠ .leftParen →
      skipRegion s = .error ⟨.unexpected "LeftParen" s.cursor.kind, s.cursor.span⟩ s) ∧
    (s.cursor.kind = .leftParen → (∀ i, ¬ ClosesAt s.cursor.tokens i) → ∃ c, c.source = s.cursor.source ∧
      c.kind = .eof ∧ c.tokens = [c.current] ∧ (Token.lex source).getLast? = some c.current ∧
      skipRegion s = .error ⟨.unexpected "')'" .eof, c.span⟩ (s.moved c)) ∧
    (s.cursor.kind = .leftParen → ∀ xs ys, s.cursor.rest = xs ++ ys → ys ≠ [] →
      (∀ i ≤ xs.length, ¬ ClosesAt s.cursor.tokens i) →
        1 ≤ xs.foldl tally 1 ∧ ((xs.foldl tally 1 : Nat) : Int) = depth (s.cursor.current :: xs) ∧
          Cursor.closing? 0 s.cursor.rest = Cursor.closing? (xs.foldl tally 1 - 1) ys) := by
  obtain ⟨passed, hlex⟩ := hs
  have hcomplete : Token.Complete s.cursor.tokens :=
    .of_append (a := passed) (List.cons_ne_nil _ _) (hlex ▸ Token.complete_lex source)
  refine ⟨⟨fun ⟨span, t, h⟩ => exists_closesAt_of_ok hcomplete h, fun ⟨hk, i, hi⟩ => ?_⟩,
    fun hk i => skipRegion_of_closesAt hcomplete hk, skipRegion_of_ne, fun hk hopen => ?_,
    fun hk xs ys => counter_of_open hcomplete hk⟩
  · obtain ⟨close, c, -, -, -, hrun⟩ := skipRegion_of_closesAt hcomplete hk hi
    exact ⟨_, _, hrun⟩
  · obtain ⟨c, hsource, heof, htokens, hlast, hrun⟩ := skipRegion_of_open hcomplete hk hopen
    refine ⟨c, hsource, heof, htokens, ?_, hrun⟩
    rw [← hlex, List.getLast?_append, hlast]
    rfl

end

/-- A region with another one inside, and a token behind it. -/
def nestedState : State :=
  .ofSource "(a, (b), c) d"

/-- A region that is not closed. -/
def unclosedState : State :=
  .ofSource "(a, (b)"

theorem skipRegion_exact_nested :
    (∃ c, c.tokens = nestedState.cursor.tokens.drop 9 ∧ skipRegion nestedState = .ok ⟨0, 11⟩ (nestedState.moved c)) ∧
    skipRegion nestedState.advanced = .error ⟨.unexpected "LeftParen" (.identifier "a"), ⟨1, 2⟩⟩ nestedState.advanced ∧
    (∃ c, c.tokens = [c.current] ∧
      skipRegion unclosedState = .error ⟨.unexpected "')'" .eof, ⟨7, 7⟩⟩ (unclosedState.moved c)) ∧
    Cursor.closing? 0 nestedState.cursor.rest = Cursor.closing? 1 (nestedState.cursor.rest.drop 4) := by
  have hsuffix : ∀ source, (State.ofSource source).cursor.tokens <:+ Token.lex source :=
    fun source => ⟨[], State.tokens_ofSource source⟩
  have hnested := skipRegion_exact _ nestedState (hsuffix _)
  refine ⟨?_, ?_, ?_, ?_⟩
  · obtain ⟨close, c, hclose, -, htokens, hrun⟩ := hnested.2.1 (by decide +kernel) 8 (by decide +kernel)
    have hstart : nestedState.cursor.span.start = 0 := by decide +kernel
    have hstop : nestedState.cursor.tokens[8]?.map (·.span.stop) = some 11 := by decide +kernel
    rw [hclose] at hstop
    rw [hstart, show close.span.stop = 11 from Option.some.inj hstop] at hrun
    exact ⟨c, htokens, hrun⟩
  · have hbehind : nestedState.advanced.cursor.tokens <:+ Token.lex "(a, (b), c) d" :=
      ⟨(Token.lex "(a, (b), c) d").take 1, by decide +kernel⟩
    have hkind : nestedState.advanced.cursor.kind = .identifier "a" := by decide +kernel
    have hspan : nestedState.advanced.cursor.span = ⟨1, 2⟩ := by decide +kernel
    have hrun := (skipRegion_exact _ nestedState.advanced hbehind).2.2.1 (hkind ▸ nofun)
    rwa [hkind, hspan] at hrun
  · have hopen : ∀ i, ¬ ClosesAt unclosedState.cursor.tokens i := fun i hi => by
      obtain ⟨t, ht, -⟩ := hi.closing
      have hlt : i < unclosedState.cursor.tokens.length := (List.getElem?_eq_some_iff.1 ht).1
      have hnone : ∀ i < unclosedState.cursor.tokens.length, ¬ ClosesAt unclosedState.cursor.tokens i := by decide +kernel
      exact hnone i hlt hi
    obtain ⟨c, -, -, htokens, hlast, hrun⟩ :=
      (skipRegion_exact _ unclosedState (hsuffix _)).2.2.2.1 (by decide +kernel) hopen
    have hspan : (Token.lex "(a, (b)").getLast?.map (·.span) = some ⟨7, 7⟩ := by decide +kernel
    rw [hlast] at hspan
    rw [show c.span = _ from Option.some.inj hspan] at hrun
    exact ⟨c, htokens, hrun⟩
  · exact (hnested.2.2.2.2 (by decide +kernel) (nestedState.cursor.rest.take 4) _ (List.take_append_drop 4 _).symm
      (by decide +kernel) (by decide +kernel)).2.2.trans (by decide +kernel)

end SelectRouting.Grammar
