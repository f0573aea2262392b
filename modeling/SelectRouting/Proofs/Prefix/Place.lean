import SelectRouting.Proofs.Prefix.Select
/-!
# Places in a run

Where a run comes to an item of a list (`ItemAt`) or to a factor of an entry (`FactorAt`).  A text with the same tokens in
front of such a place comes there too, in the same state (`ItemAt.moved`, `FactorAt.moved`); and where the item or the
factor fails, so does the whole list or entry (`ItemAt.fails`, `FactorAt.fails`).
-/
namespace SelectRouting.Grammar

open Cursor (Reaches Alike)

section
variable {rule : Rule} {s t u : State} {α : Type} {e : ParseError}

/-! ## Items -/

/-- From the start of an item to the start of that item, or of a later one with a comma in front. -/
inductive ItemAt (item : Parser Unit) : State → State → Prop where
  | here {s : State} : ItemAt item s s
  | later {s t u : State} {a : Unit} (head : item s = .ok a t) (comma : t.cursor.kind = .comma)
    (tail : ItemAt item t.advanced u) : ItemAt item s u

namespace ItemAt

variable {item : Parser Unit} (hitem : ∀ n n', Settles nowhere n n' item item)
include hitem

theorem moved (h : ItemAt item s t) (hs : Token.Complete s.cursor.tokens) :
    ∃ ts, Reaches s.cursor ts t.cursor ∧ ∀ b b', Token.Complete b.tokens → Reaches b ts b' →
      ItemAt item (s.moved b) (t.moved b') ∧ (ts = [] ∨ Alike s.cursor b) := by
  induction h with
  | here =>
    refine ⟨[], .refl, fun b b' _ hb => ⟨?_, .inl rfl⟩⟩
    rw [hb.eq]
    exact .here
  | @later s t u a head comma _ ih =>
    obtain ⟨ts, hts, hrun⟩ := Settles.of_ok hitem hs head
    have ht := hts.complete hs
    have hcomma : Reaches t.cursor [t.cursor.current] t.advanced.cursor := .advance ht (comma ▸ nofun)
    obtain ⟨us, hus, hmoved⟩ := ih (hcomma.complete ht)
    refine ⟨ts ++ t.cursor.current :: us, hts.trans (hcomma.trans hus), fun b b'' hb hbts => ?_⟩
    obtain ⟨b', hb', hbus⟩ := hbts.split
    have halike : Alike t.cursor b' := .of_current hbus.current_eq (comma ▸ nofun) (comma ▸ nofun)
    have hcurrent : b'.kind = .comma := (congrArg Token.kind hbus.current_eq).trans comma
    obtain ⟨-, hadvance⟩ := hbus.advance_of_cons (hb'.complete hb)
    refine ⟨.later (hrun b b' hb hb' (.inl halike)) hcurrent ?_, .inr (halike.of_reaches hts hb')⟩
    exact (hmoved _ _ (Cursor.complete_advance (hb'.complete hb)) hadvance).1

/-- Where an item fails, the list fails. -/
theorem separated_fails (h : ItemAt item s t) (hs : Token.Complete s.cursor.tokens) (hfail : item t = .error e u)
    {rounds : Nat} (hrounds : s.cursor.rest.length ≤ rounds) : ∃ u', separated item rounds s = .error e u' := by
  induction h generalizing rounds with
  | here =>
    cases rounds with
    | zero => exact ⟨_, bind_of_error hfail _⟩
    | succ rounds => exact ⟨_, bind_of_error hfail _⟩
  | @later s t _ a head comma _ ih =>
    obtain ⟨ts, hts, -⟩ := Settles.of_ok hitem hs head
    have ht := hts.complete hs
    have hlength := hts.length_rest
    have hcomma := Cursor.length_rest_advance ht (comma ▸ nofun)
    cases rounds with
    | zero => omega
    | succ rounds =>
      have hlt : t.advanced.cursor.rest.length ≤ rounds := by
        show t.cursor.advance.rest.length ≤ rounds
        omega
      obtain ⟨u', hu'⟩ := ih (Cursor.complete_advance ht) hfail hlt
      have hskip : skip .comma t = .ok true t.advanced := skipWhen_of_true (by rw [comma]; rfl)
      exact ⟨u', (bind_of_ok head _).trans ((bind_of_ok hskip _).trans (bind_of_error hu' _))⟩

theorem fails (h : ItemAt item s t) (hs : Token.Complete s.cursor.tokens) (hfail : item t = .error e u) :
    ∃ u', eachSeparated item s = .error e u' := by
  obtain ⟨u', hu'⟩ := h.separated_fails hitem hs hfail (Nat.le_refl _)
  exact ⟨u', bind_of_error (hu' : commaSeparated item s = .error e u') _⟩

end ItemAt

/-! ## Factors -/

/-- What the last factor is joined by; the first one of an entry is not joined. -/
def joinedBy? (rule : Rule) : Option JoinKind → Parser (Option Expr × List String)
  | some kind => joinedBy rule kind
  | none => return (none, [])

/-- In an entry of Oracle, from the start of a factor behind the name of its join, if it has one: to the start of that
factor, of one inside its parentheses, or of one joined later.  The parentheses of `ONLY` are not entered. -/
inductive FactorAt (rule : Rule) : Option JoinKind → State → State → Prop where
  | here {pending : Option JoinKind} {s : State} : FactorAt rule pending s s
  | inside {pending : Option JoinKind} {s t : State} (opening : s.cursor.kind = .leftParen)
    (entry : s.cursor.atSubquery = false) (inner : FactorAt rule none s.advanced t) : FactorAt rule pending s t
  | joined {pending : Option JoinKind} {s s₁ s₂ s₃ t : State} {table : TableRef} {c : Option Expr × List String}
    {kind : JoinKind} (head : tableFactor .oracle rule s = .ok table s₁) (condition : joinedBy? rule pending s₁ = .ok c s₂)
    (word : joinKind s₂ = .ok (some kind) s₃) (tail : FactorAt rule (some kind) s₃ t) : FactorAt rule pending s t

section
variable {n n' : Nat} {opened : Prop} {d : Dialect}

theorem settles_tableFactor : Settles nowhere n n' (tableFactor d rule) (tableFactor d rule) := by
  refine .tokensLeft_bind fun r r' => ?_
  have hfactor : Settles nowhere (r + 1) (r' + 1) (factorOver d rule (tableReferenceAt d rule r))
      (factorOver d rule (tableReferenceAt d rule r')) := settles_factorOver (settles_tableReferenceAt r r')
  exact hfactor.fewer (by omega) (by omega)

theorem settles_joinedBy? (pending : Option JoinKind) :
    Settles nowhere n n' (joinedBy? rule pending) (joinedBy? rule pending) := by
  cases pending with
  | none => exact .pure
  | some kind => exact settles_joinedBy kind

/-- In front of `AS` and `VERSIONS` no join begins. -/
theorem kind_of_joinKind {kind : JoinKind} (h : joinKind s = .ok (some kind) t) :
    s.cursor.kind ≠ .keyword .as ∧ s.cursor.kind ≠ .keyword .versions := by
  constructor <;>
  · intro hk
    unfold joinKind at h
    rw [look_bind_apply, Cursor.keyword?_of_kind hk] at h
    cases h

/-- With a join, a parser has passed a token at least, and does not look at what follows. -/
def Joins (n n' : Nat) (s : State) (p : Parser (Option JoinKind)) : Prop :=
  ∀ kind t, p s = .ok (some kind) t →
    SettlesAt anywhere True n n' s p p ∧ (Token.Complete s.cursor.tokens → ¬ Reaches s.cursor [] t.cursor)

theorem Joins.look {look? : Cursor → α} {f : α → Parser (Option JoinKind)}
    (hlook : ∀ c c', c'.current = c.current → look? c' = look? c) (h : Joins n n' s (f (look? s.cursor))) :
    Joins n n' s (look look? >>= f) := by
  intro kind t hr
  rw [look_bind_apply] at hr
  obtain ⟨hsettles, hpast⟩ := h kind t hr
  refine ⟨fun hs hlt => SettlesAt.look_bindPast hlook (fun k? u hr' => ?_) hsettles hs hlt, hpast⟩
  rw [hr] at hr'
  cases hr'
  exact hpast hs

theorem Joins.advance {g : Unit → Parser (Option JoinKind)} (hk : s.cursor.kind ≠ .eof)
    (hg : ∀ n n', Settles anywhere n n' (g ()) (g ())) : Joins n n' s (Grammar.advance >>= g) := by
  intro kind t hr
  refine ⟨.advance_bind hk (hg _ _), fun hs hstay => ?_⟩
  obtain ⟨ts, hts, -⟩ := Settles.of_ok hg (Cursor.complete_advance hs) (hr : g () s.advanced = .ok (some kind) t)
  exact List.cons_ne_nil _ _ (((Reaches.advance hs hk).trans hts).unique hstay)

theorem joins_joinKind (n n' : Nat) : Joins n n' s joinKind := by
  have hne : ∀ {k : Keyword}, s.cursor.keyword? = some k → s.cursor.kind ≠ .eof := fun h =>
    Cursor.kind_of_atKeyword (decide_eq_true h) ▸ nofun
  have hnamed : ∀ (kind : JoinKind) (n n' : Nat), Settles anywhere n n'
      (skipOuter kind >>= fun _ => expectKeyword .join >>= fun _ => pure (some kind))
      (skipOuter kind >>= fun _ => expectKeyword .join >>= fun _ => pure (some kind)) := by
    refine fun kind n n' s => .bindKeyword ?_ ?_ (fun _ => some kind) (settles_skipOuter kind s)
    · exact nofun
    · exact nofun
  refine .look (fun _ _ h => congrArg (fun t : Token => t.kind.keyword?) h) ?_
  split
  case h_1 hk => exact .advance (hne hk) fun _ _ => .pure
  case h_2 hk | h_3 hk | h_4 hk | h_5 hk | h_6 hk => exact .advance (hne hk) (hnamed _)
  case h_7 => exact fun kind t hr => nomatch hr

end

/-- In the second text a join has the same name, whatever is behind it. -/
theorem joinKind_moved {kind : JoinKind} (h : joinKind s = .ok (some kind) t) (hs : Token.Complete s.cursor.tokens) :
    ∃ w ts, Reaches s.cursor (w :: ts) t.cursor ∧ ∀ b b', Token.Complete b.tokens → Reaches b (w :: ts) b' →
      joinKind (s.moved b) = .ok (some kind) (t.moved b') := by
  obtain ⟨ts, hts, hrun⟩ := SettlesAt.of_ok (fun n n' => (joins_joinKind n n' kind t h).1) hs h
  cases ts with
  | nil => exact absurd hts ((joins_joinKind 0 0 kind t h).2 hs)
  | cons w ts => exact ⟨w, ts, hts, fun b b' hb hbts => hrun b b' hb hbts (.inr trivial)⟩

namespace FactorAt

/-- A text with the same tokens in front comes to the factor too, unless a subquery begins there. -/
theorem moved {pending : Option JoinKind} (h : FactorAt rule pending s t) (hs : Token.Complete s.cursor.tokens) :
    ∃ ts, Reaches s.cursor ts t.cursor ∧ ∀ b b', Token.Complete b.tokens → Reaches b ts b' →
      b'.current = t.cursor.current ∨ b'.kind ≠ .keyword .select → FactorAt rule pending (s.moved b) (t.moved b') := by
  induction h with
  | here =>
    refine ⟨[], .refl, fun b b' _ hb _ => ?_⟩
    rw [hb.eq]
    exact .here
  | @inside pending s t opening entry _ ih =>
    have hfirst : Reaches s.cursor [s.cursor.current] s.advanced.cursor := .advance hs (opening ▸ nofun)
    obtain ⟨ts, hts, hmoved⟩ := ih (hfirst.complete hs)
    refine ⟨s.cursor.current :: ts, hfirst.trans hts, fun b b' hb hbts hfront => ?_⟩
    obtain ⟨hne, hadvance⟩ := hbts.advance_of_cons hb
    have hopening : b.kind = .leftParen := (congrArg Token.kind hbts.current_eq).trans opening
    -- The token behind the parenthesis is the same or no `SELECT`, so it does not open a subquery either.
    have hentry : b.atSubquery = false := by
      have hsame : b.advance.current = s.cursor.advance.current ∨ b.advance.kind ≠ .keyword .select := by
        cases ts with
        | nil =>
          rw [hadvance.eq, show s.cursor.advance = t.cursor from hts.eq]
          exact hfront
        | cons u ts => exact .inl (hadvance.current_eq.trans hts.current_eq.symm)
      rw [Cursor.atSubquery_of_kind hopening]
      rcases hsame with hsame | hother
      · rw [← entry, Cursor.atSubquery_of_kind opening, Cursor.atKeyword, Cursor.keyword?, Cursor.kind, hsame]
        rfl
      · exact Bool.eq_false_iff.2 fun h => hother (Cursor.kind_of_atKeyword h)
    exact .inside hopening hentry (hmoved _ _ (Cursor.complete_advance hb) hadvance hfront)
  | @joined pending s s₁ s₂ s₃ t table c kind head condition word _ ih =>
    obtain ⟨ts₁, hts₁, hrun₁⟩ := Settles.of_ok (fun _ _ => settles_tableFactor) hs head
    have hs₁ := hts₁.complete hs
    obtain ⟨ts₂, hts₂, hrun₂⟩ := Settles.of_ok (fun _ _ => settles_joinedBy? pending) hs₁ condition
    have hs₂ := hts₂.complete hs₁
    obtain ⟨w, ts₃, hts₃, hrun₃⟩ := joinKind_moved word hs₂
    obtain ⟨us, hus, hmoved⟩ := ih (hts₃.complete hs₂)
    refine ⟨ts₁ ++ (ts₂ ++ (w :: ts₃ ++ us)), hts₁.trans (hts₂.trans (hts₃.trans hus)), ?_⟩
    intro b b' hb hbts hfront
    obtain ⟨b₁, hb₁, hbts⟩ := hbts.split
    obtain ⟨b₂, hb₂, hbts⟩ := hbts.split
    obtain ⟨b₃, hb₃, hbus⟩ := hbts.split
    have hc₁ := hb₁.complete hb
    have hc₂ := hb₂.complete hc₁
    have halike : Alike s₂.cursor b₂ :=
      .of_current (hb₃.current_eq.trans hts₃.current_eq.symm) (kind_of_joinKind word).1 (kind_of_joinKind word).2
    refine .joined (hrun₁ b b₁ hb hb₁ (.inl (halike.of_reaches hts₂ hb₂))) (hrun₂ b₁ b₂ hc₁ hb₂ (.inl halike))
      (hrun₃ b₂ b₃ hc₂ hb₃) (hmoved b₃ b' (hb₃.complete hc₂) hbus hfront)

end FactorAt

/-! ### Whatever the bound for the nesting -/

section
variable {depth : Nat} {table : TableRef}

/-- A factor is the same for every bound that is large enough. -/
theorem settled_oracleFactor (rule : Rule) (depth : Nat) (hs : Token.Complete s.cursor.tokens) :
    Settled nowhere True (depth + 1) s (oracleFactor rule (tableReferenceAt .oracle rule depth))
      (tableFactor .oracle rule s) := by
  have hfactor : Settles nowhere (s.cursor.rest.length + 1) (depth + 1)
      (factorOver .oracle rule (tableReferenceAt .oracle rule s.cursor.rest.length))
      (factorOver .oracle rule (tableReferenceAt .oracle rule depth)) :=
    settles_factorOver (settles_tableReferenceAt _ _)
  exact hfactor s hs (Nat.lt_succ_self _)

theorem oracleFactor_of_ok (hs : Token.Complete s.cursor.tokens) (hdepth : s.cursor.rest.length ≤ depth)
    (h : tableFactor .oracle rule s = .ok table t) :
    oracleFactor rule (tableReferenceAt .oracle rule depth) s = .ok table t := by
  have hsettled := settled_oracleFactor rule depth hs
  rw [h] at hsettled
  obtain ⟨ts, hts, hrun⟩ := hsettled
  exact hrun s.cursor t.cursor hs (Nat.lt_succ_of_le hdepth) hts (.inl .refl)

theorem oracleFactor_of_error (hs : Token.Complete s.cursor.tokens) (hdepth : s.cursor.rest.length ≤ depth)
    (h : tableFactor .oracle rule s = .error e u) :
    ∃ u', oracleFactor rule (tableReferenceAt .oracle rule depth) s = .error e u' := by
  have hsettled := settled_oracleFactor rule depth hs
  rw [h] at hsettled
  obtain ⟨ts, hts, -, hrun⟩ := hsettled
  exact hrun s.cursor u.cursor hs (Nat.lt_succ_of_le hdepth) hts .refl

end

/-- What is left of an entry behind a factor: what the factor is joined by, and further joins. -/
def joinsBehind (rule : Rule) (depth rounds : Nat) (left : TableRef) : Option JoinKind → TableRef → Parser TableRef
  | none, first => do
    joinsOver .oracle rule (oracleFactor rule (tableReferenceAt .oracle rule depth)) (← tokensLeft) first
  | some kind, right => do
    let (condition, columns) ← joinedBy rule kind
    joinsOver .oracle rule (oracleFactor rule (tableReferenceAt .oracle rule depth)) rounds
      (.join kind left right condition columns)

/-- What is left of an entry at a factor. -/
def restOfEntry (rule : Rule) (depth rounds : Nat) (left : TableRef) (pending : Option JoinKind) : Parser TableRef := do
  joinsBehind rule depth rounds left pending (← oracleFactor rule (tableReferenceAt .oracle rule depth))

theorem tableReferenceAt_succ (depth rounds : Nat) (left : TableRef) :
    tableReferenceAt .oracle rule (depth + 1) = restOfEntry rule depth rounds left none := rfl

theorem oracleFactor_inside {depth : Nat} (opening : s.cursor.kind = .leftParen) (entry : s.cursor.atSubquery = false)
    (hfail : tableReferenceAt .oracle rule depth s.advanced = .error e u) :
    oracleFactor rule (tableReferenceAt .oracle rule depth) s = .error e u := by
  have hword : ∀ k, s.cursor.atKeyword k = false := fun k =>
    Bool.eq_false_iff.2 fun h => nomatch (Cursor.kind_of_atKeyword h).symm.trans opening
  have hplain : plainFactor rule (tableReferenceAt .oracle rule depth) s = .error e u := by
    unfold plainFactor
    rw [look_bind_apply, entry]
    have hskip : skip .leftParen s = .ok true s.advanced := skipWhen_of_true (by rw [opening]; rfl)
    exact (bind_of_ok hskip _).trans (bind_of_error hfail _)
  rw [oracleFactor_eq]
  refine bind_of_error ?_ _
  exact (bind_of_ok (skipKeyword_of_false (hword .only)) _).trans (bind_of_error (bind_of_error hplain _) _)

/-- Behind the name of a join, a factor that fails makes the joins fail. -/
theorem joinsOver_fails {depth rounds : Nat} (left : TableRef) {kind : JoinKind} (hs : Token.Complete s.cursor.tokens)
    (word : joinKind s = .ok (some kind) t) (hrounds : s.cursor.rest.length ≤ rounds)
    (hfail : ∀ rounds left, t.cursor.rest.length ≤ rounds →
      ∃ u, restOfEntry rule depth rounds left (some kind) t = .error e u) :
    ∃ u, joinsOver .oracle rule (oracleFactor rule (tableReferenceAt .oracle rule depth)) rounds left s = .error e u := by
  obtain ⟨w, ts, hts, -⟩ := joinKind_moved word hs
  have hlength := hts.length_rest
  rw [List.length_cons] at hlength
  cases rounds with
  | zero => omega
  | succ rounds =>
    obtain ⟨u, hu⟩ := hfail rounds left (by omega)
    refine ⟨u, hu ▸ ?_⟩
    have hnext : nextJoin rule (oracleFactor rule (tableReferenceAt .oracle rule depth)) left s = _ := bind_of_ok word _
    rw [joinsOver]
    show (nextJoin rule _ left >>= _) s = _
    rw [bind_apply, hnext]
    refine (bind_apply _ _ _).symm.trans ?_
    simp only [restOfEntry, joinsBehind, bind_assoc, pure_bind]

/-- Where a factor fails, the entry fails. -/
theorem FactorAt.restOfEntry_fails {pending : Option JoinKind} (h : FactorAt rule pending s t)
    (hs : Token.Complete s.cursor.tokens) (hfail : tableFactor .oracle rule t = .error e u) {depth rounds : Nat}
    (hdepth : s.cursor.rest.length ≤ depth) (hrounds : s.cursor.rest.length ≤ rounds) (left : TableRef) :
    ∃ u', restOfEntry rule depth rounds left pending s = .error e u' := by
  induction h generalizing depth rounds left with
  | here =>
    obtain ⟨u', hu'⟩ := oracleFactor_of_error hs hdepth hfail
    exact ⟨u', bind_of_error hu' _⟩
  | @inside pending s t opening entry _ ih =>
    have hlength := Cursor.length_rest_advance hs (opening ▸ nofun)
    cases depth with
    | zero => omega
    | succ depth =>
      have hdepth : s.advanced.cursor.rest.length ≤ depth := by
        show s.cursor.advance.rest.length ≤ depth
        omega
      obtain ⟨u', hu'⟩ := ih (Cursor.complete_advance hs) hfail hdepth (Nat.le_refl _) left
      rw [← tableReferenceAt_succ] at hu'
      exact ⟨u', bind_of_error (oracleFactor_inside opening entry hu') _⟩
  | @joined pending s s₁ s₂ s₃ t table c kind head condition word _ ih =>
    obtain ⟨ts₁, hts₁, -⟩ := Settles.of_ok (fun _ _ => settles_tableFactor) hs head
    have hs₁ := hts₁.complete hs
    obtain ⟨ts₂, hts₂, -⟩ := Settles.of_ok (fun _ _ => settles_joinedBy? pending) hs₁ condition
    have hs₂ := hts₂.complete hs₁
    obtain ⟨w, ts₃, hts₃, -⟩ := joinKind_moved word hs₂
    have hlength₁ := hts₁.length_rest
    have hlength₂ := hts₂.length_rest
    have hlength₃ := hts₃.length_rest
    have hrest : ∀ rounds left, s₃.cursor.rest.length ≤ rounds →
        ∃ u', restOfEntry rule depth rounds left (some kind) s₃ = .error e u' := fun rounds left hrounds =>
      ih (hts₃.complete hs₂) hfail (by omega) hrounds left
    unfold restOfEntry
    rw [bind_of_ok (oracleFactor_of_ok hs hdepth head)]
    cases pending with
    | none =>
      cases condition
      exact joinsOver_fails _ hs₂ word (Nat.le_refl _) hrest
    | some kind' =>
      obtain ⟨u', hu'⟩ := joinsOver_fails (.join kind' left table c.1 c.2) hs₂ word (by omega : _ ≤ rounds) hrest
      exact ⟨u', (bind_of_ok condition _).trans hu'⟩

end

end SelectRouting.Grammar
