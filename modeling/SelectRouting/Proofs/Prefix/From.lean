import SelectRouting.Proofs.Prefix.Clause
/-!
# FROM settles its end

Whether a table factor of Oracle is complete is seen at the token behind it, and that token may be one of the words that
ask for an earlier state of the table: no alias and no suffix begins with them, so the factor in front of the rejection
ends there as it would end elsewhere (`settles_unguardedFactor`).  With joins as with operators, a further one passes at
least one token.
-/
namespace SelectRouting.Grammar

open Cursor (Reaches Alike)

section
variable {d : Dialect} {rule : Rule} {n n' : Nat} {s t : State} {opened : Prop} {α β : Type}

/-! ## Staying in front of an earlier state -/

/-- In front of `AS` and `VERSIONS` a parser passes nothing. -/
def Keeps (p : Parser α) : Prop :=
  ∀ s a t, p s = .ok a t → s.cursor.kind = .keyword .as ∨ s.cursor.kind = .keyword .versions → t.cursor = s.cursor

namespace Keeps

variable {p : Parser α} {f : α → Parser β}

theorem pure {a : α} : Keeps (Pure.pure a : Parser α) := by
  intro s a t h _
  cases h
  rfl

theorem bind (hp : Keeps p) (hf : ∀ a, Keeps (f a)) : Keeps (p >>= f) := by
  intro s b u h hk
  obtain ⟨a, t, hp', hf'⟩ := ok_of_bind h
  have ht := hp s a t hp' hk
  rw [← ht] at hk ⊢
  exact hf a t b u hf' hk

theorem whenKeyword {k : Keyword} {x y : Parser Unit} (has : k ≠ .as) (hversions : k ≠ .versions) (hy : Keeps y) :
    Keeps (skipKeyword k >>= fun b => if b then x else y) := by
  intro s a t h hk
  have hat : s.cursor.atKeyword k = false := by
    refine Bool.eq_false_iff.2 fun hat => ?_
    have hkind := Cursor.kind_of_atKeyword hat
    rcases hk with hk | hk
    · exact has (Token.Kind.keyword.inj (hkind.symm.trans hk))
    · exact hversions (Token.Kind.keyword.inj (hkind.symm.trans hk))
  rw [bind_of_ok (skipKeyword_of_false hat), if_neg Bool.false_ne_true] at h
  exact hy s a t h hk

end Keeps

theorem Settles.bindKept {p p' : Parser α} {f f' : α → Parser β} (hp : Settles flashback n n' p p')
    (hf : ∀ a, Settles flashback n n' (f a) (f' a)) (hkeep : ∀ a, Keeps (f a)) :
    Settles flashback n n' (p >>= f) (p' >>= f') :=
  fun s => (hp s).bindKept hf fun a t b u h => hkeep a t b u h

/-- What may stand behind a table. -/
theorem settles_whenSuffix {k : Keyword} {x x' y y' : Parser Unit} (has : k ≠ .as) (hversions : k ≠ .versions)
    (hx : Settles flashback (n - 1) (n' - 1) x x') (hy : Settles flashback n n' y y') :
    Settles flashback n n' (skipKeyword k >>= fun b => if b then x else y)
      (skipKeyword k >>= fun b => if b then x' else y') :=
  fun s => .skipKeyword_bind (fun _ h => atKeyword_of_flashback h has hversions) hx.behind (hy s)

/-! ## Suffixes -/

/-- `(…)` at the end of a suffix. -/
theorem settles_endingRegion : Settles flashback n n' (skipRegion >>= fun _ => pure ())
    (skipRegion >>= fun _ => pure ()) :=
  .andThen settles_skipRegion fun _ => .pure

theorem settles_skipSample : Settles flashback n n' skipSample skipSample := by
  have hregion : ∀ {n n'}, Settles flashback n n'
      (skipRegion >>= fun _ => skipKeyword .seed >>= fun b => if b then skipRegion >>= fun _ => pure () else pure ())
      (skipRegion >>= fun _ => skipKeyword .seed >>= fun b => if b then skipRegion >>= fun _ => pure () else pure ()) :=
    .andThen settles_skipRegion fun _ => settles_whenSuffix nofun nofun settles_endingRegion .pure
  refine settles_whenSuffix nofun nofun (fun s => ?_) .pure
  exact .skipKeyword_bind (fun _ h => atKeyword_of_flashback h nofun nofun) hregion.behind (hregion s)

theorem settles_skipPartition {k : Keyword} (has : k ≠ .as) (hversions : k ≠ .versions) :
    Settles flashback n n' (skipPartition k) (skipPartition k) := by
  refine settles_whenSuffix has hversions (settles_whenSuffix nofun nofun settles_endingRegion ?_) .pure
  exact .andThen settles_skipRegion fun _ => settles_whenSuffix nofun nofun settles_endingRegion .pure

theorem settles_skipPivot : Settles flashback n n' skipPivot skipPivot := by
  refine settles_whenSuffix nofun nofun (fun s => ?_) (settles_whenSuffix nofun nofun (fun s => ?_) .pure)
  · exact .skipKeyword_bind (fun _ h => atKeyword_of_flashback h nofun nofun) settles_endingRegion.behind
      (settles_endingRegion s)
  · refine .reassoc (.skipAny_bind (fun c h => ?_) ?_ (settles_endingRegion s))
    · have hword : ∀ k ∈ [Keyword.include, .exclude], c.atKeyword k = false := by
        intro k hk
        refine atKeyword_of_flashback h ?_ ?_ <;>
        · rintro rfl
          simp at hk
      rw [Cursor.atAny_cons, Cursor.atAny_cons, hword _ (by decide), hword _ (by decide), Cursor.atAny_nil]
      rfl
    · exact fun s => .reassoc (Settles.andThen settles_expectKeyword (fun _ => settles_endingRegion) s)

/-! ## Factors -/

theorem settles_tableNamed (schema : Option String) (name : String) (token : Token) :
    Settles flashback n n' (tableNamed rule schema name token) (tableNamed rule schema name token) :=
  .andThen .recordTable fun _ => .bindKept settles_aliasClause (fun _ => .pure) fun _ => .pure

/-- A name with its token. -/
def namedToken : Parser (Token × String) := do
  let token ← look (·.current)
  return (token, ← expectName)

def namedToken? (t : Token) : Option (Token × String) :=
  t.name?.map (t, ·)

theorem demands_namedToken : Demands namedToken namedToken? "identifier" := by
  intro s
  unfold namedToken
  rw [look_bind_apply]
  cases hname : s.cursor.current.name? with
  | some name =>
    rw [namedToken?, hname]
    exact bind_of_ok (expectName_of_some hname) _
  | none =>
    rw [namedToken?, hname]
    exact bind_of_error (expectName_of_none hname) _

theorem settles_namedToken : Settles anywhere n n' namedToken namedToken := by
  refine .demand demands_namedToken fun t a h => ?_
  obtain ⟨name, hname, -⟩ := Option.map_eq_some_iff.1 h
  exact (eof_of_name? hname).1

theorem settles_tableName : Settles flashback n n' (tableName rule) (tableName rule) := by
  have heq : tableName rule = namedToken >>= fun first => skip .dot >>= fun b =>
      if b then namedToken >>= fun second => tableNamed rule (some first.2) second.2 second.1
      else tableNamed rule none first.2 first.1 := by
    simp only [tableName, namedToken, bind_assoc, pure_bind]
  rw [heq]
  refine .andThen settles_namedToken fun first s => .skip_bind nofun (fun c h => ?_) ?_ (settles_tableNamed _ _ _ s)
  · rcases kind_of_flashback h with hk | hk <;> rw [hk] <;> rfl
  · exact .andThen settles_namedToken fun second => settles_tableNamed _ _ _

section
variable {entry entry' : Parser TableRef} (hentry : Settles nowhere (n - 1) (n' - 1) entry entry')
include hentry

theorem settles_plainFactor : Settles flashback n n' (plainFactor rule entry) (plainFactor rule entry') := by
  have hinside : Settles flashback (n - 1) (n' - 1)
      (entry >>= fun inner => expect .rightParen >>= fun _ => pure inner)
      (entry' >>= fun inner => expect .rightParen >>= fun _ => pure inner) :=
    Settles.passed fun s => .bindClosing (hentry s)
  have hmarks : ∀ c, flashback c → c.kind ≠ .leftParen ∧ c.kind ≠ .keyword .select := by
    intro c h
    rcases kind_of_flashback h with hk | hk <;> rw [hk] <;> exact ⟨nofun, nofun⟩
  have hopens : ∀ (entry : Parser TableRef) (s : State), s.cursor.kind = .leftParen →
      (skip .leftParen >>= fun b => if b then entry >>= fun inner => expect .rightParen >>= fun _ => pure inner
        else tableName rule) s = (entry >>= fun inner => expect .rightParen >>= fun _ => pure inner) s.advanced := by
    intro entry s hk
    have halike : s.cursor.kind.alike .leftParen = true := by rw [hk]; rfl
    exact bind_of_ok (skipWhen_of_true halike) _
  intro s
  refine .rejectSubquery hmarks (hopens entry) (hopens entry') (hinside s.advanced) ?_
  refine .skip_bind nofun (fun c h => ?_) hinside (settles_tableName s)
  exact Bool.eq_false_iff.2 fun h' => (hmarks c h).1 (Token.Kind.eq_of_alike h' trivial)

theorem settles_suffixedFactor : Settles flashback n n' (suffixedFactor rule entry) (suffixedFactor rule entry') := by
  have hlast : ∀ table : TableRef, Keeps (skipPartition .subpartition >>= fun _ => pure table) := fun _ =>
    .bind (.whenKeyword nofun nofun .pure) fun _ => .pure
  have hbehind : ∀ table : TableRef,
      Keeps (skipPartition .partition >>= fun _ => skipPartition .subpartition >>= fun _ => pure table) := fun table =>
    .bind (.whenKeyword nofun nofun .pure) fun _ => hlast table
  refine .bindKept (settles_plainFactor hentry) (fun table => .bindKept settles_skipSample (fun _ => ?_) ?_) ?_
  · refine .bindKept (settles_skipPartition nofun nofun) (fun _ => ?_) fun _ => hlast table
    exact .bindKept (settles_skipPartition nofun nofun) (fun _ => .pure) fun _ => .pure
  · exact fun _ => hbehind table
  · exact fun table => .bind (.whenKeyword nofun nofun .pure) fun _ => hbehind table

theorem settles_onlyFactor : Settles flashback n n' (onlyFactor rule entry) (onlyFactor rule entry') := by
  have hinside : Settles flashback (n - 1) (n' - 1)
      (suffixedFactor rule entry >>= fun table => expect .rightParen >>= fun _ => pure table)
      (suffixedFactor rule entry' >>= fun table => expect .rightParen >>= fun _ => pure table) := by
    have hfactor : Settles flashback (n - 1) (n' - 1) (suffixedFactor rule entry) (suffixedFactor rule entry') :=
      settles_suffixedFactor (hentry.fewer (Nat.sub_le _ 1) (Nat.sub_le _ 1))
    exact Settles.passed fun s => .bindClosing (hfactor.mono (fun _ h => h.elim) s)
  refine fun s => .skip_bind nofun (fun c h => ?_) hinside (settles_suffixedFactor hentry s)
  rcases kind_of_flashback h with hk | hk <;> rw [hk] <;> rfl

theorem settles_pivotedFactor : Settles flashback n n' (pivotedFactor rule entry) (pivotedFactor rule entry') := by
  refine .bindKept (settles_suffixedFactor hentry) (fun table => ?_) fun table => ?_
  · exact .bindKept settles_skipPivot (fun _ => .pure) fun _ => .pure
  · exact .bind (.whenKeyword nofun nofun (.whenKeyword nofun nofun .pure)) fun _ => .pure

omit hentry in
/-- A factor of Oracle with its alias and its suffixes, in front of the rejection of an earlier state. -/
def unguardedFactor (rule : Rule) (entry : Parser TableRef) : Parser TableRef := do
  if ← skipKeyword .only then onlyFactor rule entry else pivotedFactor rule entry

omit hentry in
theorem oracleFactor_eq (entry : Parser TableRef) : oracleFactor rule entry =
    unguardedFactor rule entry >>= fun table => rejectFlashback >>= fun _ => pure table := by
  unfold oracleFactor unguardedFactor
  rw [bind_assoc]
  refine bind_congr fun b => ?_
  cases b <;> rfl

theorem settles_unguardedFactor :
    Settles flashback n n' (unguardedFactor rule entry) (unguardedFactor rule entry') := by
  refine fun s => .skipKeyword_bind (fun _ h => atKeyword_of_flashback h nofun nofun) ?_ (settles_pivotedFactor hentry s)
  exact (settles_onlyFactor (hentry.fewer (Nat.sub_le _ 1) (Nat.sub_le _ 1))).behind

omit hentry in
theorem settles_rejectFlashback : Settles nowhere n n' rejectFlashback rejectFlashback := by
  intro s
  have hword : ∀ {k : Keyword} {b : Bool}, (s.cursor.atKeyword k && b) = true → k ≠ .select →
      s.cursor.kind = .keyword .select → ¬ True := fun h hk hselect =>
    absurd (Token.Kind.keyword.inj ((Cursor.kind_of_atKeyword (Bool.and_eq_true_iff.1 h).1).symm.trans hselect)) hk
  refine .look_bind (fun _ _ h => h.atVersionsBetween) ?_
  split
  · next h => exact .unsupported (hword h nofun)
  · refine .look_bind (fun _ _ h => h.atAsOf) ?_
    split
    · next h => exact .unsupported (hword h nofun)
    · exact .pure

theorem settles_factorOver : Settles nowhere n n' (factorOver d rule entry) (factorOver d rule entry') := by
  cases d with
  | oracle =>
    show Settles nowhere n n' (oracleFactor rule entry) (oracleFactor rule entry')
    rw [oracleFactor_eq, oracleFactor_eq]
    have hfactor : Settles flashback n n' (unguardedFactor rule entry) (unguardedFactor rule entry') :=
      settles_unguardedFactor hentry
    exact .bind (hfactor.mono fun _ h => h.elim) fun table => .bind settles_rejectFlashback fun _ => .pure
  | generic | sqlServer => exact (settles_plainFactor hentry).mono fun _ h => h.elim

end

/-! ## Joins -/

theorem settles_skipOuter (kind : JoinKind) : Settles nowhere n n' (skipOuter kind) (skipOuter kind) := by
  cases kind with
  | left | right | full => exact .bind .skipKeyword fun _ => .pure
  | inner | cross => exact .pure

/-- The name of a join passes at least one token, whatever comes behind. -/
theorem settlesAt_joinKind_bind {k k' : Option JoinKind → Parser β}
    (hnone : SettlesAt nowhere opened n n' s (k none) (k' none))
    (hsome : ∀ kind, Settles nowhere (n - 1) (n' - 1) (k (some kind)) (k' (some kind))) :
    SettlesAt nowhere opened n n' s (joinKind >>= k) (joinKind >>= k') := by
  have hne : ∀ {k : Keyword}, s.cursor.keyword? = some k → s.cursor.kind ≠ .eof := fun h =>
    Cursor.kind_of_atKeyword (decide_eq_true h) ▸ nofun
  have hnamed : ∀ kind, s.cursor.kind ≠ .eof →
      SettlesAt nowhere opened n n' s (joinOf kind >>= k) (joinOf kind >>= k') := by
    intro kind hk
    refine .reassoc (.advance_bind hk fun s => .reassoc (Settles.bind (settles_skipOuter kind) (fun _ s => ?_) s))
    exact .reassoc (Settles.andThen settles_expectKeyword (fun _ => hsome kind) s)
  refine .reassoc (.look_bind (fun _ _ h => congrArg Token.Kind.keyword? (kind_of_alike h)) ?_)
  split
  case h_1 hk => exact .reassoc (.advance_bind (hne hk) (hsome .inner))
  case h_2 hk | h_3 hk | h_4 hk | h_5 hk | h_6 hk => exact hnamed _ (hne hk)
  case h_7 => exact hnone

theorem settles_joinedBy (kind : JoinKind) : Settles nowhere n n' (joinedBy rule kind) (joinedBy rule kind) := by
  have hby : Settles nowhere n n' (joinedBy rule .inner) (joinedBy rule .inner) := by
    refine .branchKeyword (Settles.behind (.bind settles_expression fun _ => .pure)) ?_
    refine .branchKeyword (Settles.behind (.andThen (settles_expect nofun) fun _ => ?_)) .unexpected
    exact .bind (.commaSeparated settles_expectName.passed) fun _ => .andThen (settles_expect nofun) fun _ => .pure
  cases kind with
  | cross => exact .pure
  | inner | left | right | full => exact hby

theorem settles_hintBehind (left : TableRef) : Settles nowhere n n' (hintBehind d left) (hintBehind d left) := by
  unfold hintBehind
  split
  · split
    · exact .whenKeyword (Settles.behind (.andThen settles_skipRegion fun _ => .pure))
    · exact .pure
  · exact .pure

section
variable {factor factor' : Parser TableRef} (hfactor : Settles nowhere (n - 1) (n' - 1) factor factor')
include hfactor

/-- A join passes at least one token, whatever comes behind. -/
theorem settlesAt_nextJoin_bind {k k' : Option TableRef → Parser β} (left : TableRef)
    (hnone : SettlesAt nowhere opened n n' s (k none) (k' none))
    (hsome : ∀ joined, Settles nowhere (n - 1) (n' - 1) (k (some joined)) (k' (some joined))) :
    SettlesAt nowhere opened n n' s (nextJoin rule factor left >>= k) (nextJoin rule factor' left >>= k') := by
  refine .reassoc (settlesAt_joinKind_bind hnone fun kind s => ?_)
  refine .reassoc (Settles.bind hfactor (fun right s => ?_) s)
  exact .reassoc (Settles.bind (settles_joinedBy kind) (fun _ => hsome _) s)

omit hfactor in
theorem joinsOver_of_eof {rounds : Nat} {left : TableRef} (hk : s.cursor.kind = .eof) :
    joinsOver d rule factor rounds left s = .ok left s := by
  cases rounds with
  | zero => rfl
  | succ rounds =>
    have hword : s.cursor.keyword? = none := by rw [Cursor.keyword?, hk]; rfl
    have hhint : hintBehind d left s = .ok () s := by
      unfold hintBehind
      split
      · split
        · have hwith : s.cursor.atKeyword .with = false := by rw [Cursor.atKeyword, hword]; rfl
          exact bind_of_ok (skipKeyword_of_false hwith) _
        · rfl
      · rfl
    have hjoin : joinKind s = .ok none s := by
      unfold joinKind
      rw [look_bind_apply, hword]
      rfl
    have hnext : nextJoin rule factor left s = .ok none s := bind_of_ok hjoin _
    exact (bind_of_ok hhint _).trans (bind_of_ok hnext _)

theorem settles_joinsOver (left : TableRef) :
    Settles nowhere n n' (tokensLeft >>= fun rounds => joinsOver d rule factor rounds left)
      (tokensLeft >>= fun rounds => joinsOver d rule factor' rounds left) := by
  have hround : ∀ r r', (∀ left, Settles nowhere (min n (r + 1)) (min n' (r' + 1))
      (joinsOver d rule factor r left) (joinsOver d rule factor' r' left)) →
      ∀ left, Settles nowhere (min n (r + 2)) (min n' (r' + 2)) (joinsOver d rule factor (r + 1) left)
        (joinsOver d rule factor' (r' + 1) left) := by
    intro r r' ih left
    refine .bind (settles_hintBehind left) fun _ s => ?_
    refine settlesAt_nextJoin_bind (hfactor.fewer (by omega) (by omega)) left .pure fun joined => ?_
    exact (ih joined).fewer (by omega) (by omega)
  exact .tokensLeft_bind fun r r' => .rounds id (fun _ _ _ => joinsOver_of_eof) (fun _ _ _ => joinsOver_of_eof) hround
    r r' left

end

/-! ## The knot -/

theorem settles_tableReferenceAt (depth depth' : Nat) :
    Settles nowhere depth depth' (tableReferenceAt d rule depth) (tableReferenceAt d rule depth') := by
  induction depth generalizing depth' with
  | zero => exact fun _ _ hlt => absurd hlt (Nat.not_lt_zero _)
  | succ depth ih =>
    have hsucc : ∀ depth', Settles nowhere (depth + 1) (depth' + 1) (tableReferenceAt d rule (depth + 1))
        (tableReferenceAt d rule (depth' + 1)) := by
      intro depth'
      have hfactor : Settles nowhere (depth + 1) (depth' + 1) (factorOver d rule (tableReferenceAt d rule depth))
          (factorOver d rule (tableReferenceAt d rule depth')) := settles_factorOver (ih depth')
      exact .bind hfactor fun left => settles_joinsOver (hfactor.fewer (Nat.sub_le _ 1) (Nat.sub_le _ 1)) left
    cases depth' with
    | succ depth' => exact hsucc depth'
    | zero => exact (hsucc 0).vacuous

theorem settles_tableReference : Settles nowhere n n' (tableReference d rule) (tableReference d rule) :=
  .tokensLeft_bind fun r r' => (settles_tableReferenceAt (r + 1) (r' + 1)).fewer (by omega) (by omega)

theorem settles_fromClause : Settles nowhere n n' (fromClause d rule) (fromClause d rule) := by
  refine .whenKeyword (Settles.behind (.eachSeparated ?_))
  exact .bind settles_tableReference fun _ => Settles.modify.passed

end

end SelectRouting.Grammar
