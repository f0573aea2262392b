import SelectRouting.Grammar.Model
import SelectRouting.Proofs.Form.Reading
/-!
# The form of a MODEL clause

The clause has eleven parts that may be missing, and some of its words are names, too.  Still the next token always says
which part comes next (`clear_model`), so a derivation is unique, and the parsers that skip the parts one by one recognize
exactly the form (`skipModel_exact`).  Two constructs are refused as unsupported on the way; each of them lies behind a
form of its own (`referenceModel`, `upToPartition`).
-/
namespace SelectRouting

/-! ## The form -/

namespace Form

/-- `[IGNORE NAV | KEEP NAV]`. -/
def missing : Form :=
  .optional (.seq (.word [.ignore, .keep]) (.word [.nav]))

/-- `[UNIQUE SINGLE REFERENCE | UNIQUE DIMENSION]`. -/
def uniqueness : Form :=
  .optional (.seq (.word [.unique]) (.either (.seq (.word [.single]) (.word [.reference])) (.word [.dimension])))

def cellOptions : Form :=
  .seq missing uniqueness

/-- `[RETURN ALL ROWS | RETURN UPDATED ROWS]`. -/
def returned : Form :=
  .optional (.seq (.word [.return]) (.seq (.word [.all, .updated]) (.word [.rows])))

/-- `[MAIN name]`. -/
def mainName : Form :=
  .optional (.seq (.word [.main]) .name)

/-- `[PARTITION BY (…)]`. -/
def modelPartition : Form :=
  .optional (.seq (.word [.partition]) (.seq (.word [.by]) .region))

/-- `DIMENSION BY (…) MEASURES (…)`. -/
def columns : Form :=
  .seq (.word [.dimension]) (.seq (.word [.by]) (.seq .region (.seq (.word [.measures]) .region)))

/-- `[UPDATE | UPSERT [ALL]]`. -/
def ruleKind : Form :=
  .optional (.either (.word [.update]) (.seq (.word [.upsert]) (.optional (.word [.all]))))

/-- `[AUTOMATIC ORDER | SEQUENTIAL ORDER]`. -/
def ruleOrder : Form :=
  .optional (.seq (.word [.automatic, .sequential]) (.word [.order]))

/-- `[RULES …]`. -/
def ruleOptions : Form :=
  .optional (.seq (.word [.rules]) (.seq ruleKind ruleOrder))

/-- `[ITERATE (…) [UNTIL (…)]]`. -/
def iteration : Form :=
  .optional (.seq (.word [.iterate]) (.seq .region (.optional (.seq (.word [.until]) .region))))

def rules : Form :=
  .seq ruleOptions (.seq iteration .region)

def mainModel : Form :=
  .seq mainName (.seq modelPartition (.seq columns (.seq cellOptions rules)))

def model : Form :=
  .seq (.word [.model]) (.seq cellOptions (.seq returned mainModel))

/-- `REFERENCE name ON (…)` behind the options. -/
def referenceModel : Form :=
  .seq (.word [.model]) (.seq cellOptions (.seq returned
    (.seq (.word [.reference]) (.seq .name (.seq (.word [.on]) .region)))))

/-- Up to `PARTITION BY`. -/
def upToPartition : Form :=
  .seq (.word [.model]) (.seq cellOptions (.seq returned (.seq mainName (.seq (.word [.partition]) (.word [.by])))))

theorem clear_model : model.clear = true ∧ model.extenders = [] := by
  decide +kernel

theorem clear_referenceModel : referenceModel.clear = true ∧ referenceModel.extenders = [] := by
  decide +kernel

theorem clear_upToPartition : upToPartition.clear = true ∧ upToPartition.extenders = [] := by
  decide +kernel

end Form

namespace Grammar

open Form

/-! ## The parsers -/

theorem recognizes_skipMissing : Recognizes missing Never skipMissing :=
  .clean (.optional (.map .expectKeyword))

theorem recognizes_skipUniqueness : Recognizes uniqueness Never skipUniqueness := by
  unfold skipUniqueness
  simp only [skipKeyword_eq]
  have hkind : Recognizes (.either (.seq (word [.single]) (word [.reference])) (word [.dimension])) Never
      (skipAny [.single] >>= fun b => if b then expectKeyword .reference >>= fun _ => pure () else
        expectKeyword .dimension >>= fun _ => pure ()) :=
    .clean (.branch (by decide) (.map .expectKeyword) (.map .expectKeyword))
  exact .clean (.optional hkind)

theorem recognizes_skipCellOptions : Recognizes cellOptions Never skipCellOptions :=
  .before rfl recognizes_skipMissing fun _ => recognizes_skipUniqueness

theorem recognizes_skipReturn : Recognizes returned Never skipReturn := by
  unfold skipReturn
  simp only [skipKeyword_eq]
  exact .clean (.optional (.clean (.demandAny (.map .expectKeyword))))

theorem recognizes_skipMainName : Recognizes mainName Never skipMainName := by
  unfold skipMainName
  simp only [skipKeyword_eq]
  exact .clean (.optional (.map .expectName))

/-- The first token is no opening parenthesis. -/
def Unparenthesized (ts : List Token) : Prop :=
  ∃ t ∈ ts.head?, t.kind ≠ .leftParen

theorem recognizes_skipModelPartition : Recognizes modelPartition
    ((word [.partition]).Before ((word [.by]).Before Unparenthesized)) skipModelPartition := by
  unfold skipModelPartition
  simp only [skipKeyword_eq]
  exact .optional (.andThen rfl .expectKeyword fun _ => .regionOrRefused (.map .skipRegion))

theorem recognizes_skipColumns : Recognizes columns Never skipColumns :=
  .before rfl .expectKeyword fun _ => .before rfl .expectKeyword fun _ => .before rfl .skipRegion fun _ =>
    .before rfl .expectKeyword fun _ => .map .skipRegion

theorem recognizes_skipRuleKind : Recognizes ruleKind Never skipRuleKind := by
  unfold skipRuleKind
  simp only [skipKeyword_eq]
  -- The parser asks for `UPSERT` first.
  have hkind : Recognizes (.either (.seq (word [.upsert]) (.optional (word [.all]))) (.optional (word [.update]))) Never
      (skipAny [.upsert] >>= fun b => if b then skipAny [.all] >>= fun _ => pure () else
        skipAny [.update] >>= fun _ => pure ()) :=
    .clean (.branch (by decide) (.map .skipAny) (.map .skipAny))
  exact fun s hs => (hkind s hs).congrForm fun _ _ => exists_greedy_optional

theorem recognizes_skipRuleOrder : Recognizes ruleOrder Never skipRuleOrder :=
  .clean (.optional (.map .expectKeyword))

theorem recognizes_skipRuleOptions : Recognizes ruleOptions Never skipRuleOptions := by
  unfold skipRuleOptions
  simp only [skipKeyword_eq]
  exact .clean (.optional (.before (by decide) recognizes_skipRuleKind fun _ => recognizes_skipRuleOrder))

theorem recognizes_skipIteration : Recognizes iteration Never skipIteration := by
  unfold skipIteration
  simp only [skipKeyword_eq]
  have hcondition : Recognizes (.optional (.seq (word [.until]) region)) Never
      (skipAny [.until] >>= fun b => if b then skipRegion >>= fun _ => pure () else pure ()) :=
    .clean (.optional (.map .skipRegion))
  exact .clean (.optional (.before rfl .skipRegion fun _ => hcondition))

theorem recognizes_skipRules : Recognizes rules Never skipRules :=
  .before (by decide) recognizes_skipRuleOptions fun _ => .before (by decide) recognizes_skipIteration fun _ =>
    .map .skipRegion

theorem recognizes_skipMainModel : Recognizes mainModel
    (mainName.Before ((word [.partition]).Before ((word [.by]).Before Unparenthesized))) skipMainModel :=
  .andThen (by decide) recognizes_skipMainName fun _ => .before (by decide) recognizes_skipModelPartition fun _ =>
    .before rfl recognizes_skipColumns fun _ => .before (by decide) recognizes_skipCellOptions fun _ =>
      recognizes_skipRules

/-- `REFERENCE name ON (…)` is passed before it is refused, so what follows may not begin like that. -/
theorem recognizes_behindReference : Recognizes mainModel
    (fun ts => (Form.seq (word [.reference]) (.seq .name (.seq (word [.on]) .region))).Before (fun _ => True) ts ∨
      mainName.Before ((word [.partition]).Before ((word [.by]).Before Unparenthesized)) ts)
    (rejectReference >>= fun _ => skipMainModel) := by
  have hreference : Recognizes (.seq .name (.seq (word [.on]) .region)) Never
      (expectName >>= fun _ => expectKeyword .on >>= fun _ => skipRegion) :=
    .before rfl .expectName fun _ => .before rfl .expectKeyword fun _ => .skipRegion
  have hreject : rejectReference = skipAny [.reference] >>= fun b =>
      if b then (expectName >>= fun _ => expectKeyword .on >>= fun _ => skipRegion) >>= fun _ =>
        unsupported "MODEL reference column clause"
      else pure () := by
    rw [← skipKeyword_eq]
    simp only [bind_assoc]
    rfl
  rw [hreject]
  refine .refuse rfl (by decide) (fun ts h => ?_) hreference recognizes_skipMainModel
  rw [← Form.Before.seq_eq, ← Form.Before.seq_eq] at h
  exact Opener.begin_mono (by decide) (h.begins rfl)

/-! ## The clause -/

theorem recognized_skipModel {s : State} (hs : Token.Complete s.cursor.tokens) (hk : s.cursor.kind = .keyword .model) :
    Recognized model (fun ts => referenceModel.Before (fun _ => True) ts ∨ upToPartition.Before Unparenthesized ts) s
      (skipModel s) := by
  have hbody := Recognizes.andThen (by decide) recognizes_skipCellOptions fun _ =>
    .andThen (by decide) recognizes_skipReturn fun _ => recognizes_behindReference
  have hat : s.cursor.atAny [.model] = true :=
    Recognizes.atAny_iff.2 ⟨.word .model, List.mem_singleton_self _, s.cursor.current, rfl, hk⟩
  have hskip : skipModel s = (skipCellOptions >>= fun _ => skipReturn >>= fun _ => rejectReference >>= fun _ =>
      skipMainModel) s.advanced := bind_of_ok (skipKeyword_of_true hk) _
  rw [hskip]
  refine (Recognizes.behindWord hs hat hbody).congr (iff_of_eq ?_)
  simp only [referenceModel, upToPartition, Form.Before.seq_eq, Form.Before.or_eq]

/-- **A MODEL clause is skipped exactly.**  In front of the word, skipping the clause succeeds if and only if the tokens
begin with a derivation of its form; there is one at most, and the parser ends right behind it.  Two failures are
unsupported: a complete `REFERENCE name ON (…)` behind the options, and `PARTITION BY` in front of anything but an opening
parenthesis.  Every other failure is a token that is not expected. -/
theorem skipModel_exact (s : State) (hs : Token.Complete s.cursor.tokens) (hk : s.cursor.kind = .keyword .model) :
    ((∃ t, skipModel s = .ok () t) ↔ model.Heads s.cursor.tokens) ∧
    (∀ T T', model.Derives T → model.Derives T' → T.tokens <+: s.cursor.tokens → T'.tokens <+: s.cursor.tokens →
      T = T') ∧
    (∀ t, skipModel s = .ok () t → ∃ T c, model.Derives T ∧ s.cursor.tokens = T.tokens ++ c.tokens ∧
      c.source = s.cursor.source ∧ t = s.moved c) ∧
    ∀ e t, skipModel s = .error e t →
      (e.isUnsupported = true ↔ referenceModel.Heads s.cursor.tokens ∨ ∃ T rest, upToPartition.Derives T ∧
        s.cursor.tokens = T.tokens ++ rest ∧ ∃ u ∈ rest.head?, u.kind ≠ .leftParen) ∧
      (e.isUnsupported = false → ∃ expected, e = ⟨.unexpected expected t.cursor.kind, t.cursor.span⟩) := by
  have hrecognized := recognized_skipModel hs hk
  obtain ⟨hclear, hclosed⟩ := clear_model
  refine ⟨?_, fun T T' hT hT' => hT.unique hclear hclosed hT', fun t ht => ?_, fun e t he => ?_⟩
  · rw [← hrecognized.ok_iff hclear hclosed]
    exact ⟨fun ⟨t, ht⟩ => ⟨(), t, ht⟩, fun ⟨_, t, ht⟩ => ⟨t, ht⟩⟩
  · rw [ht] at hrecognized
    cases hrecognized with
    | ok derived reached => exact ⟨_, _, derived.derives, reached.tokens, reached.source.symm, rfl⟩
  · rw [he] at hrecognized
    cases hrecognized with
    | error underived refused syntactic =>
      rw [Form.Before.iff_heads clear_referenceModel.1 clear_referenceModel.2,
        Form.Before.iff_derives clear_upToPartition.1 clear_upToPartition.2] at refused
      exact ⟨refused, syntactic⟩

/-- A clause with most of its parts; the name of the main model is a word that may begin the next part. -/
def modelState : State :=
  .ofSource ("MODEL IGNORE NAV RETURN ALL ROWS MAIN partition PARTITION BY (a) DIMENSION BY (b) MEASURES ((c)) " ++
    "RULES UPSERT ALL ITERATE (2) UNTIL (d) (e) ORDER")

/-- A clause that brings in a query. -/
def referenceState : State :=
  .ofSource "MODEL UNIQUE SINGLE REFERENCE REFERENCE r ON (a) b"

/-- What stands behind the clause, or whether it is refused as unsupported. -/
def clauseEnd : EStateM.Result ParseError State Unit → Token.Kind ⊕ Bool
  | .ok _ t => .inl t.cursor.kind
  | .error e _ => .inr e.isUnsupported

theorem skipModel_exact_modelState :
    model.Heads modelState.cursor.tokens ∧
    (∃ (T : Tree) (c : Cursor), model.Derives T ∧ modelState.cursor.tokens = T.tokens ++ c.tokens ∧
      c.kind = .keyword .order) ∧
    (referenceModel.Heads referenceState.cursor.tokens ∨ ∃ T rest, upToPartition.Derives T ∧
      referenceState.cursor.tokens = T.tokens ++ rest ∧ ∃ u ∈ rest.head?, u.kind ≠ .leftParen) := by
  obtain ⟨hstart, hend⟩ : modelState.cursor.kind = .keyword .model ∧
      clauseEnd (skipModel modelState) = .inl (.keyword .order) := by
    rw [modelState, State.ofSource_of_chars _ (String.ofList_append ..).symm]
    decide +kernel
  obtain ⟨hstart', hrefused⟩ : referenceState.cursor.kind = .keyword .model ∧
      clauseEnd (skipModel referenceState) = .inr true := by
    rw [referenceState, State.ofSource_of_chars _ rfl]
    decide +kernel
  have hmodel := skipModel_exact modelState (State.complete_ofSource _) hstart
  have hreference := skipModel_exact referenceState (State.complete_ofSource _) hstart'
  cases ht : skipModel modelState with
  | error e t =>
    rw [ht] at hend
    cases hend
  | ok a t =>
    rw [ht] at hend
    obtain ⟨T, c, hT, htokens, -, rfl⟩ := hmodel.2.2.1 t ht
    refine ⟨hmodel.1.1 ⟨_, ht⟩, ⟨T, c, hT, htokens, Sum.inl.inj hend⟩, ?_⟩
    cases he : skipModel referenceState with
    | ok a t =>
      rw [he] at hrefused
      cases hrefused
    | error e t =>
      rw [he] at hrefused
      exact (hreference.2.2.2 e t he).1.1 (Sum.inr.inj hrefused)

end Grammar

end SelectRouting
