import SelectRouting.Grammar.ForClause
import SelectRouting.Grammar.TableSuffix
import SelectRouting.Proofs.Form.Model
/-!
# The forms of the clauses that are skipped

What Oracle and SQL Server put behind a table, in front of a numbering and behind `FOR XML` is skipped from its keyword on.
Each such clause has a form, and the parser that skips it recognizes the form, if the clause is there at all.  Together with
the model of Oracle these are all forms that a dialect does not look into (`Dialect.skippedForms`).
-/
namespace SelectRouting

/-! ## The forms -/

namespace Form

/-- `SAMPLE [BLOCK] (…) [SEED (…)]`. -/
def sample : Form :=
  .seq (.word [.sample]) (.seq (.optional (.word [.block])) (.seq .region (.optional (.seq (.word [.seed]) .region))))

/-- `FOR (…)`, or `(…) [FOR (…)]`. -/
def partitionKey : Form :=
  .either (.seq (.word [.for]) .region) (.seq .region (.optional (.seq (.word [.for]) .region)))

/-- A partition behind its keyword. -/
def partition (k : Keyword) : Form :=
  .seq (.word [k]) partitionKey

/-- `[INCLUDE NULLS | EXCLUDE NULLS]`. -/
def nullColumns : Form :=
  .optional (.seq (.word [.include, .exclude]) (.word [.nulls]))

/-- `UNPIVOT [INCLUDE NULLS | EXCLUDE NULLS] (…) | PIVOT [XML] (…)`. -/
def pivot : Form :=
  .either (.seq (.word [.unpivot]) (.seq nullColumns .region))
    (.seq (.word [.pivot]) (.seq (.optional (.word [.xml])) .region))

/-- `WITH (…)`. -/
def hint : Form :=
  .seq (.word [.with]) .region

/-- `ROW_NUMBER (…)`. -/
def rowNumber : Form :=
  .seq (.word [.rowNumber]) .region

/-- `RAW | PATH | ROOT | XMLSCHEMA`, with or without `(…)`. -/
def markup : Form :=
  .seq (.word [.raw, .path, .root, .xmlschema]) (.optional .region)

end Form

/-- The forms of the clauses that a dialect does not look into. -/
def Dialect.skippedForms : Dialect → List Form
  | generic => []
  | oracle => [.sample, .partition .partition, .partition .subpartition, .pivot, .model]
  | sqlServer => [.hint, .rowNumber, .markup]

namespace Grammar

open Form

/-! ## The parsers -/

theorem recognizes_skipSample : Recognizes (.optional sample) Never skipSample := by
  unfold skipSample
  simp only [skipKeyword_eq]
  have hseed : Recognizes (.optional (.seq (word [.seed]) region)) Never
      (skipAny [.seed] >>= fun b => if b then skipRegion >>= fun _ => pure () else pure ()) :=
    .clean (.optional (.map .skipRegion))
  exact .clean (.optional (.before (by decide) .skipAny fun _ => .before rfl .skipRegion fun _ => hseed))

theorem recognizes_skipPartitionKey : Recognizes partitionKey Never skipPartitionKey := by
  unfold skipPartitionKey
  simp only [skipKeyword_eq]
  have hextended : Recognizes (.optional (.seq (word [.for]) region)) Never
      (skipAny [.for] >>= fun b => if b then skipRegion >>= fun _ => pure () else pure ()) :=
    .clean (.optional (.map .skipRegion))
  exact .clean (.branch (by decide) (.map .skipRegion) (.before rfl .skipRegion fun _ => hextended))

theorem recognizes_skipPartition (k : Keyword) : Recognizes (.optional (partition k)) Never (skipPartition k) := by
  unfold skipPartition
  simp only [skipKeyword_eq]
  exact .clean (.optional recognizes_skipPartitionKey)

theorem recognizes_skipNullColumns : Recognizes nullColumns Never skipNullColumns :=
  .clean (.optional (.map .expectKeyword))

theorem recognizes_skipPivot : Recognizes (.optional pivot) Never skipPivot := by
  unfold skipPivot
  simp only [skipKeyword_eq]
  have hunpivot : Recognizes (.optional (.seq (word [.unpivot]) (.seq nullColumns region))) Never
      (skipAny [.unpivot] >>= fun b =>
        if b then skipNullColumns >>= fun _ => skipRegion >>= fun _ => pure () else pure ()) :=
    .clean (.optional (.before (by decide) recognizes_skipNullColumns fun _ => .map .skipRegion))
  -- The parser asks for `PIVOT` first.
  have hpivot : Recognizes (.either (.seq (word [.pivot]) (.seq (.optional (word [.xml])) region))
      (.optional (.seq (word [.unpivot]) (.seq nullColumns region)))) Never
      (skipAny [.pivot] >>= fun b => if b then skipAny [.xml] >>= fun _ => skipRegion >>= fun _ => pure () else
        skipAny [.unpivot] >>= fun b =>
          if b then skipNullColumns >>= fun _ => skipRegion >>= fun _ => pure () else pure ()) :=
    .clean (.branch (by decide) (.before (by decide) .skipAny fun _ => .map .skipRegion) hunpivot)
  exact fun s hs => (hpivot s hs).congrForm fun _ _ => exists_greedy_optional

theorem recognizes_skipHint : Recognizes (.optional hint) Never skipHint := by
  unfold skipHint
  simp only [skipKeyword_eq]
  exact .clean (.optional (.map .skipRegion))

theorem recognizes_rowNumber : Recognizes rowNumber Never (expectKeyword .rowNumber >>= fun _ => skipRegion) :=
  .before rfl .expectKeyword fun _ => .skipRegion

theorem recognizes_skipOptionalRegion : Recognizes (.optional region) Never skipOptionalRegion := by
  intro s hs
  have hcheck : check .leftParen s = .ok (s.cursor.kind.alike .leftParen) s := rfl
  unfold skipOptionalRegion
  rw [bind_of_ok hcheck]
  cases hk : s.cursor.kind.alike .leftParen with
  | true =>
    have hregion : Recognizes region Never (skipRegion >>= fun _ => pure ()) := .map .skipRegion
    refine (hregion s hs).left rfl rfl ?_
    exact ⟨.region, List.mem_singleton_self _, s.cursor.current, rfl, Token.Kind.eq_of_alike hk trivial⟩
  | false =>
    refine Recognized.right (f := .region) rfl ?_ (Recognizes.pure s hs)
    rintro ⟨o, ho, t, ⟨⟩, hfits⟩
    rw [List.mem_singleton.1 ho] at hfits
    have hleft : s.cursor.kind = .leftParen := hfits
    rw [hleft] at hk
    cases hk

end Grammar

end SelectRouting
