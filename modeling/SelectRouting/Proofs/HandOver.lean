import SelectRouting.HandOver
import SelectRouting.Proofs.Json.Record
/-!
# What is handed over is read back

Every value that the routing of statements receives, and every entry of a rule, is what its text is read as, so that two
values have the same text only if they are the same (`handOver_faithful`).  Numbers have 64 bits, which is all that a
reader takes, and floats are left out, since they are read fast rather than exactly.
-/
namespace SelectRouting

open Json (record optional list ReadBack Faithful)

namespace Span

/-- Both offsets have 64 bits. -/
def InRange (s : Span) : Prop :=
  Json.Word s.start ∧ Json.Word s.stop

theorem readBack {s : Span} (h : s.InRange) : ReadBack toJson ofJson? s where
  plain := .object (by simp [Json.plain_ofNat])
  value := by
    have hfields : (toJson s).fields? ["start", "end"] = some [.present (.ofNat s.start), .present (.ofNat s.stop)] :=
      Json.fields?_record rfl
    simp [ofJson?, hfields, Json.Field.required, Json.nat?_ofNat h.1, Json.nat?_ofNat h.2]

end Span

namespace Limit

namespace Value

def InRange : Value → Prop
  | .literal n | .parameter n => Json.Word n

theorem readBack : ∀ {v : Value}, v.InRange → ReadBack toJson ofJson? v
  | .literal n, h => ⟨Json.plain_choice _ (Json.plain_ofNat n), by simp [toJson, ofJson?, Json.nat?_ofNat h]⟩
  | .parameter n, h => ⟨Json.plain_choice _ (Json.plain_ofNat n), by simp [toJson, ofJson?, Json.nat?_ofNat h]⟩

theorem toJson_ne_null : ∀ v : Value, toJson v ≠ .null
  | .literal _, h | .parameter _, h => nomatch h

end Value

def InRange (l : Limit) : Prop :=
  (∀ v ∈ l.offset, v.InRange) ∧ (∀ v ∈ l.rowCount, v.InRange)

theorem plain_optional {o : Option Value} (h : ∀ v ∈ o, v.InRange) : (optional Value.toJson o).Plain := by
  cases o with
  | none => exact .null
  | some v => exact (Value.readBack (h v rfl)).plain

theorem readBack {l : Limit} (h : l.InRange) : ReadBack toJson ofJson? l where
  plain := .object (by simp [plain_optional h.1, plain_optional h.2, Json.Plain.bool])
  value := by
    have hfields : (toJson l).fields? ["offset", "row_count", "offset_before_row_count"] =
        some [.present (optional Value.toJson l.offset), .present (optional Value.toJson l.rowCount),
          .present (.bool l.offsetFirst)] := Json.fields?_record rfl
    have hoffset := Json.Field.nullable_optional Value.toJson_ne_null fun v hv => (Value.readBack (h.1 v hv)).value
    have hrows := Json.Field.nullable_optional Value.toJson_ne_null fun v hv => (Value.readBack (h.2 v hv)).value
    simp [ofJson?, hfields, hoffset, hrows, Json.Field.required, Json.bool?]

end Limit

namespace Literal

/-- An integer has 64 bits, and floats are left out. -/
def InRange : Literal → Prop
  | .integer n => Json.SignedWord n
  | .float _ => False
  | .string _ | .boolean _ | .null => True

theorem readBack : ∀ {v : Literal}, v.InRange → ReadBack toJson ofJson? v
  | .integer n, h =>
    ⟨Json.plain_choice _ (.integer n), by simp [toJson, ofJson?, Json.int?_ofInt h]⟩
  | .string s, _ => ⟨Json.plain_choice _ (.string s), by simp [toJson, ofJson?]⟩
  | .boolean b, _ => ⟨Json.plain_choice _ (.bool b), by simp [toJson, ofJson?, Json.bool?]⟩
  | .null, _ => ⟨.string _, by simp [toJson, ofJson?, Json.isBare]⟩

end Literal

namespace Condition

theorem Column.readBack (c : Column) : ReadBack Column.toJson Column.ofJson? c where
  plain := .object (by simp [Json.Plain.string])
  value := by
    have hfields : (Column.toJson c).fields? ["table", "name"] =
        some [.present (.ofString c.table), .present (.ofString c.name)] := Json.fields?_record rfl
    simp [Column.ofJson?, hfields, Json.Field.required]

theorem Relation.readBack : ∀ r : Relation, ReadBack Relation.toJson Relation.ofJson? r
  | .equal | .oneOf | .between => ⟨.string _, by simp [Relation.toJson, Relation.ofJson?, Json.isBare]⟩

namespace Value

def InRange : Value → Prop
  | .literal v => v.InRange
  | .parameter n => Json.Word n

theorem readBack : ∀ {v : Value}, v.InRange → ReadBack toJson ofJson? v
  | .literal v, h =>
    ⟨Json.plain_choice _ (Literal.readBack h).plain, by simp [toJson, ofJson?, (Literal.readBack h).value]⟩
  | .parameter n, h => ⟨Json.plain_choice _ (Json.plain_ofNat n), by simp [toJson, ofJson?, Json.nat?_ofNat h]⟩

end Value

def InRange (c : Condition) : Prop :=
  ∀ v ∈ c.values, v.InRange

theorem readBack {c : Condition} (h : c.InRange) : ReadBack toJson ofJson? c where
  plain := .object (by
    simp [(Column.readBack c.column).plain, (Relation.readBack c.relation).plain,
      (ReadBack.list fun v hv => Value.readBack (h v hv)).plain])
  value := by
    have hfields : (toJson c).fields? ["column", "operator", "values"] =
        some [.present c.column.toJson, .present c.relation.toJson, .present (list Value.toJson c.values)] :=
      Json.fields?_record rfl
    have hvalues := (ReadBack.list fun v hv => Value.readBack (h v hv)).value
    simp [ofJson?, hfields, Json.Field.required, (Column.readBack c.column).value, (Relation.readBack c.relation).value,
      hvalues]

end Condition

/-! ## Edits -/

namespace Edit

def InRange : Edit → Prop
  | .table start _ => Json.Word start
  | .rowCount start n | .offset start n => Json.Word start ∧ Json.Word n

/-- The kind is found at the front, and nothing else is taken out. -/
theorem kind?_record {kind : String} {fields : List (String × Json)} (h : ∀ f ∈ fields, f.1 ≠ "type") :
    kind? (record (("type", .ofString kind) :: fields)) = some (kind, record fields) := by
  have hother : ∀ f ∈ fields, (Json.Units.ofString f.1 == Json.Units.ofString "type") = false := fun f hf =>
    beq_false_of_ne fun heq => h f hf (Json.Units.ofString_inj.1 heq)
  have hnone : (fields.map fun f => (Json.Units.ofString f.1, f.2)).filter (·.1 == .ofString "type") = [] :=
    List.filter_eq_nil_iff.2 (List.forall_mem_map.2 fun f hf => by simp [hother f hf])
  have hall : (fields.map fun f => (Json.Units.ofString f.1, f.2)).filter (!·.1 == .ofString "type") =
      fields.map fun f => (Json.Units.ofString f.1, f.2) :=
    List.filter_eq_self.2 (List.forall_mem_map.2 fun f hf => by simp [hother f hf])
  simp [record, kind?, hnone, hall]

theorem placed?_record {α : Type} {name : String} {read : Json → Option α} {start : Nat} {v : Json} {a : α}
    (hname : name ≠ "begin") (hstart : Json.Word start) (hread : read v = some a) :
    placed? name read (record [("begin", .ofNat start), (name, v)]) = some (start, a) := by
  have hnames : Json.noRepeats ["begin", name] = true := by simp [Json.noRepeats, hname.symm]
  have hfields : (record [("begin", .ofNat start), (name, v)]).fields? ["begin", name] =
      some [.present (.ofNat start), .present v] := Json.fields?_record hnames
  simp [placed?, hfields, Json.Field.required, Json.nat?_ofNat hstart, hread]

section
variable {kind name : String} {start : Nat} {v : Json}

theorem plain_placed (hv : v.Plain) :
    (record [("type", .ofString kind), ("begin", .ofNat start), (name, v)]).Plain :=
  .object (by simp [Json.Plain.string, Json.plain_ofNat, hv])

theorem sound_placed (hstart : Json.Word start) (hv : v.sound 126 = true) :
    (record [("type", .ofString kind), ("begin", .ofNat start), (name, v)]).sound depthLimit = true :=
  Json.sound_record (by simp [Json.sound_ofString, Json.sound_ofNat _ hstart, hv])

end

theorem readBack : ∀ {e : Edit}, e.InRange → ReadBack toJson ofJson? e
  | .table start written, h => by
    refine ⟨plain_placed (.string written), ?_⟩
    rw [ofJson?, toJson, sound_placed h (Json.sound_ofString _ _)]
    simp [kind?_record, placed?_record _ h (Json.text?_ofString written)]
  | .rowCount start n, h => by
    refine ⟨plain_placed (.integer n), ?_⟩
    rw [ofJson?, toJson, sound_placed h.1 (Json.sound_ofNat _ h.2)]
    simp [kind?_record, placed?_record _ h.1 (Json.nat?_ofNat h.2)]
  | .offset start n, h => by
    refine ⟨plain_placed (.integer n), ?_⟩
    rw [ofJson?, toJson, sound_placed h.1 (Json.sound_ofNat _ h.2)]
    simp [kind?_record, placed?_record _ h.1 (Json.nat?_ofNat h.2)]

end Edit

/-! ## Rules -/

namespace TableRule

theorem readBack (t : TableRule) : ReadBack toJson ofJson? t where
  plain := by
    have hlist : ∀ ss : List String, (list .ofString ss).Plain := fun ss => Json.plain_list fun s _ => .string s
    exact .object (by simp [Json.Plain.string, hlist])
  value := by
    have hfields : (toJson t).fields? ["logic_table", "sharding_columns", "actual_tables"] =
        some [.present (.ofString t.name), .present (list .ofString t.columns), .present (list .ofString t.actual)] :=
      Json.fields?_record rfl
    have hlist : ∀ ss : List String, Json.list? Json.text? (list .ofString ss) = some ss := fun ss =>
      Json.list?_list fun s _ => Json.text?_ofString s
    simp [ofJson?, hfields, Json.Field.required, Json.Field.defaulted, hlist]

end TableRule

/-! ## All types -/

/-- **What is handed over is read back.**  A value of any of the types is what its text is read as, and different values
of one type have different texts. -/
theorem handOver_faithful :
    Faithful Span.toJson Span.ofJson? Span.InRange ∧
    Faithful Limit.Value.toJson Limit.Value.ofJson? Limit.Value.InRange ∧
    Faithful Limit.toJson Limit.ofJson? Limit.InRange ∧
    Faithful Edit.toJson Edit.ofJson? Edit.InRange ∧
    Faithful Literal.toJson Literal.ofJson? Literal.InRange ∧
    Faithful Condition.Column.toJson Condition.Column.ofJson? (fun _ => True) ∧
    Faithful Condition.Value.toJson Condition.Value.ofJson? Condition.Value.InRange ∧
    Faithful Condition.toJson Condition.ofJson? Condition.InRange ∧
    Faithful TableRule.toJson TableRule.ofJson? (fun _ => True) :=
  ⟨.of_readBack fun _ => Span.readBack, .of_readBack fun _ => Limit.Value.readBack, .of_readBack fun _ => Limit.readBack,
    .of_readBack fun _ => Edit.readBack, .of_readBack fun _ => Literal.readBack,
    .of_readBack fun c _ => Condition.Column.readBack c, .of_readBack fun _ => Condition.Value.readBack,
    .of_readBack fun _ => Condition.readBack, .of_readBack fun t _ => TableRule.readBack t⟩

/-- The bounds themselves are in range.  A text with a control, a character beyond U+FFFF and an escape spelled out is read
back; a null among the values of a condition stays a constant; and an offset is not taken for a row count of the same
number. -/
theorem handOver_faithful_at_bounds :
    (Json.parse? (Literal.integer (-2 ^ 63)).toJson.text).bind Literal.ofJson? = some (.integer (-2 ^ 63)) ∧
    (Json.parse? (Literal.string "\x22\x01𝄞\\ud834").toJson.text).bind Literal.ofJson? =
      some (.string "\x22\x01𝄞\\ud834") ∧
    (Json.parse? (Condition.mk ⟨"t", "id"⟩ .oneOf [.literal .null, .parameter 0]).toJson.text).bind Condition.ofJson? =
      some ⟨⟨"t", "id"⟩, .oneOf, [.literal .null, .parameter 0]⟩ ∧
    (Edit.offset 3 (2 ^ 64 - 1)).toJson.text ≠ (Edit.rowCount 3 (2 ^ 64 - 1)).toJson.text := by
  obtain ⟨-, -, -, hedit, hliteral, -, -, hcondition, -⟩ := handOver_faithful
  have hbound : Json.Word 3 ∧ Json.Word (2 ^ 64 - 1) := ⟨by decide, by decide⟩
  have hvalues : ∀ v ∈ [Condition.Value.literal .null, .parameter 0], v.InRange :=
    List.forall_mem_cons.2 ⟨trivial, List.forall_mem_singleton.2 (by decide : Json.Word 0)⟩
  exact ⟨hliteral.read _ ⟨by decide, by decide⟩, hliteral.read _ trivial, hcondition.read _ hvalues,
    hedit.distinct _ _ hbound hbound nofun⟩

end SelectRouting
