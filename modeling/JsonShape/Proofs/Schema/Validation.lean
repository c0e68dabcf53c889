import JsonShape.Proofs.Json.Value
import JsonShape.Schema
/-!
# JsonShape.Proofs.Schema.Validation

What it means for a value to be valid under a schema, read off the schema's JSON form keyword by
keyword.

* `Schema.Validates`: the keywords of a node, each on its own; other keywords say nothing.
* `Schema.validates_any`, `Schema.validates_scalar_iff`, `Schema.validates_array_iff`,
  `Schema.validates_object_iff`, `Schema.validates_anyOf_iff`: what this comes to for each schema.
-/

namespace JsonShape

namespace Schema

/-- The name that the keyword `type` has for a kind. -/
def typeName : Kind → Text
  | .scalar .null => "null"
  | .scalar .number => "number"
  | .scalar .bool => "boolean"
  | .scalar .string => "string"
  | .array => "array"
  | .object => "object"

/-- The elements of an array; other values have none. -/
def itemsOf : Json.Value → List Json.Value
  | .array vs => vs
  | _ => []

/-- Whether a value is of the type that `arg` names. -/
def HasType (arg v : Json.Value) : Prop := arg = .string (typeName v.kind)

/-- Whether an object has the keys that `arg` lists. Other values are not asked. -/
def HasKeys : (arg v : Json.Value) → Prop
  | .array names, .object fields => ∀ key, .string key ∈ names → key ∈ Entries.keys fields
  | _, _ => True

mutual

def Validates : (node v : Json.Value) → Prop
  | .object keywords, v => Meets keywords v
  | _, _ => False

def Meets : (keywords : List (Text × Json.Value)) → (v : Json.Value) → Prop
  | [], _ => True
  | (keyword, arg) :: rest, v =>
    (keyword = "type" → HasType arg v) ∧
    (keyword = "items" → ∀ u ∈ itemsOf v, Validates arg u) ∧
    (keyword = "properties" → MeetsProperties arg v) ∧
    (keyword = "required" → HasKeys arg v) ∧
    (keyword = "anyOf" → MeetsBranch arg v) ∧ Meets rest v

/-- Properties constrain the keys that are present. -/
def MeetsProperties : (arg v : Json.Value) → Prop
  | .object properties, v => MeetsEach properties v
  | _, _ => False

def MeetsEach : (properties : List (Text × Json.Value)) → (v : Json.Value) → Prop
  | [], _ => True
  | (key, node) :: rest, v =>
    (∀ u, Entries.get? key (fieldsOf v) = some u → Validates node u) ∧ MeetsEach rest v

def MeetsBranch : (arg v : Json.Value) → Prop
  | .array branches, v => MeetsSome branches v
  | _, _ => False

def MeetsSome : (branches : List Json.Value) → (v : Json.Value) → Prop
  | [], _ => False
  | node :: rest, v => Validates node v ∨ MeetsSome rest v

end

/-! ## Keywords -/

theorem meets_nil (v : Json.Value) : Meets [] v := by
  simp [Meets]

theorem meets_type_iff (arg v : Json.Value) (rest : List (Text × Json.Value)) :
    Meets (("type", arg) :: rest) v ↔ HasType arg v ∧ Meets rest v := by
  simp +decide [Meets]

theorem meets_items_iff (arg v : Json.Value) (rest : List (Text × Json.Value)) :
    Meets (("items", arg) :: rest) v ↔ (∀ u ∈ itemsOf v, Validates arg u) ∧ Meets rest v := by
  simp +decide [Meets]

theorem meets_properties_iff (arg v : Json.Value) (rest : List (Text × Json.Value)) :
    Meets (("properties", arg) :: rest) v ↔ MeetsProperties arg v ∧ Meets rest v := by
  simp +decide [Meets]

theorem meets_required_iff (arg v : Json.Value) (rest : List (Text × Json.Value)) :
    Meets (("required", arg) :: rest) v ↔ HasKeys arg v ∧ Meets rest v := by
  simp +decide [Meets]

theorem meets_anyOf_iff (arg v : Json.Value) (rest : List (Text × Json.Value)) :
    Meets (("anyOf", arg) :: rest) v ↔ MeetsBranch arg v ∧ Meets rest v := by
  simp +decide [Meets]

theorem meetsEach_propertyNodes_iff (ps : List (Text × Schema)) (v : Json.Value) :
    MeetsEach (propertyNodes ps) v ↔
      ∀ p ∈ ps, ∀ u, Entries.get? p.1 (fieldsOf v) = some u → Validates p.2.toNode u := by
  induction ps with
  | nil => simp [propertyNodes, MeetsEach]
  | cons p ps ih =>
    obtain ⟨key, s⟩ := p
    rw [propertyNodes, MeetsEach, ih, List.forall_mem_cons]

theorem meetsSome_branchNodes_iff (ss : List Schema) (v : Json.Value) :
    MeetsSome (branchNodes ss) v ↔ ∃ s ∈ ss, Validates s.toNode v := by
  induction ss with
  | nil => simp [branchNodes, MeetsSome]
  | cons s ss ih => simp [branchNodes, MeetsSome, ih]

theorem hasType_iff (k : Kind) (v : Json.Value) : HasType (.string (typeName k)) v ↔ v.kind = k := by
  have hinj : ∀ k l : Kind, typeName k = typeName l → l = k := by
    intro k l h
    rcases k with (k | k | k | k) | k | k <;> rcases l with (l | l | l | l) | l | l <;>
      first
        | rfl
        | exact absurd h (by decide)
  constructor
  · intro h
    exact hinj _ _ (Json.Value.string.inj h)
  · rintro rfl
    rfl

/-! ## Schemas -/

theorem scalarType_eq (k : Scalar) : scalarType k = typeName (.scalar k) := by
  cases k <;> rfl

theorem validates_any (v : Json.Value) : Validates any.toNode v := by
  rw [toNode, Validates]
  exact meets_nil v

theorem validates_scalar_iff (k : Scalar) (v : Json.Value) :
    Validates (scalar k).toNode v ↔ v.kind = .scalar k := by
  rw [toNode, Validates, scalarType_eq, meets_type_iff, hasType_iff]
  exact and_iff_left (meets_nil v)

theorem validates_array_iff (s : Schema) (v : Json.Value) :
    Validates s.array.toNode v ↔ ∃ vs, v = .array vs ∧ ∀ u ∈ vs, Validates s.toNode u := by
  have htype : HasType (.string "array") v ↔ v.kind = .array := hasType_iff .array v
  rw [toNode, Validates, meets_type_iff, meets_items_iff, htype, Json.Value.kind_eq_array_iff]
  constructor
  · rintro ⟨⟨vs, rfl⟩, h, -⟩
    exact ⟨vs, rfl, h⟩
  · rintro ⟨vs, rfl, h⟩
    exact ⟨⟨vs, rfl⟩, h, meets_nil _⟩

theorem meets_required_unless_empty_iff (required : List Text) (v : Json.Value) :
    Meets (if required.isEmpty then [] else [("required", .array (required.map .string))]) v ↔
      HasKeys (.array (required.map .string)) v := by
  cases required with
  | nil =>
    refine ⟨fun _ => ?_, fun _ => meets_nil v⟩
    cases v with
    | object fs => simp [HasKeys]
    | _ => trivial
  | cons key required =>
    rw [List.isEmpty_cons, if_neg Bool.false_ne_true, meets_required_iff]
    exact and_iff_left (meets_nil v)

theorem validates_object_iff (ps : List (Text × Schema)) (required : List Text) (v : Json.Value) :
    Validates (object ps required).toNode v ↔ ∃ fs, v = .object fs ∧
      (∀ p ∈ ps, ∀ u, Entries.get? p.1 fs = some u → Validates p.2.toNode u) ∧
        ∀ key ∈ required, key ∈ Entries.keys fs := by
  have htype : HasType (.string "object") v ↔ v.kind = .object := hasType_iff .object v
  have hkeys : ∀ fs, HasKeys (.array (required.map .string)) (.object fs) ↔
      ∀ key ∈ required, key ∈ Entries.keys fs := by
    intro fs
    simp [HasKeys]
  rw [toNode, Validates, meets_type_iff, meets_properties_iff, meets_required_unless_empty_iff, htype,
    Json.Value.kind_eq_object_iff, MeetsProperties, meetsEach_propertyNodes_iff]
  constructor
  · rintro ⟨⟨fs, rfl⟩, hps, hrequired⟩
    exact ⟨fs, rfl, hps, (hkeys fs).1 hrequired⟩
  · rintro ⟨fs, rfl, hps, hrequired⟩
    exact ⟨⟨fs, rfl⟩, hps, (hkeys fs).2 hrequired⟩

theorem validates_anyOf_iff (branches : List Schema) (v : Json.Value) :
    Validates (anyOf branches).toNode v ↔ ∃ s ∈ branches, Validates s.toNode v := by
  rw [toNode, Validates, meets_anyOf_iff, MeetsBranch, meetsSome_branchNodes_iff]
  exact and_iff_left (meets_nil v)

end Schema

end JsonShape
