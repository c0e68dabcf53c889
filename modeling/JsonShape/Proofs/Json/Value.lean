import JsonShape.Proofs.Entries
import JsonShape.Json.Value
import JsonShape.Shape.Basic
/-!
# JsonShape.Proofs.Json.Value

The structure of JSON values.

* `Json.Value.kind`: the kind of a value, truth values and numbers told apart.
* `Json.Value.WellFormed`: no object repeats a key, at any depth.
* `Json.Value.Keyed`: moreover all keys satisfy a condition.
* `Json.Value.At`: the parts of a value along a path of keys and array elements.
* `Json.Value.items`, `Json.Value.field?`: the parts that one step leads to.
-/

namespace JsonShape

inductive Kind where
  | scalar (k : Scalar)
  | array
  | object
  deriving DecidableEq

/-- A step into a value: to the field of a key, or to some element of an array. -/
inductive Step where
  | key (k : Text)
  | item
  deriving DecidableEq

namespace Json.Value

@[induction_eliminator]
theorem ind {motive : Value → Prop} (null : motive .null) (bool : ∀ b, motive (.bool b))
    (int : ∀ n, motive (.int n)) (real : ∀ x, motive (.real x)) (string : ∀ s, motive (.string s))
    (array : ∀ vs, (∀ v ∈ vs, motive v) → motive (.array vs))
    (object : ∀ fs, (∀ f ∈ fs, motive f.2) → motive (.object fs)) (v : Value) : motive v :=
  Value.rec (motive_1 := motive) (motive_2 := fun vs => ∀ v ∈ vs, motive v)
    (motive_3 := fun fs => ∀ f ∈ fs, motive f.2) (motive_4 := fun f => motive f.2)
    null bool int real string array object
    (fun _ h => nomatch h)
    (fun _ _ hv hvs _ h => match h with
      | .head _ => hv
      | .tail _ h => hvs _ h)
    (fun _ h => nomatch h)
    (fun _ _ hf hfs _ h => match h with
      | .head _ => hf
      | .tail _ h => hfs _ h)
    (fun _ _ h => h) v

def kind : Value → Kind
  | .null => .scalar .null
  | .bool _ => .scalar .bool
  | .int _ => .scalar .number
  | .real _ => .scalar .number
  | .string _ => .scalar .string
  | .array _ => .array
  | .object _ => .object

theorem kind_eq_array_iff {v : Value} : v.kind = .array ↔ ∃ vs, v = .array vs := by
  cases v <;> simp [kind]

theorem kind_eq_object_iff {v : Value} : v.kind = .object ↔ ∃ fs, v = .object fs := by
  cases v <;> simp [kind]

inductive WellFormed : Value → Prop where
  | scalar {v : Value} {k : Scalar} : v.kind = .scalar k → WellFormed v
  | array {vs : List Value} : (∀ v ∈ vs, WellFormed v) → WellFormed (.array vs)
  | object {fs : List (Text × Value)} :
      Entries.Distinct fs → (∀ f ∈ fs, WellFormed f.2) → WellFormed (.object fs)

theorem wellFormed_array_iff {vs : List Value} :
    (array vs).WellFormed ↔ ∀ v ∈ vs, v.WellFormed := by
  constructor
  · intro h
    cases h with
    | scalar h => cases h
    | array h => exact h
  · exact .array

theorem wellFormed_object_iff {fs : List (Text × Value)} :
    (object fs).WellFormed ↔ Entries.Distinct fs ∧ ∀ f ∈ fs, f.2.WellFormed := by
  constructor
  · intro h
    cases h with
    | scalar h => cases h
    | object hd hfs => exact ⟨hd, hfs⟩
  · rintro ⟨hd, hfs⟩
    exact .object hd hfs

/-- No object repeats a key, and all keys satisfy `K`, at any depth. -/
inductive Keyed (K : Text → Prop) : Value → Prop where
  | scalar {v : Value} {k : Scalar} : v.kind = .scalar k → Keyed K v
  | array {vs : List Value} : (∀ v ∈ vs, Keyed K v) → Keyed K (.array vs)
  | object {fs : List (Text × Value)} : Entries.Distinct fs → (∀ f ∈ fs, K f.1) →
      (∀ f ∈ fs, Keyed K f.2) → Keyed K (.object fs)

theorem Keyed.wellFormed {K : Text → Prop} {v : Value} (h : v.Keyed K) : v.WellFormed := by
  induction h with
  | scalar h => exact .scalar h
  | array _ ih => exact .array ih
  | object hd _ _ ih => exact .object hd ih

theorem keyed_array_iff {K : Text → Prop} {vs : List Value} :
    (array vs).Keyed K ↔ ∀ v ∈ vs, v.Keyed K := by
  constructor
  · intro h
    cases h with
    | scalar h => cases h
    | array h => exact h
  · exact .array

theorem keyed_object_iff {K : Text → Prop} {fs : List (Text × Value)} :
    (object fs).Keyed K ↔ Entries.Distinct fs ∧ ∀ f ∈ fs, K f.1 ∧ f.2.Keyed K := by
  constructor
  · intro h
    cases h with
    | scalar h => cases h
    | object hd hkeys hfs => exact ⟨hd, fun f hf => ⟨hkeys f hf, hfs f hf⟩⟩
  · rintro ⟨hd, hfs⟩
    exact .object hd (fun f hf => (hfs f hf).1) fun f hf => (hfs f hf).2

/-- `At v path w`: `path` leads from `v` to `w`, among other parts if it passes arrays. -/
inductive At : Value → List Step → Value → Prop where
  | here (v : Value) : At v [] v
  | item {vs : List Value} {v w : Value} {path : List Step} :
      v ∈ vs → At v path w → At (.array vs) (.item :: path) w
  | key {fs : List (Text × Value)} {k : Text} {v w : Value} {path : List Step} :
      Entries.get? k fs = some v → At v path w → At (.object fs) (.key k :: path) w

theorem at_of_scalar {v w : Value} {path : List Step} {k : Scalar} (hv : v.kind = .scalar k)
    (h : v.At path w) : path = [] ∧ w = v := by
  cases h with
  | here => exact ⟨rfl, rfl⟩
  | item => cases hv
  | key => cases hv

/-! ## One step -/

/-- The elements of an array; other values have none. -/
def items : Value → List Value
  | .array vs => vs
  | _ => []

/-- The keys of an object; other values have none. -/
def keys : Value → List Text
  | .object fs => Entries.keys fs
  | _ => []

/-- What an object has under a key. -/
def field? (key : Text) : Value → Option Value
  | .object fs => Entries.get? key fs
  | _ => none

theorem exists_field?_eq_some_iff {key : Text} {v : Value} :
    (∃ u, v.field? key = some u) ↔ key ∈ v.keys := by
  cases v with
  | object fs => exact Entries.exists_get?_eq_some_iff
  | _ => simp [field?, keys]

theorem at_nil_iff {v w : Value} : v.At [] w ↔ v = w := by
  constructor
  · intro h
    cases h
    rfl
  · rintro rfl
    exact .here v

theorem at_item_iff {v w : Value} {path : List Step} :
    v.At (.item :: path) w ↔ ∃ u ∈ v.items, u.At path w := by
  constructor
  · intro h
    cases h with
    | item hu h => exact ⟨_, hu, h⟩
  · rintro ⟨u, hu, h⟩
    cases v with
    | array vs => exact .item hu h
    | _ => cases hu

theorem at_key_iff {v w : Value} {key : Text} {path : List Step} :
    v.At (.key key :: path) w ↔ ∃ u, v.field? key = some u ∧ u.At path w := by
  constructor
  · intro h
    cases h with
    | key hu h => exact ⟨_, hu, h⟩
  · rintro ⟨u, hu, h⟩
    cases v with
    | object fs => exact .key hu h
    | _ => cases hu

theorem at_append_iff {v w : Value} {path rest : List Step} :
    v.At (path ++ rest) w ↔ ∃ u, v.At path u ∧ u.At rest w := by
  induction path generalizing v with
  | nil => simp [at_nil_iff]
  | cons step path ih =>
    rw [List.cons_append]
    cases step with
    | item =>
      simp only [at_item_iff, ih]
      constructor
      · rintro ⟨x, hx, u, hu, h⟩
        exact ⟨u, ⟨x, hx, hu⟩, h⟩
      · rintro ⟨u, ⟨x, hx, hu⟩, h⟩
        exact ⟨x, hx, u, hu, h⟩
    | key k =>
      simp only [at_key_iff, ih]
      constructor
      · rintro ⟨x, hx, u, hu, h⟩
        exact ⟨u, ⟨x, hx, hu⟩, h⟩
      · rintro ⟨u, ⟨x, hx, hu⟩, h⟩
        exact ⟨x, hx, u, hu, h⟩

end Json.Value

end JsonShape
