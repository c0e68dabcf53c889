import JsonShape.Proofs.Shape.Absence
import JsonShape.Proofs.TypeScript.Expression
/-!
# JsonShape.Proofs.TypeScript.Meaning

What types mean: those of shapes, and those that are read from declarations.

* `TypeScript.Alternative`: a type is the list of its alternatives; one is a primitive type, an array
  or a record.
* `TypeScript.groundName`, `TypeScript.keyName`: what ground kinds and keys are called in a type.
* `Shape.meaning`: the type of a shape.
* `TypeScript.Means`: the type of an expression, every name replaced by the record it is declared as.
* `TypeScript.Means.unique`: names that are declared once leave one meaning.
-/

namespace JsonShape

namespace TypeScript

/-- Alternatives in alternatives are taken in; the fields of a record are its properties in order,
with whether they may be missing. -/
inductive Alternative where
  | primitive (name : Text)
  | array (items : List Alternative)
  | record (fields : List (Text × Bool × List Alternative))

/-- The types that need no declaration. -/
def primitives : List Text := ["unknown", "undefined", "null", "number", "boolean", "string"]

/-- The primitive types of the ground kinds. -/
def groundName : Scalar → Text
  | .null => "null"
  | .bool => "boolean"
  | .number => "number"
  | .string => "string"

/-- How a record writes a key: as it is if it is a bare name, also with a line feed behind it, and as a
string literal if not. -/
def keyName (key : Text) : Text :=
  if Text.isBareName key || key.getLast? = some .newline && Text.isBareName key.dropLast then key
  else Json.StringLiteral.write key

end TypeScript

open TypeScript

/-! ## Shapes -/

namespace Shape

mutual

/-- What may be missing has `undefined` as its last alternative; the fields of a record say so
themselves, and have the type of what is present. -/
def meaning (s : Shape) : List Alternative :=
  match s with
  | .unknown => [.primitive "unknown"]
  | .scalar k => [.primitive (groundName k)]
  | .optional s => meaning s ++ [.primitive "undefined"]
  | .array s => [.array (meaning s)]
  | .union ms =>
    if _ : (Shape.union ms).strip.optional = true then
      meaning (Shape.union ms).strip.present ++ [.primitive "undefined"]
    else memberMeanings ms
  | .object fs => [.record (fieldMeanings fs)]
termination_by 2 * s.size
decreasing_by
  · simp only [Shape.size]; omega
  · simp only [Shape.size]; omega
  · have := Shape.size_strip_lt_of_optional (s := .union ms) (by assumption)
    omega
  · simp only [Shape.size]; omega
  · simp only [Shape.size]; omega

def memberMeanings (ms : List Shape) : List Alternative :=
  match ms with
  | [] => []
  | m :: ms => meaning m ++ memberMeanings ms
termination_by 2 * Shape.sizeMembers ms + 1
decreasing_by
  · simp only [Shape.sizeMembers]; omega
  · have := m.size_pos
    simp only [Shape.sizeMembers]; omega

def fieldMeanings (fs : List (Text × Shape)) : List (Text × Bool × List Alternative) :=
  match fs with
  | [] => []
  | (key, s) :: fs =>
    (keyName key, s.strip.optional, meaning s.strip.present) :: fieldMeanings fs
termination_by 2 * Shape.sizeFields fs + 1
decreasing_by
  · have := s.size_strip_le
    simp only [Shape.sizeFields]; omega
  · have := s.size_pos
    simp only [Shape.sizeFields]; omega

end

/-- No union, at any depth, is without members. -/
inductive Populated : Shape → Prop where
  | unknown : Populated .unknown
  | scalar (k : Scalar) : Populated (.scalar k)
  | optional {s : Shape} : Populated s → Populated (.optional s)
  | array {s : Shape} : Populated s → Populated (.array s)
  | object {fs : List (Text × Shape)} : (∀ f ∈ fs, Populated f.2) → Populated (.object fs)
  | union {ms : List Shape} : ms ≠ [] → (∀ m ∈ ms, Populated m) → Populated (.union ms)

theorem populated_optional_iff {s : Shape} : (optional s).Populated ↔ s.Populated :=
  ⟨fun | .optional h => h, .optional⟩

theorem populated_array_iff {s : Shape} : (array s).Populated ↔ s.Populated :=
  ⟨fun | .array h => h, .array⟩

theorem populated_object_iff {fs : List (Text × Shape)} :
    (object fs).Populated ↔ ∀ f ∈ fs, f.2.Populated :=
  ⟨fun | .object h => h, .object⟩

theorem populated_union_iff {ms : List Shape} :
    (union ms).Populated ↔ ms ≠ [] ∧ ∀ m ∈ ms, m.Populated :=
  ⟨fun | .union hne h => ⟨hne, h⟩, fun h => .union h.1 h.2⟩

theorem populated_unwrap {s : Shape} (hs : s.Populated) : s.unwrap.Populated := by
  cases s with
  | optional s => exact populated_optional_iff.1 hs
  | _ => exact hs

theorem populated_alternatives {s : Shape} (hs : s.Populated) :
    s.alternatives ≠ [] ∧ ∀ m ∈ s.alternatives, m.Populated := by
  cases s with
  | union ms => exact populated_union_iff.1 hs
  | _ => exact ⟨List.cons_ne_nil _ _, fun m hm => List.mem_singleton.1 hm ▸ hs⟩

theorem populated_unionOf {ss : List Shape} (hss : ∀ s ∈ ss, s.Populated)
    (hlen : 2 ≤ (unionOf ss).alternatives.length) : (unionOf ss).Populated := by
  refine populated_union_iff.2 ⟨?_, fun m hm => ?_⟩
  · intro hnil
    simp [unionOf, alternatives, hnil] at hlen
  · obtain ⟨s, hs, hm⟩ := List.mem_flatMap.1 (mem_of_mem_firsts hm)
    exact (populated_alternatives (hss s hs)).2 m hm

theorem keptByStrip_populated : KeptByStrip Populated where
  unwrap := populated_unwrap
  alternatives := populated_alternatives
  unionOf := populated_unionOf

theorem populated_strip {s : Shape} (hs : s.Populated) : s.strip.present.Populated :=
  keptByStrip_populated.strip hs

end Shape

/-! ## Declarations -/

namespace TypeScript

mutual

/-- The names in an expression, in order. -/
def Expr.names : Expr → List Text
  | .name n => [n]
  | .array e => e.names
  | .union es => Expr.namesOf es

def Expr.namesOf : List Expr → List Text
  | [] => []
  | e :: es => e.names ++ Expr.namesOf es

end

section Declared

variable (declared : List Interface)

mutual

/-- A name means the primitive type or the record that is declared under it. -/
inductive Means : Expr → List Alternative → Prop where
  | primitive {n : Text} : n ∈ primitives → Means (.name n) [.primitive n]
  | interface {n : Text} {i : Interface} {fs : List (Text × Bool × List Alternative)} :
      i ∈ declared → i.name = n → MeansFields i.fields fs → Means (.name n) [.record fs]
  | array {e : Expr} {x : List Alternative} : Means e x → Means (.array e) [.array x]
  | union {es : List Expr} {x : List Alternative} : MeansAll es x → Means (.union es) x

/-- All alternatives of some expressions, in order. -/
inductive MeansAll : List Expr → List Alternative → Prop where
  | nil : MeansAll [] []
  | cons {e : Expr} {es : List Expr} {x y : List Alternative} :
      Means e x → MeansAll es y → MeansAll (e :: es) (x ++ y)

/-- The types of fields are read from their texts. -/
inductive MeansFields : List Field → List (Text × Bool × List Alternative) → Prop where
  | nil : MeansFields [] []
  | cons {f : Field} {fs : List Field} {e : Expr} {x : List Alternative}
      {us : List (Text × Bool × List Alternative)} :
      Expr.parse f.type = some e → Means e x → MeansFields fs us →
      MeansFields (f :: fs) ((f.name, f.optional, x) :: us)

end

end Declared

variable {declared : List Interface}

/-! ### One meaning -/

/-- Interfaces of distinct names, none of which is that of a primitive type. -/
structure Unambiguous (declared : List Interface) : Prop where
  distinct : (declared.map Interface.name).Nodup
  not_primitive : ∀ i ∈ declared, i.name ∉ primitives

theorem Unambiguous.eq_of_name_eq (hd : Unambiguous declared) {i j : Interface} (hi : i ∈ declared)
    (hj : j ∈ declared) (h : i.name = j.name) : i = j := by
  have hdistinct := hd.distinct
  clear hd
  induction declared with
  | nil => cases hi
  | cons d ds ih =>
    rw [List.map_cons, List.nodup_cons] at hdistinct
    rcases List.mem_cons.1 hi with rfl | hi' <;> rcases List.mem_cons.1 hj with rfl | hj'
    · rfl
    · exact absurd (List.mem_map.2 ⟨j, hj', h.symm⟩) hdistinct.1
    · exact absurd (List.mem_map.2 ⟨i, hi', h⟩) hdistinct.1
    · exact ih hi' hj' hdistinct.2

mutual

theorem Means.unique (hd : Unambiguous declared) {e : Expr} {x y : List Alternative} :
    Means declared e x → Means declared e y → x = y
  | .primitive hn, .primitive _ => rfl
  | .primitive hn, .interface hi rfl _ => absurd hn (hd.not_primitive _ hi)
  | .interface hi rfl _, .primitive hn => absurd hn (hd.not_primitive _ hi)
  | .interface hi hin hfs, .interface hj hjn hgs => by
    cases hd.eq_of_name_eq hi hj (hin.trans hjn.symm)
    rw [hfs.unique hd hgs]
  | .array h, .array h' => by rw [h.unique hd h']
  | .union h, .union h' => h.unique hd h'

theorem MeansAll.unique (hd : Unambiguous declared) {es : List Expr} {x y : List Alternative} :
    MeansAll declared es x → MeansAll declared es y → x = y
  | .nil, .nil => rfl
  | .cons h hs, .cons h' hs' => by rw [h.unique hd h', hs.unique hd hs']

theorem MeansFields.unique (hd : Unambiguous declared) {fs : List Field}
    {us vs : List (Text × Bool × List Alternative)} :
    MeansFields declared fs us → MeansFields declared fs vs → us = vs
  | .nil, .nil => rfl
  | .cons hparse h hs, .cons hparse' h' hs' => by
    cases hparse.symm.trans hparse'
    rw [h.unique hd h', hs.unique hd hs']

end

/-! ### Names -/

mutual

theorem Means.mem_names {e : Expr} {x : List Alternative} :
    Means declared e x → ∀ n ∈ e.names, n ∈ primitives ∨ n ∈ declared.map Interface.name
  | .primitive hn, n, hmem => by
    rw [Expr.names, List.mem_singleton] at hmem
    exact .inl (hmem ▸ hn)
  | .interface hi hin _, n, hmem => by
    rw [Expr.names, List.mem_singleton] at hmem
    exact .inr (List.mem_map.2 ⟨_, hi, hin.trans hmem.symm⟩)
  | .array h, n, hmem => h.mem_names n (by rwa [Expr.names] at hmem)
  | .union h, n, hmem => h.mem_names n (by rwa [Expr.names] at hmem)

theorem MeansAll.mem_names {es : List Expr} {x : List Alternative} :
    MeansAll declared es x →
      ∀ n ∈ Expr.namesOf es, n ∈ primitives ∨ n ∈ declared.map Interface.name
  | .nil, n, hmem => by
    rw [Expr.namesOf] at hmem
    cases hmem
  | .cons h hs, n, hmem => by
    rw [Expr.namesOf, List.mem_append] at hmem
    exact hmem.elim (h.mem_names n) (hs.mem_names n)

end

theorem MeansAll.append {es fs : List Expr} {x y : List Alternative} (hs : MeansAll declared es x)
    (ht : MeansAll declared fs y) : MeansAll declared (es ++ fs) (x ++ y) := by
  induction es generalizing x with
  | nil =>
    cases hs
    exact ht
  | cons e es ih =>
    cases hs with
    | cons h hs =>
      rw [List.cons_append, List.append_assoc]
      exact .cons h (ih hs)

theorem meansAll_singleton_iff {e : Expr} {x : List Alternative} :
    MeansAll declared [e] x ↔ Means declared e x := by
  constructor
  · intro h
    cases h with
    | cons h hs =>
      cases hs
      rwa [List.append_nil]
  · intro h
    simpa using MeansAll.cons h .nil

/-- Alternatives mean the same together as one union. -/
theorem means_group {es : List Expr} {e : Expr} {x : List Alternative}
    (h : MeansAll declared (es ++ [e]) x) : Means declared (.group es e) x := by
  rw [Expr.group]
  split
  · rename_i hes
    rw [List.isEmpty_iff.1 hes] at h
    exact meansAll_singleton_iff.1 h
  · exact .union h

end TypeScript

end JsonShape
