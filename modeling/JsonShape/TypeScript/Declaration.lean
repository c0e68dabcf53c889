import JsonShape.Json.StringLiteral
import JsonShape.Shape.Optional
import JsonShape.TypeScript.Name
/-!
# JsonShape.TypeScript.Declaration

Type expressions and interfaces for shapes. Every object becomes an interface, named after the path
to it; a name that is taken gets a number.

* `TypeScript.freshName`: the first free name of `n`, `n2`, `n3`, ….
* `TypeScript.typeOf`: the type expression of a shape, with the interfaces that it needs. An
  interface stands before those of its fields.
-/

namespace JsonShape

namespace TypeScript

structure Field where
  name : Text
  optional : Bool
  type : Text

structure Interface where
  name : Text
  fields : List Field

/-- What a conversion gives: a result, the interfaces it declares in order, and all names taken. -/
structure Emitted (α : Type) where
  value : α
  interfaces : List Interface
  used : List Text

/-- The name with a number behind it. -/
def numbered (name : Text) (n : Nat) : Text := name ++ Text.ofNat n

/-- The name itself if it is free, else with the least number from 2 on that makes it so. One of
as many numbers as there are names, and one more, does. -/
def freshName (used : List Text) (name : Text) : Text :=
  if used.contains name then
    let numbers := (List.range (used.length + 1)).map (· + 2)
    numbered name ((numbers.find? fun n => !used.contains (numbered name n)).getD 0)
  else name

/-- A key as the name of a property: bare if it can be, else as a string literal. -/
def propertyName (key : Text) : Text :=
  if Text.isPropertyName key then key else Json.StringLiteral.write key

def scalarType : Scalar → Text
  | .null => "null"
  | .number => "number"
  | .bool => "boolean"
  | .string => "string"

/-- What stands between the alternatives of a type. -/
def bar : Text := " | "

def orUndefined (type : Text) : Text := type ++ bar ++ "undefined"

/-- The array of a type; alternatives go into parentheses. -/
def arrayOf (item : Text) : Text :=
  if Text.hasInfix bar item then "(" ++ item ++ ")[]" else item ++ "[]"

mutual

def typeOf (s : Shape) (name : Text) (used : List Text) : Emitted Text :=
  match s with
  | .unknown => ⟨"unknown", [], used⟩
  | .scalar k => ⟨scalarType k, [], used⟩
  | .optional s =>
    let e := typeOf s name used
    { e with value := orUndefined e.value }
  | .array s =>
    let e := typeOf s (name ++ "Item") used
    { e with value := arrayOf e.value }
  | .union ms =>
    if _ : (Shape.union ms).strip.optional = true then
      let e := typeOf (Shape.union ms).strip.present name used
      { e with value := orUndefined e.value }
    else
      let e := typesOf ms name used
      { e with value := Text.join bar e.value }
  | .object fs =>
    let own := freshName used name
    let e := fieldsOf fs name (own :: used)
    ⟨own, ⟨own, e.value⟩ :: e.interfaces, e.used⟩
termination_by 2 * s.size
decreasing_by
  · simp only [Shape.size]; omega
  · simp only [Shape.size]; omega
  · have := Shape.size_strip_lt_of_optional (s := .union ms) (by assumption)
    omega
  · simp only [Shape.size]; omega
  · simp only [Shape.size]; omega

/-- The types of the alternatives of a union, all under one name. -/
def typesOf (ms : List Shape) (name : Text) (used : List Text) : Emitted (List Text) :=
  match ms with
  | [] => ⟨[], [], used⟩
  | m :: ms =>
    let e := typeOf m name used
    let es := typesOf ms name e.used
    ⟨e.value :: es.value, e.interfaces ++ es.interfaces, es.used⟩
termination_by 2 * Shape.sizeMembers ms + 1
decreasing_by
  · simp only [Shape.sizeMembers]; omega
  · have := m.size_pos
    simp only [Shape.sizeMembers]; omega

/-- The fields of an interface; `name` is what the names of their types begin with. -/
def fieldsOf (fs : List (Text × Shape)) (name : Text) (used : List Text) : Emitted (List Field) :=
  match fs with
  | [] => ⟨[], [], used⟩
  | (key, s) :: fs =>
    let e := typeOf s.strip.present (name ++ Text.typeName key) used
    let es := fieldsOf fs name e.used
    ⟨⟨propertyName key, s.strip.optional, e.value⟩ :: es.value, e.interfaces ++ es.interfaces, es.used⟩
termination_by 2 * Shape.sizeFields fs + 1
decreasing_by
  · have := s.size_strip_le
    simp only [Shape.sizeFields]; omega
  · have := s.size_pos
    simp only [Shape.sizeFields]; omega

end

end TypeScript

end JsonShape
