import JsonShape.Datum.Basic
/-!
# JsonShape.Datum.Key

Data as keys of mappings and as members of sets. Keys are compared by value, and numbers of any
kind, truth values among them, by what they count: `1`, `1.0` and true are one key. Data of unknown
kinds are keys that no other one equals. Data that can change cannot be keys.

* `Datum.sameKey`: equality of keys.
* `Datum.insertEntry?`, `Datum.insertMember?`: building mappings and sets one step at a time.
-/

namespace JsonShape

namespace Datum

/-- The name of a datum's kind. -/
def kind : Datum → Text
  | .null => "NoneType"
  | .bool _ => "bool"
  | .int _ => "int"
  | .real _ => "float"
  | .string _ => "str"
  | .list _ => "list"
  | .tuple _ => "tuple"
  | .mapping _ => "dict"
  | .bytes _ => "bytes"
  | .set _ => "set"
  | .other k _ _ => k

/-- The number that a datum counts as. -/
inductive Count where
  | int (n : Int)
  | real (x : Binary64)
  | none

def count : Datum → Count
  | .bool b => .int (if b then 1 else 0)
  | .int n => .int n
  | .real x =>
    match x.toInt? with
    | some n => .int n
    | none => .real x
  | _ => .none

def Count.same : Count → Count → Bool
  | .int m, .int n => m = n
  | .real x, .real y => x.same y
  | _, _ => false

mutual

def sameKey : Datum → Datum → Bool
  | .null, .null => true
  | .string s, .string t => s = t
  | .bytes s, .bytes t => s = t
  | .tuple ds, .tuple es => sameKeys ds es
  | d, e => d.count.same e.count

def sameKeys : List Datum → List Datum → Bool
  | [], [] => true
  | d :: ds, e :: es => sameKey d e && sameKeys ds es
  | _, _ => false

end

mutual

/-- The part of a datum that keeps it from being a key. -/
def changeable? : Datum → Option Datum
  | .list items => some (.list items)
  | .mapping entries => some (.mapping entries)
  | .set items => some (.set items)
  | .tuple items => anyChangeable? items
  | _ => none

def anyChangeable? : List Datum → Option Datum
  | [] => none
  | d :: ds =>
    match changeable? d with
    | some e => some e
    | none => anyChangeable? ds

end

/-- A key that can change. -/
structure BadKey where
  key : Datum

def BadKey.message (b : BadKey) : Text := "unhashable type: '" ++ b.key.kind ++ "'"

/-- Puts a value under a key; an equal key stays as it is and keeps its place. -/
def putEntry (key value : Datum) : List (Datum × Datum) → List (Datum × Datum)
  | [] => [(key, value)]
  | (k, v) :: rest => if k.sameKey key then (k, value) :: rest else (k, v) :: putEntry key value rest

/-- Puts a value under a key, unless the key can change. -/
def insertEntry? (entries : List (Datum × Datum)) (key value : Datum) :
    Except BadKey (List (Datum × Datum)) :=
  match key.changeable? with
  | some d => .error ⟨d⟩
  | none => .ok (putEntry key value entries)

/-- Adds a member behind the others unless it is there already or can change. -/
def insertMember? (members : List Datum) (d : Datum) : Except BadKey (List Datum) :=
  match d.changeable? with
  | some e => .error ⟨e⟩
  | none => .ok (if members.any (·.sameKey d) then members else members ++ [d])

end Datum

end JsonShape
