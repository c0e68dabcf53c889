import JsonShape.Decimal.Shortest
import JsonShape.Json.StringLiteral
import JsonShape.Json.Value
/-!
# JsonShape.Json.Writer

Writing JSON text in ASCII.

* `Value.compact`: without any space.
* `Value.indented`: one item a line, two spaces a level; empty containers stay closed.
-/

namespace JsonShape.Json

/-- The text of a number, word or string; containers have none. -/
def Value.atom : Value → Text
  | .null => "null"
  | .bool true => "true"
  | .bool false => "false"
  | .int n => Text.ofInt n
  | .real x => Layout.json.render x
  | .string s => StringLiteral.write s
  | .array _ => []
  | .object _ => []

mutual

def Value.compact : Value → Text
  | .array items => ("[" : Text) ++ Text.join "," (compactItems items) ++ "]"
  | .object fields => ("\x7b" : Text) ++ Text.join "," (compactFields fields) ++ "\x7d"
  | v => v.atom

def compactItems : List Value → List Text
  | [] => []
  | v :: vs => v.compact :: compactItems vs

def compactFields : List (Text × Value) → List Text
  | [] => []
  | (k, v) :: fs => (StringLiteral.write k ++ ":" ++ v.compact) :: compactFields fs

end

/-- A new line at a level. -/
def newLine (level : Nat) : Text := .newline :: List.replicate (2 * level) .space

/-- Items between brackets, each on a line of its own. -/
def block (opening closing : Text) (level : Nat) (items : List Text) : Text :=
  if items.isEmpty then opening ++ closing
  else
    opening ++ newLine (level + 1) ++ Text.join ("," ++ newLine (level + 1)) items ++
      newLine level ++ closing

mutual

def Value.indentedAt (level : Nat) : Value → Text
  | .array items => block "[" "]" level (indentedItems (level + 1) items)
  | .object fields => block "\x7b" "\x7d" level (indentedFields (level + 1) fields)
  | v => v.atom

def indentedItems (level : Nat) : List Value → List Text
  | [] => []
  | v :: vs => v.indentedAt level :: indentedItems level vs

def indentedFields (level : Nat) : List (Text × Value) → List Text
  | [] => []
  | (k, v) :: fs => (StringLiteral.write k ++ ": " ++ v.indentedAt level) :: indentedFields level fs

end

def Value.indented (v : Value) : Text := v.indentedAt 0

end JsonShape.Json
