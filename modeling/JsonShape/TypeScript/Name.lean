import JsonShape.Text.Case
/-!
# JsonShape.TypeScript.Name

Names in declarations.

* `Text.pascal`: words run together, each capitalized.
* `Text.typeName`: a type name for any text, of ASCII letters, digits and underscores.
* `Text.isPropertyName`: whether a text needs no quotes as the name of a property.
-/

namespace JsonShape

namespace Text

def underscore : CodePoint := '_'

/-- Words of ASCII letters and digits. A capital letter begins a word, and anything else but a
lower-case letter or a digit ends one; `loose` says whether those may begin one too. The second
argument is the word being read, in reverse. -/
def wordsFrom (loose : Bool) : Text → Option Text → List Text
  | [], none => []
  | [], some w => [w.reverse]
  | c :: rest, current =>
    if c.isUpperLetter then
      match current with
      | none => wordsFrom loose rest (some [c])
      | some w => w.reverse :: wordsFrom loose rest (some [c])
    else if c.isLowerLetter || c.isDigit then
      match current with
      | none => wordsFrom loose rest (if loose then some [c] else none)
      | some w => wordsFrom loose rest (some (c :: w))
    else
      match current with
      | none => wordsFrom loose rest none
      | some w => w.reverse :: wordsFrom loose rest none

/-- The words of a text without dots: between underscores if it has any; else by capital letters,
strictly so if it begins with one. -/
def words (t : Text) : List Text :=
  if t.contains underscore then splitOn underscore t
  else wordsFrom (!(t.head?.any CodePoint.isUpper)) t none

/-- Capitalized words of a text without dots; one underscore in front stays. -/
def pascalPart (t : Text) : Text :=
  (if t.head? = some underscore then [underscore] else []) ++ (words t).flatMap capitalize

/-- Capitalized words; dots stay where they are. -/
def pascal (t : Text) : Text := join [dot] ((splitOn dot t).map pascalPart)

def isNameCharacter (c : CodePoint) : Bool := c.isLetter || c.isDigit || c = underscore

def trimUnderscores (t : Text) : Text :=
  ((t.dropWhile (· = underscore)).reverse.dropWhile (· = underscore)).reverse

/-- A type name for any text. What names cannot hold separates words, a digit in front gets an
underscore before it, and a text without letters and digits gives an underscore. -/
def typeName (t : Text) : Text :=
  let name := pascal (trimUnderscores (t.map fun c => if isNameCharacter c then c else underscore))
  match name with
  | [] => [underscore]
  | c :: _ => if c.isDigit then underscore :: name else name

def isPropertyStart (c : CodePoint) : Bool := c.isLetter || c = underscore || c = '$'

def isPropertyCharacter (c : CodePoint) : Bool := isPropertyStart c || c.isDigit

/-- A text without one line feed at its end. -/
def dropFinalNewline (t : Text) : Text :=
  if t.getLast? = some .newline then t.dropLast else t

/-- Letters, digits, `_` and `$`, no digit first; one line feed at the end is let pass. -/
def isPropertyName (t : Text) : Bool :=
  match dropFinalNewline t with
  | [] => false
  | c :: rest => isPropertyStart c && rest.all isPropertyCharacter

end Text

end JsonShape
