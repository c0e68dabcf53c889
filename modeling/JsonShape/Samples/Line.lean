import JsonShape.Text.Utf8
/-!
# JsonShape.Samples.Line

Lines of a file of samples. They are cut at line feeds before any decoding, so that what is wrong
with one line says nothing about another.
-/

namespace JsonShape.Samples

def lineFeed : UInt8 := 0x0A

/-- The parts between line feeds; there is one more of them than line feeds. -/
def lines (content : Bytes) : List Bytes :=
  content.foldr (fun b ls =>
    if b = lineFeed then [] :: ls
    else match ls with
      | [] => [[b]]
      | l :: ls => (b :: l) :: ls) [[]]

/-- Space, tab, line feed, vertical tab, form feed or carriage return. -/
def isSpaceByte (b : UInt8) : Bool := b = 0x20 || (0x09 ≤ b && b ≤ 0x0D)

/-- A line without the space at both ends. -/
def trim (l : Bytes) : Bytes := ((l.dropWhile isSpaceByte).reverse.dropWhile isSpaceByte).reverse

end JsonShape.Samples
