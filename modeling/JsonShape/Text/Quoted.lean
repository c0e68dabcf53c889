import JsonShape.Text.Printable
/-!
# JsonShape.Text.Quoted

Texts between quotes for display. The quote is single unless the text holds a single quote and no
double one; the quote in use, backslashes and what is not printable are escaped.
-/

namespace JsonShape.Text

def singleQuote : CodePoint := CodePoint.ofNat 0x27

def doubleQuote : CodePoint := '"'

def backslash : CodePoint := '\\'

/-- The quote that a text with these code points is put in. -/
def quoteFor (t : Text) : CodePoint :=
  if t.contains singleQuote && !t.contains doubleQuote then doubleQuote else singleQuote

/-- A code point by its number, in two, four or eight hexadecimal digits. -/
def numbered (c : CodePoint) : Text :=
  if c.toNat < 0x100 then ("\\x" : Text) ++ hex c.toNat 2
  else if c.toNat < 0x10000 then ("\\u" : Text) ++ hex c.toNat 4
  else ("\\U" : Text) ++ hex c.toNat 8

def escapeOne (quote c : CodePoint) : Text :=
  if c = quote || c = backslash then [backslash, c]
  else if c = '\n' then "\\n"
  else if c = '\r' then "\\r"
  else if c = '\t' then "\\t"
  else if c.isPrintable then [c]
  else numbered c

def quoted (t : Text) : Text :=
  let q := quoteFor t
  q :: (t.flatMap (escapeOne q) ++ [q])

end JsonShape.Text
