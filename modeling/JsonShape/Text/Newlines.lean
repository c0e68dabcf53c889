import JsonShape.Text.CodePoint
/-!
# JsonShape.Text.Newlines

One line end for all: a carriage return, alone or before a line feed, becomes a line feed.
-/

namespace JsonShape.Text

/-- Takes one code point more; `done` is the text so far in reverse, and `pending` says that it ends
with the line feed of a carriage return. -/
def newlineStep (state : Bool × Text) (c : CodePoint) : Bool × Text :=
  let (pending, done) := state
  if c = .carriageReturn then (true, .newline :: done)
  else if c = .newline && pending then (false, done)
  else (false, c :: done)

def unifyNewlines (t : Text) : Text := (t.foldl newlineStep (false, [])).2.reverse

end JsonShape.Text
