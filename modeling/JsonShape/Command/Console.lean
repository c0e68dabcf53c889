import JsonShape.Text.Utf8
/-!
# JsonShape.Command.Console

Where a run prints. A console takes one text after the other and may refuse one, as it does when it
keeps texts as bytes and there are none for the text.

* `Console.print`: printing piece by piece, up to the first piece that is refused.
* `Console.utf8`: the console that keeps texts in UTF-8.
-/

namespace JsonShape.Command

/-- What a console says against a text, if it refuses it. -/
structure Console where
  refusal? : Text → Option Text

namespace Console

/-- Keeps every text as it is. -/
def plain : Console := ⟨fun _ => none⟩

def utf8 : Console where
  refusal? t :=
    match Utf8.encode? t with
    | .ok _ => none
    | .error s => some s.message

/-- What stands on the console in the end, and what was said against the piece that stopped the
printing, if one did. -/
structure Printed where
  text : Text
  refusal : Option Text

def print (c : Console) : List Text → Printed
  | [] => ⟨[], none⟩
  | t :: ts =>
    match c.refusal? t with
    | some message => ⟨[], some message⟩
    | none =>
      let rest := c.print ts
      { rest with text := t ++ rest.text }

end Console

end JsonShape.Command
