import JsonShape.Json.Reader
import JsonShape.Json.Writer
import JsonShape.Shape.Node
import JsonShape.Storage.Tree
import JsonShape.Text.Newlines
/-!
# JsonShape.Shape.File

Shape files: the node of a shape as indented JSON text in UTF-8.

* `Shape.fileText`: the text of a shape's file.
* `Shape.ofFileContent`, `Shape.load`: the shape of a file, or what is wrong with it.
-/

namespace JsonShape

namespace Shape

inductive LoadFault where
  | storage (f : Storage.Fault)
  | encoding (f : Utf8.Fault)
  | text (e : Json.ReadError)
  | node (f : NodeFault)

def LoadFault.message : LoadFault → Text
  | .storage f => f.message
  | .encoding f => f.message
  | .text e => e.message
  | .node f => f.message

def fileText (s : Shape) : Text := s.toNode.indented

/-- The shape that a JSON text denotes. -/
def ofText (t : Text) : Except LoadFault Shape :=
  match Json.read t with
  | .error e => .error (.text e)
  | .ok v =>
    match ofNode? v with
    | .error f => .error (.node f)
    | .ok s => .ok s

def ofFileContent (content : Bytes) : Except LoadFault Shape :=
  match Utf8.decode content with
  | .error f => .error (.encoding f)
  | .ok t => ofText (Text.unifyNewlines t)

def load (tree : Storage.Tree) (path : Text) : Except LoadFault Shape :=
  match tree.read path with
  | .error f => .error (.storage f)
  | .ok content => ofFileContent content

end Shape

end JsonShape
