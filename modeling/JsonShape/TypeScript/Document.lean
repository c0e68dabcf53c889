import JsonShape.TypeScript.Declaration
/-!
# JsonShape.TypeScript.Document

Whole files of declarations, and the state of a converter that is used more than once.

* `TypeScript.generate`: the declarations for a root shape: an interface if it is an object, else
  an alias.
* `TypeScript.Document.render`: the text of a file.
* `TypeScript.Step`, `TypeScript.State.run`: single conversions that add to what is declared.
-/

namespace JsonShape

namespace TypeScript

/-- A name for a type expression. -/
structure Alias where
  name : Text
  type : Text

structure Document where
  source : Text
  interfaces : List Interface
  rootAlias : Option Alias

def Field.render (f : Field) : Text :=
  "\n    " ++ f.name ++ (if f.optional then ("?" : Text) else []) ++ ": " ++ f.type ++ ";"

def Interface.render (i : Interface) : Text :=
  "\n\nexport interface " ++ i.name ++ " \x7b" ++ i.fields.flatMap Field.render ++ "\n\x7d"

def Alias.render (a : Alias) : Text := "\n\nexport type " ++ a.name ++ " = " ++ a.type ++ ";"

def Document.render (d : Document) : Text :=
  "// Generated by shapegen from " ++ d.source ++ ". Do not edit." ++
    d.interfaces.flatMap Interface.render ++ (d.rootAlias.map Alias.render).getD [] ++ "\n"

/-- The name of a root type that is given none. -/
def standardTypeName : Text := "Document"

/-- The source of declarations that name none. -/
def standardSource : Text := "samples"

/-- The interfaces, the alias and the names of a root shape whose type is called `root`. -/
def declare (s : Shape) (root : Text) : Emitted (Option Alias) :=
  match s with
  | .object fs =>
    let e := typeOf (.object fs) root []
    { e with value := none }
  | s =>
    let e := typeOf s root [root]
    { e with value := some ⟨root, e.value⟩ }

def generate (s : Shape) (rootName source : Text) : Document :=
  let e := declare s (Text.typeName rootName)
  ⟨source, e.interfaces, e.value⟩

/-- What a converter has declared and which names it has taken. -/
structure State where
  interfaces : List Interface
  used : List Text

def State.empty : State := ⟨[], []⟩

inductive Step where
  | name (name : Text)
  | convert (s : Shape) (name : Text)
  | generate (s : Shape) (rootName source : Text)

/-- The text that a step answers with, and the state after it. Generating a document forgets what
was declared before. -/
def State.run (st : State) : Step → Text × State
  | .name n =>
    let own := freshName st.used n
    (own, { st with used := own :: st.used })
  | .convert s n =>
    let e := typeOf s n st.used
    (e.value, ⟨st.interfaces ++ e.interfaces, e.used⟩)
  | .generate s root source =>
    let e := declare s (Text.typeName root)
    (Document.render ⟨source, e.interfaces, e.value⟩, ⟨e.interfaces, e.used⟩)

end TypeScript

end JsonShape
