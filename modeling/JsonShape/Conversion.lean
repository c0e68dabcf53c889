import JsonShape.Inference.Files
import JsonShape.Schema
import JsonShape.Shape.File
import JsonShape.TypeScript.Document
/-!
# JsonShape.Conversion

Conversions from files to a file. Everything is read and worked out before anything is written. An
output, a title or the name of a type may be left out; a schema has an empty title then, and all else
fails where it would be used.

* `Conversion.samplesToShape`, `Conversion.shapeToSchema`, `Conversion.shapeToTypeScript`,
  `Conversion.samplesToTypeScript`: the conversions.
* `Conversion.Failure`: why one fails.
-/

namespace JsonShape

namespace Conversion

inductive Failure where
  | samples (f : FilesFault)
  | noSamples
  | shape (f : Shape.LoadFault)
  | noTypeName
  | noOutput
  | output (f : Storage.Fault)
  | encoding (s : Utf8.Surrogates)

def Failure.message : Failure → Text
  | .samples f => f.message
  | .noSamples => "No valid JSON samples found in input files"
  | .shape f => f.message
  | .noTypeName => "expected string or bytes-like object, got 'list'"
  | .noOutput => "expected str, bytes or os.PathLike object, not list"
  | .output f => f.message
  | .encoding s => s.message

/-- The storage after a conversion, the records made, and the result. -/
structure Outcome (α : Type) where
  tree : Storage.Tree
  log : List Log.Record
  result : Except Failure α

/-- Writes a text to a file, making its directory if that is missing. A text that has no bytes leaves
the file empty. -/
def writeText (tree : Storage.Tree) (out : Option Text) (t : Text) :
    Storage.Tree × Except Failure Unit :=
  match out with
  | none => (tree, .error .noOutput)
  | some out =>
    let directory := Storage.Path.directory out
    let (tree, fault) :=
      if directory.isEmpty then (tree, none) else tree.makeDirectories true directory
    match fault with
    | some f => (tree, .error (.output f))
    | none =>
      let content := Utf8.encode? t
      match tree.write out (content.toOption.getD []) with
      | .error f => (tree, .error (.output f))
      | .ok tree => (tree, (content.mapError Failure.encoding).map fun _ => ())

/-- Writes a shape file. A directory is made only where nothing is. -/
def writeShape (tree : Storage.Tree) (out : Option Text) (s : Shape) :
    Storage.Tree × Except Failure Unit :=
  match out with
  | none => (tree, .error .noOutput)
  | some out =>
    let directory := Storage.Path.directory out
    let (tree, fault) :=
      if directory.isEmpty || tree.pathExists directory then (tree, none)
      else tree.makeDirectories false directory
    match fault with
    | some f => (tree, .error (.output f))
    | none =>
      match tree.write out (Utf8.encode s.fileText) with
      | .error f => (tree, .error (.output f))
      | .ok tree => (tree, .ok ())

/-- The samples of files, of which there must be at least one with a value. -/
def inferSome (tree : Storage.Tree) (inputs : List Text) (l : Samples.Limit) (workers : Int) :
    Traced Failure Accumulator :=
  let r := inferFiles tree inputs l workers
  ⟨r.log,
    match r.result with
    | .error f => .error (.samples f)
    | .ok a => if a.count = 0 then .error .noSamples else .ok a⟩

/-- What is reported of a successful inference. -/
def summary (a : Accumulator) : List Log.Record :=
  (if a.skipped.isEmpty then [] else [.skipped a.skipped.length (a.count + a.skipped.length)]) ++
    [.inferred a.count]

/-- Infers a shape from samples and writes it as a shape file. -/
def samplesToShape (tree : Storage.Tree) (inputs : List Text) (out : Option Text)
    (l : Samples.Limit) (workers : Int) : Outcome Accumulator :=
  let r := inferSome tree inputs l workers
  match r.result with
  | .error f => ⟨tree, r.log, .error f⟩
  | .ok a =>
    let (tree, written) := writeShape tree out a.shape
    ⟨tree, r.log ++ summary a, written.map fun _ => a⟩

/-- Writes the schema of a shape file. -/
def shapeToSchema (tree : Storage.Tree) (input : Text) (out title : Option Text) : Outcome Unit :=
  match Shape.load tree input with
  | .error f => ⟨tree, [], .error (.shape f)⟩
  | .ok s =>
    let (tree, written) := writeText tree out (Schema.document s title).indented
    ⟨tree, [], written⟩

/-- Writes declarations for a shape, whose root type needs a name. -/
def writeDeclarations (tree : Storage.Tree) (out typeName : Option Text) (s : Shape)
    (source : Text) : Storage.Tree × Except Failure Unit :=
  match typeName with
  | none => (tree, .error .noTypeName)
  | some name => writeText tree out (TypeScript.generate s name source).render

/-- Writes the declarations of a shape file, named as their source by the file's own name. -/
def shapeToTypeScript (tree : Storage.Tree) (input : Text) (out typeName : Option Text) :
    Outcome Unit :=
  match Shape.load tree input with
  | .error f => ⟨tree, [], .error (.shape f)⟩
  | .ok s =>
    let (tree, written) := writeDeclarations tree out typeName s (Storage.Path.name input)
    ⟨tree, [], written⟩

/-- Infers a shape from samples and writes its declarations, named as their source by the files'
own names. -/
def samplesToTypeScript (tree : Storage.Tree) (inputs : List Text) (out typeName : Option Text)
    (l : Samples.Limit) (workers : Int) : Outcome Unit :=
  let r := inferSome tree inputs l workers
  match r.result with
  | .error f => ⟨tree, r.log, .error f⟩
  | .ok a =>
    let source := Text.join ", " (inputs.map Storage.Path.name)
    let (tree, written) := writeDeclarations tree out typeName a.shape source
    ⟨tree, r.log, written⟩

end Conversion

end JsonShape
