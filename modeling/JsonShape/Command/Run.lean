import JsonShape.Command.Console
import JsonShape.Command.Help
import JsonShape.Conversion
/-!
# JsonShape.Command.Run

Running a command line on a storage. Standard input stands in for missing inputs and the console for a
missing output; both go through files that are removed in the end.

* `Command.run`: what a command line prints and leaves behind.
* `Command.Surroundings`: what it needs for that beside the storage.
-/

namespace JsonShape.Command

/-- Where a run prints, and the names of the files that stand in for standard input and for a missing
output. -/
structure Surroundings where
  console : Console
  input : Text
  output : Text

/-- A run broken off because the console refused a text: what it said, and the error whose message that
was, if it was one. The system reports both. -/
structure Break where
  refusal : Text
  error : Option Text

structure Result where
  exit : Nat
  stdout : Text
  stderr : Text
  tree : Storage.Tree
  broken : Option Break

/-- Where the output goes: to standard output, or to what an option names, if it names anything. -/
inductive Destination where
  | standardOutput
  | named (out : Option Text)
  deriving DecidableEq

/-- The arguments of a command by their meaning. -/
structure Options where
  inputs : List Text
  destination : Destination
  title : Option Text
  typeName : Option Text
  limit : Samples.Limit
  workers : Int

def destinationOf (a : Arguments) : Destination :=
  match a.get? .out with
  | some (.text t) => .named (some t)
  | some .nothing => .named none
  | _ => .standardOutput

/-- The text of a setting, none if it is given nothing. -/
def textOf (a : Arguments) (s : Setting) (standard : Text) : Option Text :=
  match a.get? s with
  | some (.text t) => some t
  | some .nothing => none
  | _ => some standard

def limitOf (a : Arguments) : Samples.Limit :=
  match a.get? .sampleSize with
  | some (.integer n) => .upTo n
  | some .nothing => .missing
  | _ => .upTo 0

/-- The number of workers; nothing leaves it to the machine, as zero does. -/
def workersOf (a : Arguments) : Int :=
  match a.get? .workers with
  | some (.integer n) => n
  | some .nothing => 0
  | _ => 1

def Options.ofArguments (a : Arguments) : Options where
  inputs := a.inputs
  destination := destinationOf a
  title := textOf a .title Schema.standardTitle
  typeName := textOf a .typeName TypeScript.standardTypeName
  limit := limitOf a
  workers := workersOf a

/-- A storage after a conversion, the records made, and the failure if there was one. -/
structure Done where
  tree : Storage.Tree
  log : List Log.Record
  failure : Option Conversion.Failure

def Done.of {α : Type} (o : Conversion.Outcome α) : Done :=
  ⟨o.tree, o.log, match o.result with
    | .ok _ => none
    | .error f => some f⟩

/-- Runs the conversion of a command. -/
def convert (v : Verb) (tree : Storage.Tree) (inputs : List Text) (out : Option Text) (o : Options) :
    Done :=
  let input := inputs.headD []
  match v with
  | .samplesToShape => .of (Conversion.samplesToShape tree inputs out o.limit o.workers)
  | .shapeToSchema => .of (Conversion.shapeToSchema tree input out o.title)
  | .shapeToTypeScript => .of (Conversion.shapeToTypeScript tree input out o.typeName)
  | .samplesToTypeScript =>
    .of (Conversion.samplesToTypeScript tree inputs out o.typeName o.limit o.workers)

/-- What is printed before a command that writes to a named file, but for the end of the line. -/
def banner (v : Verb) (inputs : List Text) (out : Option Text) : Text :=
  "Executing " ++ v.description ++ " with input " ++ Text.join ", " inputs ++ " and output " ++
    out.getD "[]"

/-- The lines of a log, from warnings on unless all are asked for. -/
def logText (verbose : Bool) (rs : List Log.Record) : Text :=
  (rs.filter fun r => verbose || r.level = .warning).flatMap fun r => r.line ++ [.newline]

/-- The text of a written file, as it is printed. -/
def printed (tree : Storage.Tree) (path : Text) : Text :=
  match tree.read path with
  | .error _ => []
  | .ok content =>
    match Utf8.decode content with
    | .error _ => []
    | .ok t => Text.unifyNewlines t

/-- Ends a run that only prints. -/
def Result.shown (c : Console) (pieces : List Text) (tree : Storage.Tree) : Result :=
  let p := c.print pieces
  match p.refusal with
  | none => ⟨0, p.text, [], tree, none⟩
  | some refusal => ⟨1, p.text, [], tree, some ⟨refusal, none⟩⟩

/-- Ends a run with an error, which is printed behind what has been printed before it. -/
def Result.failed (c : Console) (before message stderr : Text) (tree : Storage.Tree) : Result :=
  let p := c.print ["Error: ", " ", message, "\n"]
  ⟨1, before ++ p.text, stderr, tree, p.refusal.map fun refusal => ⟨refusal, some message⟩⟩

section Surroundings

variable (s : Surroundings) (verbose : Bool)

/-- Runs a command whose inputs are files. What the console refuses is an error like any other. -/
def runOnFiles (v : Verb) (tree : Storage.Tree) (inputs : List Text) (o : Options) : Result :=
  match o.destination with
  | .named out =>
    let p := s.console.print [banner v inputs out, "\n"]
    match p.refusal with
    | some refusal => .failed s.console p.text refusal [] tree
    | none =>
      let d := convert v tree inputs out o
      let log := logText verbose d.log
      match d.failure with
      | none => ⟨0, p.text, log, d.tree, none⟩
      | some f => .failed s.console p.text f.message log d.tree
  | .standardOutput =>
    let d := convert v (tree.put (.named s.output) (.file [])) inputs (some s.output) o
    let log := logText verbose d.log
    let after := d.tree.remove (.named s.output)
    match d.failure with
    | some f => .failed s.console [] f.message log after
    | none =>
      let p := s.console.print [printed d.tree s.output]
      match p.refusal with
      | some refusal => .failed s.console p.text refusal log after
      | none => ⟨0, p.text, log, after, none⟩

/-- Runs a command. Without inputs, standard input is copied to a file first; if it is no UTF-8 the
copy stays empty, and stays. -/
def runRequest (r : Request) (tree : Storage.Tree) (stdin : Bytes) : Result :=
  let o := Options.ofArguments r.arguments
  if o.inputs.isEmpty then
    match Utf8.decode stdin with
    | .error f => .failed s.console [] f.message [] (tree.put (.named s.input) (.file []))
    | .ok t =>
      let content := Utf8.encode (Text.unifyNewlines t)
      let result :=
        runOnFiles s verbose r.verb (tree.put (.named s.input) (.file content)) [s.input] o
      { result with tree := result.tree.remove (.named s.input) }
  else runOnFiles s verbose r.verb tree o.inputs o

end Surroundings

/-- Whether a command line makes the run read standard input. -/
def readsStdin (arguments : List Text) : Bool :=
  match CommandLine.parse arguments with
  | .error _ => false
  | .ok c => !c.version && c.request.any fun r => r.arguments.inputs.isEmpty

def version : Text := "shapegen 0.1.0"

/-- What a command line prints and leaves behind. A fault in the command line itself goes to standard
error. -/
def run (s : Surroundings) (arguments : List Text) (tree : Storage.Tree) (stdin : Bytes) : Result :=
  match CommandLine.parse arguments with
  | .error .help => .shown s.console [Help.program] tree
  | .error (.verbHelp v) => .shown s.console [Help.ofVerb v] tree
  | .error (.fault f) => ⟨2, [], "error: " ++ f.message ++ "\n", tree, none⟩
  | .ok c =>
    if c.version then .shown s.console [version, "\n"] tree
    else match c.request with
      | none => .shown s.console [Help.program] tree
      | some r => runRequest s c.verbose r tree stdin

/-! ## Names for files that stand in -/

/-- The inputs of a request, and its output if that is named. -/
def Request.paths (r : Request) : List Text :=
  r.arguments.inputs ++
    match destinationOf r.arguments with
    | .named (some out) => [out]
    | _ => []

/-- The first name of `tmp0`, `tmp1`, … that is free and not to be avoided. One of as many names as
things are stored and to be avoided, and one more, is. -/
def temporaryName (avoid : List Bytes) (tree : Storage.Tree) : Text :=
  let names := (List.range (tree.nodes.length + avoid.length + 1)).map fun n =>
    ("tmp" : Text) ++ Text.ofNat n
  (names.find? fun name =>
    (tree.node? (.named name)).isNone && !avoid.contains (Storage.Path.bytes name)).getD []

/-- Surroundings with such names, the first of them for what is made first. -/
def Surroundings.numbered (c : Console) (avoid : List Bytes) (arguments : List Text)
    (tree : Storage.Tree) : Surroundings :=
  let first := temporaryName avoid tree
  let second := temporaryName (Storage.Path.bytes first :: avoid) tree
  if readsStdin arguments then ⟨c, first, second⟩ else ⟨c, second, first⟩

end JsonShape.Command
