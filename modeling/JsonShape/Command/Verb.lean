import JsonShape.Command.Arguments
/-!
# JsonShape.Command.Verb

The commands, and the command line as a whole: flags of the program first, then a command with its
own arguments.

* `Verb`: a command; `Verb.specs`, `Verb.places`: what its arguments may be.
* `CommandLine.parse`: the program's flags and the command, or why there is none.
-/

namespace JsonShape.Command

inductive Verb where
  | samplesToShape
  | shapeToSchema
  | shapeToTypeScript
  | samplesToTypeScript
  deriving DecidableEq

namespace Verb

def all : List Verb := [.samplesToShape, .shapeToSchema, .shapeToTypeScript, .samplesToTypeScript]

def name : Verb → Text
  | .samplesToShape => "jsonl2shape"
  | .shapeToSchema => "shape2jsons"
  | .shapeToTypeScript => "shape2ts"
  | .samplesToTypeScript => "jsonl2ts"

def description : Verb → Text
  | .samplesToShape => "Infer a shape from JSON Lines sample files"
  | .shapeToSchema => "Convert a shape file to JSON Schema"
  | .shapeToTypeScript => "Convert a shape file to TypeScript interfaces"
  | .samplesToTypeScript => "Infer TypeScript interfaces from JSON Lines sample files"

def help : Spec := ⟨["-h", "--help"], .help⟩

def out : Spec := ⟨["--out"], .out⟩

def title : Spec := ⟨["--title"], .title⟩

def typeName : Spec := ⟨["--type-name"], .typeName⟩

def sampleSize : Spec := ⟨["--sample-size"], .sampleSize⟩

def workers : Spec := ⟨["--workers"], .workers⟩

def specs : Verb → List Spec
  | .samplesToShape => [help, out, sampleSize, workers]
  | .shapeToSchema => [help, out, title]
  | .shapeToTypeScript => [help, out, typeName]
  | .samplesToTypeScript => [help, out, typeName, sampleSize, workers]

def places : Verb → Places
  | .samplesToShape | .samplesToTypeScript => .any
  | .shapeToSchema | .shapeToTypeScript => .atMostOne

/-- The command of a name, which must be spelt out. -/
def ofName? (n : Text) : Option Verb := all.find? fun v => v.name = n

end Verb

/-- A command with its arguments. -/
structure Request where
  verb : Verb
  arguments : Arguments

structure CommandLine where
  version : Bool
  verbose : Bool
  request : Option Request

/-- What is shown instead of running a command. -/
inductive Refusal where
  | help
  | verbHelp (v : Verb)
  | fault (f : UsageFault)
  deriving DecidableEq

namespace CommandLine

def specs : List Spec := [Verb.help, ⟨["--version"], .version⟩, ⟨["--verbose"], .verbose⟩]

/-- The program's own flags in front of the command; what follows is the command with its
arguments. -/
def takeFlags (a : Arguments) : List Token → Except Stop (Arguments × List Token)
  | .option argument r :: rest =>
    match Arguments.takeOption specs a argument r [] with
    | .error e => .error e
    | .ok (a, _) => takeFlags a rest
  | ts => .ok (a, ts)

/-- Reads a command from its name on. A mark in front counts as the name. -/
def parseRequest (tokens : List Token) : Except Refusal (Option Request × List Text) :=
  match tokens with
  | [] => .ok (none, [])
  | [.mark] => .ok (none, [Token.mark.argument])
  | t :: rest =>
    match Verb.ofName? t.argument with
    | none => .error (.fault (.unknownCommand t.argument (Verb.all.map Verb.name)))
    | some v =>
      match Arguments.parse v.specs v.places (rest.map Token.argument) with
      | .error .help => .error (.verbHelp v)
      | .error (.fault f) => .error (.fault f)
      | .ok a => .ok (some ⟨v, a⟩, a.extras)

def parse (arguments : List Text) : Except Refusal CommandLine :=
  match Arguments.scan specs arguments with
  | .error f => .error (.fault f)
  | .ok tokens =>
    match takeFlags .empty tokens with
    | .error .help => .error .help
    | .error (.fault f) => .error (.fault f)
    | .ok (flags, rest) =>
      match parseRequest rest with
      | .error r => .error r
      | .ok (request, extras) =>
        match flags.extras ++ extras with
        | [] => .ok ⟨(flags.get? .version).isSome, (flags.get? .verbose).isSome, request⟩
        | e :: es => .error (.fault (.unrecognized (e :: es)))

end CommandLine

end JsonShape.Command
