import JsonShape.Text.Integer
import JsonShape.Text.Quoted
/-!
# JsonShape.Command.Option

Options of a command line and how an argument is recognized as one. A long option may be cut to a
beginning that no other one shares, and its value may follow an equals sign.

* `Setting`, `Spec`: what an option sets and what it is called.
* `recognize`: an argument as an option, or as none.
* `UsageFault`: what is wrong with a command line.
-/

namespace JsonShape.Command

/-- What an option sets. -/
inductive Setting where
  | help
  | version
  | verbose
  | out
  | title
  | typeName
  | sampleSize
  | workers
  deriving DecidableEq

def Setting.takesValue : Setting → Bool
  | .help | .version | .verbose => false
  | .out | .title | .typeName | .sampleSize | .workers => true

/-- Whether the value is an integer. -/
def Setting.isInteger : Setting → Bool
  | .sampleSize | .workers => true
  | _ => false

structure Spec where
  names : List Text
  setting : Setting
  deriving DecidableEq

/-- All names of an option, as messages give them. -/
def Spec.display (s : Spec) : Text := Text.join "/" s.names

inductive UsageFault where
  | ambiguous (argument : Text) (candidates : List Text)
  | expectedValue (option : Text)
  | unexpectedValue (option value : Text)
  | notAnInteger (option value : Text)
  | unknownCommand (name : Text) (choices : List Text)
  | unrecognized (arguments : List Text)
  deriving DecidableEq

def UsageFault.message : UsageFault → Text
  | .ambiguous argument candidates =>
    "ambiguous option: " ++ argument ++ " could match " ++ Text.join ", " candidates
  | .expectedValue option => "argument " ++ option ++ ": expected one argument"
  | .unexpectedValue option value =>
    "argument " ++ option ++ ": ignored explicit argument " ++ value.quoted
  | .notAnInteger option value =>
    "argument " ++ option ++ ": invalid int value: " ++ value.quoted
  | .unknownCommand name choices =>
    "argument command: invalid choice: " ++ name.quoted ++ " (choose from " ++
      Text.join ", " (choices.map Text.quoted) ++ ")"
  | .unrecognized arguments => "unrecognized arguments: " ++ Text.join " " arguments

/-- An argument that looks like an option. One that no option answers to has no `spec`; a value in
the same argument, right behind the name or behind an equals sign, is `attached`. -/
structure Recognized where
  spec : Option Spec
  name : Text
  attached : Option Text
  deriving DecidableEq

def dash : CodePoint := '-'

/-- Two dashes, which mark the end of the options. -/
def mark : Text := [dash, dash]

def equalsSign : CodePoint := '='

def findSpec (specs : List Spec) (name : Text) : Option Spec :=
  specs.find? fun s => s.names.contains name

/-- All names of all options, each with its option. -/
def allNames (specs : List Spec) : List (Text × Spec) :=
  specs.flatMap fun s => s.names.map fun n => (n, s)

/-- An argument cut at its first equals sign, if it has one. -/
def cutAtEquals (argument : Text) : Text × Option Text :=
  match argument.dropWhile (· ≠ equalsSign) with
  | [] => (argument, none)
  | _ :: value => (argument.takeWhile (· ≠ equalsSign), some value)

/-- The options that an argument could be short for. -/
def candidates (specs : List Spec) (argument : Text) : List Recognized :=
  if mark.isPrefixOf argument then
    let (name, attached) := cutAtEquals argument
    ((allNames specs).filter fun n => name.isPrefixOf n.1).map fun n => ⟨some n.2, n.1, attached⟩
  else
    ((allNames specs).filter fun n => n.1 = argument.take 2).map fun n =>
      ⟨some n.2, n.1, some (argument.drop 2)⟩

def isDecimalDigit (c : CodePoint) : Bool := (Text.decimalValue? c).isSome

/-- A minus sign and digits, with at most one point and a digit behind it. A line feed at the end is
let pass. -/
def isNegativeNumber (argument : Text) : Bool :=
  let t := if argument.getLast? = some .newline then argument.dropLast else argument
  match t with
  | [] => false
  | c :: digits =>
    c = dash &&
      match digits.dropWhile isDecimalDigit with
      | [] => !digits.isEmpty
      | d :: fraction => d = Text.dot && !fraction.isEmpty && fraction.all isDecimalDigit

/-- Reads an argument as an option: by its name, by its name before an equals sign, or by the
beginning of its name. Negative numbers and arguments with a space in them are no options. -/
def recognize (specs : List Spec) (argument : Text) : Except UsageFault (Option Recognized) :=
  match argument with
  | [] => .ok none
  | [_] => .ok none
  | c :: _ =>
    if c ≠ dash then .ok none
    else match findSpec specs argument with
      | some s => .ok (some ⟨some s, argument, none⟩)
      | none =>
        let (name, attached) := cutAtEquals argument
        match attached.bind fun _ => findSpec specs name with
        | some s => .ok (some ⟨some s, name, attached⟩)
        | none =>
          match candidates specs argument with
          | [r] => .ok (some r)
          | r :: s :: rest => .error (.ambiguous argument ((r :: s :: rest).map Recognized.name))
          | [] =>
            if isNegativeNumber argument || argument.contains .space then .ok none
            else .ok (some ⟨none, argument, none⟩)

end JsonShape.Command
