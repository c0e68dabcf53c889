import JsonShape.Command.Option
/-!
# JsonShape.Command.Arguments

Command lines. Arguments are told apart first, all of them, and then taken from the left: options
with their values, and others where the command has a place for them.

* `Arguments.scan`: the arguments as options and others.
* `Arguments.parse`: the settings of a command line without commands in it.
-/

namespace JsonShape.Command

/-- The value of a setting. An option that is given the mark as its value is given nothing. -/
inductive SettingValue where
  | flag
  | text (t : Text)
  | integer (n : Int)
  | nothing
  deriving DecidableEq

/-- What makes the parsing stop. -/
inductive Stop where
  | help
  | fault (f : UsageFault)
  deriving DecidableEq

/-- An argument, told apart: an option, the mark behind which there are none, or another. -/
inductive Token where
  | option (argument : Text) (r : Recognized)
  | mark
  | plain (argument : Text)
  deriving DecidableEq

/-- The argument that a token is. -/
def Token.argument : Token → Text
  | .option a _ => a
  | .mark => Command.mark
  | .plain a => a

/-- How many other arguments a command has a place for. -/
inductive Places where
  | atMostOne
  | any
  deriving DecidableEq

/-- What has been parsed: settings, the latest first; other arguments; what had no place. -/
structure Arguments where
  settings : List (Setting × SettingValue)
  inputs : List Text
  extras : List Text

namespace Arguments

def empty : Arguments := ⟨[], [], []⟩

def set (a : Arguments) (s : Setting) (v : SettingValue) : Arguments :=
  { a with settings := (s, v) :: a.settings }

def addExtra (a : Arguments) (t : Text) : Arguments := { a with extras := a.extras ++ [t] }

def get? (a : Arguments) (s : Setting) : Option SettingValue :=
  (a.settings.find? fun p => p.1 = s).map Prod.snd

def scan (specs : List Spec) : List Text → Except UsageFault (List Token)
  | [] => .ok []
  | a :: rest =>
    if a = mark then .ok (.mark :: rest.map .plain)
    else match recognize specs a with
      | .error f => .error f
      | .ok r =>
        match scan specs rest with
        | .error f => .error f
        | .ok ts => .ok ((match r with
          | none => .plain a
          | some r => .option a r) :: ts)

/-- Sets a flag; the one for help stops the parsing. -/
def setFlag (a : Arguments) (s : Setting) : Except Stop Arguments :=
  if s = .help then .error .help else .ok (a.set s .flag)

def setFlags (a : Arguments) : List Setting → Except Stop Arguments
  | [] => .ok a
  | s :: ss =>
    match a.setFlag s with
    | .error e => .error e
    | .ok a => a.setFlags ss

/-- Sets a value, which must be an integer where one is asked for. -/
def setValue (a : Arguments) (spec : Spec) (value : Text) : Except Stop Arguments :=
  if value = mark then .ok (a.set spec.setting .nothing)
  else if spec.setting.isInteger then
    match Text.toInt? value with
    | none => .error (.fault (.notAnInteger spec.display value))
    | some n => .ok (a.set spec.setting (.integer n))
  else .ok (a.set spec.setting (.text value))

/-- Whether the name of an option is one dash and a letter. -/
def isLetterName (name : Text) : Bool := name.length = 2 && name ≠ mark

/-- Flags of one letter run together: `value` is what follows the flag of `spec` in its argument, and
every letter of it must be a flag too. -/
def letterFlags (specs : List Spec) (spec : Spec) : (value : Text) → Except UsageFault (List Setting)
  | [] => .ok [spec.setting]
  | c :: rest =>
    match (specs.filter fun s => !s.setting.takesValue).find? fun s => s.names.contains [dash, c] with
    | none => .error (.unexpectedValue spec.display (c :: rest))
    | some next => (letterFlags specs next rest).map (spec.setting :: ·)

/-- The flags in an argument that begins with the flag of `spec`. Only a flag of one letter may have
others behind it. -/
def flagsOf (specs : List Spec) (spec : Spec) (r : Recognized) : Except UsageFault (List Setting) :=
  match r.attached with
  | none => .ok [spec.setting]
  | some value =>
    if isLetterName r.name && !value.isEmpty then letterFlags specs spec value
    else .error (.unexpectedValue spec.display value)

/-- Takes an option that comes before `rest`, with its value if it has one. -/
def takeOption (specs : List Spec) (a : Arguments) (argument : Text) (r : Recognized)
    (rest : List Token) : Except Stop (Arguments × List Token) :=
  match r.spec with
  | none => .ok (a.addExtra argument, rest)
  | some spec =>
    if spec.setting.takesValue then
      match r.attached, rest with
      | some value, _ => (a.setValue spec value).map (·, rest)
      | none, .plain value :: rest => (a.setValue spec value).map (·, rest)
      | none, _ => .error (.fault (.expectedValue spec.display))
    else
      match flagsOf specs spec r with
      | .error f => .error (.fault f)
      | .ok flags => (a.setFlags flags).map (·, rest)

/-- The other arguments that fill the places of a command, and what is left. -/
def fill : Places → List Token → List Token × List Token
  | .any, ts => (ts.takeWhile isOther, ts.dropWhile isOther)
  | .atMostOne, .mark :: .plain t :: rest => ([.mark, .plain t], rest)
  | .atMostOne, .plain t :: .mark :: rest => ([.plain t, .mark], rest)
  | .atMostOne, t :: rest => ([t], rest)
  | .atMostOne, [] => ([], [])
where
  isOther : Token → Bool
    | .option _ _ => false
    | _ => true

/-- Takes tokens from the left. `free` says that the places are not filled yet; the first other
arguments fill them, without the mark, and later ones have no place. `fuel` bounds the steps, each
of which takes a token. -/
def takeAll (specs : List Spec) (places : Places) (fuel : Nat) (free : Bool) (a : Arguments)
    (ts : List Token) : Except Stop Arguments :=
  match fuel, ts with
  | 0, _ => .ok a
  | _ + 1, [] => .ok a
  | n + 1, .option argument r :: rest =>
    match takeOption specs a argument r rest with
    | .error e => .error e
    | .ok (a, rest) => takeAll specs places n free a rest
  | n + 1, t :: rest =>
    if free then
      let (taken, left) := fill places (t :: rest)
      takeAll specs places n false
        { a with inputs := (taken.map Token.argument).erase mark } left
    else takeAll specs places n free (a.addExtra t.argument) rest

/-- The settings of a command line without commands in it. -/
def parse (specs : List Spec) (places : Places) (arguments : List Text) : Except Stop Arguments :=
  match scan specs arguments with
  | .error f => .error (.fault f)
  | .ok ts => takeAll specs places ts.length true empty ts

end Arguments

end JsonShape.Command
