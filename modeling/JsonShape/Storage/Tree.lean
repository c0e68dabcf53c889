import JsonShape.Storage.Path
import JsonShape.Text.Quoted
import JsonShape.Text.Utf8
/-!
# JsonShape.Storage.Tree

Files and directories, told by their places from the current directory.

* `Tree.locate`: the place that a path names.
* `Tree.read`, `Tree.write`: whole files.
* `Tree.makeDirectories`: a directory with those above it.
* `Tree.changes`: what is new in a storage or differs from before.
* `Fault`: why the storage refuses.
-/

namespace JsonShape.Storage

inductive Cause where
  | notFound
  | taken
  | notDirectory
  | isDirectory
  | nameTooLong
  deriving DecidableEq

/-- The number of a cause. -/
def Cause.number : Cause → Nat
  | .notFound => 2
  | .taken => 17
  | .notDirectory => 20
  | .isDirectory => 21
  | .nameTooLong => 36

def Cause.message : Cause → Text
  | .notFound => "No such file or directory"
  | .taken => "File exists"
  | .notDirectory => "Not a directory"
  | .isDirectory => "Is a directory"
  | .nameTooLong => "File name too long"

/-- A refusal of the storage, with the path that was asked for, or what keeps a text from being a
path at all. -/
inductive Fault where
  | refused (cause : Cause) (path : Text)
  | noPath (f : Path.Fault)
  deriving DecidableEq

def Fault.message : Fault → Text
  | .refused cause path =>
    "[Errno " ++ Text.ofNat cause.number ++ "] " ++ cause.message ++ ": " ++ path.quoted
  | .noPath f => f.message

/-- Whether something stands in the way of what should be made. -/
def Fault.isTaken : Fault → Bool
  | .refused .taken _ => true
  | _ => false

/-- The names that lead to a place from the current directory. The root has the empty name, which
no other place has. -/
abbrev Place := List Bytes

namespace Place

def up : Bytes := Path.bytes ".."

def here : Bytes := Path.bytes Path.here

/-- The place of a name in the current directory. -/
def named (name : Text) : Place := [Path.bytes name]

def root : Place := [[]]

/-- Whether a place is the root, or the current directory or one above it. -/
def isAbove (p : Place) : Bool := p = root || p.all (· = up)

/-- The place above. The root has only itself above it. -/
def parent (p : Place) : Place :=
  if p = root then root else if p.all (· = up) then p ++ [up] else p.dropLast

/-- The place that a component of a path leads to. -/
def enter (p : Place) (c : Bytes) : Place :=
  if c.isEmpty || c = here then p else if c = up then p.parent else p ++ [c]

/-- A path that names a place. -/
def path (p : Place) : Text := Text.join [Path.slash] (p.map Path.ofBytes)

/-- Where the components of a path start from. -/
def start (path : Text) : Place := if path.head? = some Path.slash then root else []

/-- The places on the way along a path, the last of which it names. -/
def along (path : Text) : List Place :=
  ((Path.names path).foldl (fun (p, ps) c => (p.enter c, p.enter c :: ps))
    (start path, [])).2.reverse

end Place

inductive Node where
  | directory
  | file (content : Bytes)
  deriving DecidableEq

structure Tree where
  nodes : List (Place × Node)

namespace Tree

def empty : Tree := ⟨[]⟩

/-- What stands at a place. The root, the current directory and those above it are always there. -/
def node? (t : Tree) (p : Place) : Option Node :=
  if p.isAbove then some .directory
  else (t.nodes.find? fun n => n.1 = p).map Prod.snd

def putNode (p : Place) (n : Node) : List (Place × Node) → List (Place × Node)
  | [] => [(p, n)]
  | (q, m) :: rest => if q = p then (q, n) :: rest else (q, m) :: putNode p n rest

def put (t : Tree) (p : Place) (n : Node) : Tree := ⟨putNode p n t.nodes⟩

def remove (t : Tree) (p : Place) : Tree := ⟨t.nodes.filter fun n => n.1 ≠ p⟩

/-- Follows names from a place; each must start from a directory and fit into it. -/
def walk (t : Tree) : Place → List Bytes → Except Cause Place
  | p, [] => .ok p
  | p, c :: cs =>
    match t.node? p with
    | none => .error .notFound
    | some (.file _) => .error .notDirectory
    | some .directory =>
      if Path.maxNameBytes < c.length then .error .nameTooLong
      else walk t (p.enter c) cs

/-- The place that a path names. The empty path names none. -/
def locate (t : Tree) (path : Text) : Except Cause Place :=
  if path.isEmpty then .error .notFound
  else t.walk (Place.start path) (Path.names path)

/-- Asks for a path, which must be one and not too long. -/
def ask {α : Type} (path : Text) (answer : Except Cause α) : Except Fault α :=
  match Path.fault? path with
  | some f => .error (.noPath f)
  | none =>
    if Path.maxBytes < (Path.bytes path).length then .error (.refused .nameTooLong path)
    else answer.mapError (.refused · path)

/-- What a path names, if it names anything. -/
def lookup (t : Tree) (path : Text) : Except Fault (Place × Node) :=
  ask path (match t.locate path with
    | .error c => .error c
    | .ok p =>
      match t.node? p with
      | none => .error .notFound
      | some n => .ok (p, n))

def pathExists (t : Tree) (path : Text) : Bool := (t.lookup path).toBool

def isDirectory (t : Tree) (path : Text) : Bool :=
  match t.lookup path with
  | .ok (_, .directory) => true
  | _ => false

/-- The content of a file. -/
def read (t : Tree) (path : Text) : Except Fault Bytes :=
  match t.lookup path with
  | .error f => .error f
  | .ok (_, .directory) => .error (.refused .isDirectory path)
  | .ok (_, .file content) => .ok content

def endsWithSlash (path : Text) : Bool := path.getLast? = some Path.slash

/-- The path without the slashes at its end, unless it is nothing else. -/
def trimSlashes (path : Text) : Text :=
  if path.all (· = Path.slash) then path else (path.reverse.dropWhile (· = Path.slash)).reverse

/-- Writes a whole file, new or in place of an old one. -/
def write (t : Tree) (path : Text) (content : Bytes) : Except Fault Tree :=
  ask path (match t.locate (trimSlashes path) with
    | .error c => .error c
    | .ok p =>
      if endsWithSlash path then .error .isDirectory
      else match t.node? p with
        | some .directory => .error .isDirectory
        | _ => .ok (t.put p (.file content)))

/-- Makes one directory. -/
def makeDirectory (t : Tree) (path : Text) : Except Fault Tree :=
  ask path (match t.locate (trimSlashes path) with
    | .error c => .error c
    | .ok p =>
      match t.node? p with
      | some _ => .error .taken
      | none => .ok (t.put p .directory))

/-- Makes the last directory of a path. `lenient` lets one that is there already pass. -/
def makeLast (lenient : Bool) (t : Tree) (path : Text) : Tree × Option Fault :=
  match t.makeDirectory path with
  | .ok t => (t, none)
  | .error f => (t, if lenient && t.isDirectory path then none else some f)

/-- Makes a directory and those above it that are missing. Above, one that is there already is let
pass; a last component that names the directory it is in needs nothing more. -/
def makeDirectories (lenient : Bool) (t : Tree) (path : Text) : Tree × Option Fault :=
  if _ : (Path.split path).1 ≠ [] ∧ (Path.split path).2 ≠ [] ∧
      t.pathExists (Path.split path).1 = false then
    match makeDirectories lenient t (Path.split path).1 with
    | (t, some f) =>
      if f.isTaken then
        if (Path.split path).2 = Path.here then (t, none) else makeLast lenient t path
      else (t, some f)
    | (t, none) => if (Path.split path).2 = Path.here then (t, none) else makeLast lenient t path
  else makeLast lenient t path
termination_by path.length
decreasing_by
  rename_i h
  exact Path.length_split_lt h.2.1

/-- What stands in `after` where something else or nothing stood in `before`. -/
def changes (before after : Tree) : List (Place × Node) :=
  after.nodes.filter fun n => before.node? n.1 ≠ some n.2

end Tree

end JsonShape.Storage
