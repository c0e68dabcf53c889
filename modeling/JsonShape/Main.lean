import JsonShape.Command.Run
/-!
# JsonShape.Main

The program on a real storage. What the arguments may name is loaded before the run, and what the
run changed is saved after it; everything in between is `Command.run`.
-/

namespace JsonShape.Main

open Storage (Node Place Tree)

/-- What an argument may name: itself, or what follows an equals sign in it. -/
def pathsIn (argument : Text) : List Text :=
  argument :: (Command.cutAtEquals argument).2.toList

/-- Loads what stands at a place, unless that is known. -/
def load (tree : Tree) (p : Place) : IO Tree := do
  if (tree.node? p).isSome then return tree
  let path := (← IO.currentDir) / Text.toString p.path
  if ← path.isDir then return tree.put p .directory
  if ← path.pathExists then return tree.put p (.file (← IO.FS.readBinFile path).toList)
  return tree

/-- Loads what has the name of a temporary file, up to the first name that is free. -/
partial def loadTemporary (avoid : List Bytes) (tree : Tree) : IO Tree := do
  let loaded ← load tree (.named (Command.temporaryName avoid tree))
  if loaded.nodes.length = tree.nodes.length then return tree else loadTemporary avoid loaded

/-- The names in the paths of a command line, which temporary files do not get. -/
def namesIn (arguments : List Text) : List Bytes :=
  match Command.CommandLine.parse arguments with
  | .error _ => []
  | .ok c => (c.request.toList.flatMap Command.Request.paths).flatMap Storage.Path.names

def save (p : Place) (n : Node) : IO Unit := do
  let path := (← IO.currentDir) / Text.toString p.path
  match n with
  | .directory => IO.FS.createDir path
  | .file content => IO.FS.writeBinFile path ⟨content.toArray⟩

partial def readToEnd (stream : IO.FS.Stream) (done : ByteArray) : IO ByteArray := do
  let chunk ← stream.read 65536
  if chunk.isEmpty then return done
  readToEnd stream (done ++ chunk)

def print (stream : IO.FS.Stream) (t : Text) : IO Unit := do
  stream.write ⟨(Utf8.encode t).toArray⟩
  stream.flush

/-- What the system says of a run that was broken off. -/
def report (b : Command.Break) : Text :=
  (b.error.toList ++ [b.refusal]).flatMap (· ++ [.newline])

/-- Runs a command line; the answer is the exit code. -/
def run (arguments : List Text) : IO UInt32 := do
  let places := (arguments.flatMap pathsIn).flatMap Place.along
  let avoid := namesIn arguments
  let loaded ← loadTemporary avoid (← places.foldlM load Tree.empty)
  let first := Command.temporaryName avoid loaded
  let before ← loadTemporary (Storage.Path.bytes first :: avoid) loaded
  let stdin ←
    if Command.readsStdin arguments then readToEnd (← IO.getStdin) ByteArray.empty
    else pure ByteArray.empty
  let surroundings := Command.Surroundings.numbered .utf8 avoid arguments before
  let result := Command.run surroundings arguments before stdin.toList
  (Tree.changes before result.tree).forM fun c => save c.1 c.2
  print (← IO.getStdout) result.stdout
  print (← IO.getStderr) (result.stderr ++ (result.broken.map report).getD [])
  return result.exit.toUInt32

end JsonShape.Main

def main (arguments : List String) : IO UInt32 :=
  JsonShape.Main.run (arguments.map JsonShape.Text.ofString)
