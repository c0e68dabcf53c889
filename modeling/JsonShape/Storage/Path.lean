import JsonShape.Text.Utf8
/-!
# JsonShape.Storage.Path

Paths as people write them, with slashes between their components.

* `Path.directory`, `Path.name`: what stands before and behind the last slash.
* `Path.fault?`: why a text is no path anywhere.
* `Path.names`: the components as the storage knows them, which is by their bytes.
-/

namespace JsonShape.Storage

namespace Path

def slash : CodePoint := '/'

def here : Text := "."

/-- The part behind the last slash. -/
def name (path : Text) : Text := (path.reverse.takeWhile (· ≠ slash)).reverse

/-- The part up to the last slash, without the slashes at its end unless it is nothing else. -/
def directory (path : Text) : Text :=
  let upTo := path.reverse.dropWhile (· ≠ slash)
  if upTo.all (· = slash) then upTo.reverse else (upTo.dropWhile (· = slash)).reverse

theorem length_takeWhile_add_dropWhile {α : Type} (p : α → Bool) (as : List α) :
    (as.takeWhile p).length + (as.dropWhile p).length = as.length := by
  rw [← List.length_append, List.takeWhile_append_dropWhile]

theorem length_dropWhile_le {α : Type} (p : α → Bool) (as : List α) :
    (as.dropWhile p).length ≤ as.length := by
  have := length_takeWhile_add_dropWhile p as
  omega

theorem length_directory_add_length_name_le (path : Text) :
    (directory path).length + (name path).length ≤ path.length := by
  have h := length_takeWhile_add_dropWhile (· ≠ slash) path.reverse
  have h' := length_dropWhile_le (· = slash) (path.reverse.dropWhile (· ≠ slash))
  simp only [List.length_reverse] at h
  simp only [directory, name]
  split <;> simp only [List.length_reverse] <;> omega

/-- A path without slashes at its end, split at its last slash. -/
def split (path : Text) : Text × Text :=
  if (name path).isEmpty then (directory (directory path), name (directory path))
  else (directory path, name path)

theorem length_split_lt {path : Text} (h : (split path).2 ≠ []) :
    (split path).1.length < path.length := by
  have h₁ := length_directory_add_length_name_le path
  have h₂ := length_directory_add_length_name_le (directory path)
  unfold split at h ⊢
  split
  · rename_i he
    rw [if_pos he] at h
    have : 0 < (name (directory path)).length := List.length_pos_iff.mpr h
    dsimp only
    omega
  · rename_i he
    rw [if_neg he] at h
    have : 0 < (name path).length := List.length_pos_iff.mpr h
    dsimp only
    omega

/-- What keeps a text from being a path: it has no bytes, or there is a NUL in it. -/
inductive Fault where
  | surrogates (s : Utf8.Surrogates)
  | nul
  deriving DecidableEq

def Fault.message : Fault → Text
  | .surrogates s => s.message
  | .nul => "embedded null byte"

/-- Names are bytes, not all of them UTF-8; a surrogate can stand for one of the others. -/
def hasBytes (c : CodePoint) : Bool := c.isScalar || c.isLoneByte

def fault? (path : Text) : Option Fault :=
  match Utf8.surrogates? hasBytes path with
  | some s => some (.surrogates s)
  | none => if path.contains (CodePoint.ofNat 0) then some .nul else none

/-- The bytes of a path, or of a name in one. -/
def bytes (path : Text) : Bytes :=
  path.flatMap fun c => if c.isLoneByte then [(c.toNat - 0xDC00).toUInt8] else Utf8.encodeOne c

/-- The text of a name: bytes that are no UTF-8 are the surrogates that stand for them. Each fault
takes a byte at least, so the length of the name is `fuel` enough. -/
def textFrom (fuel : Nat) (bs : Bytes) : Text :=
  match fuel with
  | 0 => []
  | fuel + 1 =>
    match Utf8.decode bs with
    | .ok t => t
    | .error f =>
      let lone := (bs.drop f.start).take f.span
      (Utf8.decode (bs.take f.start)).toOption.getD [] ++
        lone.map (fun b => CodePoint.ofNat (0xDC00 + b.toNat)) ++
        textFrom fuel (bs.drop (f.start + f.span))

def ofBytes (name : Bytes) : Text := textFrom (name.length + 1) name

/-- The components of a path. -/
def names (path : Text) : List Bytes := (Text.splitOn slash path).map bytes

/-- The bytes that a name has at most. -/
def maxNameBytes : Nat := 255

/-- The bytes that a path has at most. -/
def maxBytes : Nat := 4095

end Path

end JsonShape.Storage
