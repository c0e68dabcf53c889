import JsonShape.Proofs.Command.Console
import JsonShape.Proofs.Command.TemporaryName
import JsonShape.Proofs.Conversion
/-!
# JsonShape.Proofs.Command.StandardInput

Samples on standard input. A run without inputs reads all of standard input as one text and infers
from a copy of it, in which the ends of lines are unified; a run on a file reads the file's bytes.

* `Conversion.deliver`: what a conversion to a shape does with the shape that was found.
* `Conversion.deliver_congr`: it does the same in storages that differ only at names it does not use.
* `Command.standardInput_as_copy`: a run on standard input is a run on a file with the copy's bytes,
  and on one with the very same bytes if no sample has a carriage return in it. Where the bytes are no
  UTF-8, it fails before any sample is looked at; `Command.standardInput_loses_lines`: that loses samples.
-/

namespace JsonShape

open Storage (IsOwnName IsPlainName Place Tree)

/-! ## The conversion -/

namespace Conversion

/-- What becomes of a shape that was found: it is written, or there is a failure. -/
def deliver (tree : Tree) (out : Option Text) : Except Failure (Shape × Nat) → Tree × Option Failure
  | .error f => (tree, some f)
  | .ok (s, _) =>
    match writeShape tree out s with
    | (tree, .error f) => (tree, some f)
    | (tree, .ok ()) => (tree, none)

theorem found_inferSome (tree : Tree) (inputs : List Text) (l : Samples.Limit) (workers : Int) :
    (inferSome tree inputs l workers).result.map Accumulator.found =
      match (inferFiles tree inputs l workers).result.map Accumulator.found with
      | .error f => .error (.samples f)
      | .ok (s, n) => if n = 0 then .error .noSamples else .ok (s, n) := by
  rw [inferSome]
  cases (inferFiles tree inputs l workers).result with
  | error f => rfl
  | ok a =>
    by_cases hcount : a.count = 0
    · simp [Except.map, Accumulator.found, hcount]
    · simp [Except.map, Accumulator.found, hcount]

/-- The conversion delivers what was found. -/
theorem deliver_found (tree : Tree) (inputs : List Text) (out : Option Text) (l : Samples.Limit)
    (workers : Int) :
    let d := Command.Done.of (samplesToShape tree inputs out l workers)
    (d.tree, d.failure) =
      deliver tree out ((inferSome tree inputs l workers).result.map Accumulator.found) := by
  rw [samplesToShape]
  dsimp only
  cases (inferSome tree inputs l workers).result with
  | error f => rfl
  | ok a =>
    simp only [Except.map, Accumulator.found, deliver]
    obtain ⟨written, result⟩ := writeShape tree out a.shape
    cases result <;> rfl

section Congr

variable {n : Bytes} (hn : IsOwnName n) {t t' : Tree} (h : Tree.Agree n t t')

include hn h

theorem writeShape_congr {out : Option Text} {s : Shape} {u u' : Tree} {result result' : Except Failure Unit}
    (hout : ∀ path, out = some path → n ∉ Storage.Path.names path)
    (hwritten : writeShape t out s = (u, result)) (hwritten' : writeShape t' out s = (u', result')) :
    result = result' ∧ Tree.Agree n u u' := by
  cases out with
  | none =>
    cases hwritten
    cases hwritten'
    exact ⟨rfl, h⟩
  | some out =>
    have hpath := hout out rfl
    have hdirectory : n ∉ Storage.Path.names (Storage.Path.directory out) := fun hmem =>
      (Storage.Path.mem_names_directory hmem).elim hpath hn.ne_nil
    rw [writeShape, Tree.pathExists_congr hn h hdirectory] at hwritten
    rw [writeShape] at hwritten'
    split at hwritten
    rename_i ready fault hready
    split at hwritten'
    rename_i ready' fault' hready'
    obtain ⟨rfl, hagree⟩ := Tree.agree_of_unless hn h hdirectory hready hready'
    cases fault with
    | some f =>
      cases hwritten
      cases hwritten'
      exact ⟨rfl, hagree⟩
    | none =>
      dsimp only at hwritten hwritten'
      rcases Tree.write_congr hn hagree hpath (Utf8.encode s.fileText) with ⟨f, hf, hf'⟩ | ⟨p, hp, hp'⟩
      · rw [hf] at hwritten
        rw [hf'] at hwritten'
        cases hwritten
        cases hwritten'
        exact ⟨rfl, hagree⟩
      · rw [hp] at hwritten
        rw [hp'] at hwritten'
        cases hwritten
        cases hwritten'
        exact ⟨rfl, hagree.put_both p _⟩

theorem deliver_congr (out : Option Text) (hout : ∀ path, out = some path → n ∉ Storage.Path.names path)
    (found : Except Failure (Shape × Nat)) :
    (deliver t out found).2 = (deliver t' out found).2 ∧
      Tree.Agree n (deliver t out found).1 (deliver t' out found).1 := by
  cases found with
  | error f => exact ⟨rfl, h⟩
  | ok found =>
    rw [deliver, deliver]
    cases hwritten : writeShape t out found.1 with
    | mk u result =>
      cases hwritten' : writeShape t' out found.1 with
      | mk u' result' =>
        obtain ⟨rfl, hagree⟩ := writeShape_congr hn h hout hwritten hwritten'
        cases result <;> exact ⟨rfl, hagree⟩

end Congr

/-- Nothing keeps a shape from being written to a file of a plain name. -/
theorem deliver_plain {name : Text} (hname : IsPlainName name) {tree : Tree}
    (hnode : tree.node? (.named name) ≠ some .directory) (found : Except Failure (Shape × Nat)) :
    deliver tree (some name) found =
      match found with
      | .error f => (tree, some f)
      | .ok (s, _) => (tree.put (.named name) (.file (Utf8.encode s.fileText)), none) := by
  cases found with
  | error f => rfl
  | ok found =>
    rw [deliver, writeShape]
    dsimp only
    simp only [hname.isWordName.directory_eq_nil, List.isEmpty_nil, Bool.true_or, if_true]
    rw [Tree.write_plain hname hnode]

end Conversion

/-! ## The run -/

namespace Command

open Conversion (deliver inferSome)

/-- The same request, with other inputs. -/
def Request.on (r : Request) (inputs : List Text) : Request :=
  { r with arguments := { r.arguments with inputs } }

/-- What is seen of a run by one who looks neither at the log nor at the storage. -/
def Result.seen (a : Result) : Nat × Text × Option Break := (a.exit, a.stdout, a.broken)

/-- Runs that end alike: with the same exit status and, where the output goes there, the same on
standard output. Whatever is read afterwards by a path without the name `n` is the same. -/
structure Result.Alike (d : Destination) (n : Bytes) (a b : Result) : Prop where
  exit : a.exit = b.exit
  seen : d = .standardOutput → a.seen = b.seen
  read : ∀ path, n ∉ Storage.Path.names path → a.tree.read path = b.tree.read path

/-- The shape that a request finds, and the number of samples. -/
def Options.found (o : Options) (tree : Tree) (inputs : List Text) :
    Except Conversion.Failure (Shape × Nat) :=
  (inferSome tree inputs o.limit o.workers).result.map Accumulator.found

theorem printed_of_found {tree u : Tree} {inputs : List Text} {o : Options} {path : Text} {s : Shape}
    {count : Nat} (hfound : o.found tree inputs = .ok (s, count))
    (hread : u.read path = .ok (Utf8.encode s.fileText)) :
    printed u path = s.fileText := by
  rw [Options.found] at hfound
  cases hsome : (inferSome tree inputs o.limit o.workers).result with
  | error f =>
    rw [hsome] at hfound
    cases hfound
  | ok a =>
    rw [hsome] at hfound
    cases hfound
    have hfiles := Conversion.inferFiles_of_inferSome hsome
    obtain ⟨hdecode, hunified⟩ :=
      Shape.decode_fileText (wellFormed_of_inferFiles hfiles) (keyed_of_inferFiles hfiles)
    rw [printed, hread]
    dsimp only
    rw [hdecode]
    exact hunified

section Runs

variable (s : Surroundings) (verbose : Bool) (tree : Tree) (inputs : List Text) {o : Options}

theorem convert_samplesToShape (out : Option Text) (o : Options) :
    let d := convert .samplesToShape tree inputs out o
    (d.tree, d.failure) = deliver tree out (o.found tree inputs) :=
  Conversion.deliver_found tree inputs out o.limit o.workers

theorem runOnFiles_named {out : Option Text} (ho : o.destination = .named out)
    (htakes : s.console.Takes [banner .samplesToShape inputs out, "\n"]) :
    let a := runOnFiles s verbose .samplesToShape tree inputs o
    let d := deliver tree out (o.found tree inputs)
    a.exit = (if d.2.isNone then 0 else 1) ∧ a.tree = d.1 := by
  have hd := convert_samplesToShape tree inputs out o
  dsimp only at hd ⊢
  rw [← hd, runOnFiles, ho]
  dsimp only
  rw [Console.print_of_takes htakes]
  dsimp only
  cases (convert .samplesToShape tree inputs out o).failure <;> exact ⟨rfl, rfl⟩

/-- What is seen of a run that prints the shape that it finds. -/
def shown (c : Console) : Except Conversion.Failure (Shape × Nat) → Nat × Text × Option Break
  | .error f => (Result.failed c [] f.message [] .empty).seen
  | .ok (s, _) =>
    let p := c.print [s.fileText]
    match p.refusal with
    | some refusal => (Result.failed c p.text refusal [] .empty).seen
    | none => (0, p.text, none)

/-- The file that stands in for standard output is gone in the end. -/
theorem runOnFiles_standardOutput (hname : IsPlainName s.output)
    (hfree : tree.node? (.named s.output) = none) (ho : o.destination = .standardOutput) :
    let a := runOnFiles s verbose .samplesToShape tree inputs o
    let u := tree.put (.named s.output) (.file [])
    a.seen = shown s.console (o.found u inputs) ∧ ∀ p, a.tree.node? p = tree.node? p := by
  intro a u
  have hput : u.node? (.named s.output) = some (.file []) := Tree.node?_put_plain hname tree _
  have hu : ∀ q, q ≠ Place.named s.output → u.node? q = tree.node? q :=
    fun q hq => Tree.node?_put_of_ne _ hq
  have hd := convert_samplesToShape u inputs (some s.output) o
  rw [Conversion.deliver_plain hname (by rw [hput]; nofun)] at hd
  unfold a
  rw [runOnFiles, ho]
  dsimp only
  generalize convert .samplesToShape u inputs (some s.output) o = d at hd ⊢
  obtain ⟨after, log, failure⟩ := d
  cases hfound : o.found u inputs with
  | error f =>
    rw [hfound] at hd
    obtain ⟨rfl, rfl⟩ := Prod.mk.inj hd
    exact ⟨rfl, fun p => Tree.node?_remove_plain hname hfree (hu p)⟩
  | ok found =>
    rw [hfound] at hd
    obtain ⟨rfl, rfl⟩ := Prod.mk.inj hd
    have hread := Tree.read_of_node? hname (Tree.node?_put_plain hname u (.file (Utf8.encode found.1.fileText)))
    have hclean : ∀ p, ((u.put (.named s.output) (.file (Utf8.encode found.1.fileText))).remove
        (.named s.output)).node? p = tree.node? p := fun p =>
      Tree.node?_remove_plain hname hfree fun hq => by rw [Tree.node?_put_of_ne _ hq, hu p hq]
    dsimp only
    rw [printed_of_found hfound hread, shown]
    cases (s.console.print [found.1.fileText]).refusal <;> exact ⟨rfl, hclean⟩

end Runs

theorem found_congr {tree tree' : Tree} {path path' : Text} {content content' : Bytes}
    (hread : tree.read path = .ok content) (hread' : tree'.read path' = .ok content')
    (h : Samples.bare (Samples.lines content) = Samples.bare (Samples.lines content')) (o : Options) :
    o.found tree [path] = o.found tree' [path'] := by
  have hstreams := Samples.Stream.alike_read hread hread' h o.limit
  rw [Options.found, Options.found, Conversion.found_inferSome, Conversion.found_inferSome,
    found_inferFiles_congr hstreams]

/-! ## The copy -/

section Copy

variable (s : Surroundings) (verbose : Bool)

/-- A run on a copy that is gone in the end. -/
def runOnCopy (tree : Tree) (o : Options) (content : Bytes) : Result :=
  let a := runOnFiles s verbose .samplesToShape (tree.put (.named s.input) (.file content)) [s.input] o
  { a with tree := a.tree.remove (.named s.input) }

variable {s} {r : Request} {tree : Tree} {o : Options} {path : Text} {content input : Bytes}
  (hfresh : s.Fresh r tree) (hread : tree.read path = .ok input)
  (hbare : Samples.bare (Samples.lines content) = Samples.bare (Samples.lines input))

include hfresh hread hbare

theorem alike_runOnCopy_named {out : Option Text} (ho : o.destination = .named out)
    (hout : ∀ p, out = some p → Storage.Path.bytes s.input ∉ Storage.Path.names p)
    (htakes : ∀ p ∈ [s.input, path], s.console.Takes [banner .samplesToShape [p] out, "\n"]) :
    (runOnCopy s verbose tree o content).Alike (.named out) (Storage.Path.bytes s.input)
      (runOnFiles s verbose .samplesToShape tree [path] o) := by
  have hname := hfresh.input
  have hmem : Storage.Path.bytes s.input ∈ Place.named s.input := List.mem_singleton_self _
  have htakesCopy := htakes s.input List.mem_cons_self
  have htakesFile := htakes path (List.mem_cons_of_mem _ (List.mem_singleton_self path))
  have hfound := found_congr (Tree.read_of_node? hname (Tree.node?_put_plain hname tree _)) hread hbare o
  obtain ⟨hexit, htree⟩ := runOnFiles_named s verbose
    (tree.put (.named s.input) (.file content)) [s.input] ho htakesCopy
  obtain ⟨hexit', htree'⟩ := runOnFiles_named s verbose tree [path] ho htakesFile
  obtain ⟨hfailure, hagree⟩ := Conversion.deliver_congr hname.isOwnName
    (Tree.agree_put hmem tree (.file content)) out hout (o.found tree [path])
  rw [hfound, hfailure, ← hexit'] at hexit
  rw [hfound] at htree
  have hafter := (Tree.agree_remove hmem _).trans (htree ▸ hagree)
  refine ⟨hexit, nofun, fun p hp => ?_⟩
  rw [htree']
  exact Tree.read_congr hname.isOwnName hafter hp

theorem alike_runOnCopy_standardOutput (ho : o.destination = .standardOutput) :
    (runOnCopy s verbose tree o content).Alike .standardOutput (Storage.Path.bytes s.input)
      (runOnFiles s verbose .samplesToShape tree [path] o) := by
  have hname := hfresh.input
  have hfree := hfresh.output_free
  have hfree' : (tree.put (.named s.input) (.file content)).node? (.named s.output) = none := by
    rw [Tree.node?_put_of_ne _ hfresh.place_ne, hfree]
  have hcopy := Tree.read_of_node? hname (Tree.node?_put_plain hname tree (.file content))
  obtain ⟨hseen, hclean⟩ := runOnFiles_standardOutput s verbose _ [s.input] hfresh.output hfree' ho
  obtain ⟨hseen', hclean'⟩ := runOnFiles_standardOutput s verbose tree [path] hfresh.output hfree ho
  -- What stands in for standard output has a name of its own, so the copy and the file are still there.
  rw [found_congr (Tree.read_of_keeps (Tree.keeps_put (.file []) hfree') hcopy)
    (Tree.read_of_keeps (Tree.keeps_put (.file []) hfree) hread) hbare o, ← hseen'] at hseen
  have hafter : ∀ q, (runOnCopy s verbose tree o content).tree.node? q = tree.node? q := fun q =>
    Tree.node?_remove_plain hname hfresh.input_free fun hq => by rw [hclean, Tree.node?_put_of_ne _ hq]
  exact ⟨(Prod.mk.inj hseen).1, fun _ => hseen, fun p hp =>
    Tree.read_congr hname.isOwnName (fun q _ => (hafter q).trans (hclean' q).symm) hp⟩

end Copy

/-- Without inputs, the outcome is that of a run on a file with the samples of a copy of standard
input, whatever the file is called and however its lines are spaced. The copy has the samples of the
bytes themselves just if no sample has a carriage return in it, as the copy ends a line there. Bytes
that are no UTF-8, on whatever line, leave nothing to infer from: the run fails and writes no shape.
What the inputs are called matters only to a console that does not take the names. -/
theorem standardInput_as_copy (s : Surroundings) (verbose : Bool) (r : Request) (tree : Tree)
    (bs : Bytes) (hverb : r.verb = .samplesToShape) (hfresh : s.Fresh (r.on []) tree) :
    let n := Storage.Path.bytes s.input
    let a := runRequest s verbose (r.on []) tree bs
    (∀ f, Utf8.decode bs = .error f →
      a.exit = 1 ∧
        (s.console.Takes ["Error: ", " ", f.message, "\n"] →
          a.stdout = "Error:  " ++ f.message ++ "\n") ∧
        ∀ path, n ∉ Storage.Path.names path → a.tree.read path = tree.read path) ∧
    ∀ t, Utf8.decode bs = .ok t →
      let copy := Utf8.encode (Text.unifyNewlines t)
      (Samples.bare (Samples.lines copy) = Samples.bare (Samples.lines bs) ↔
        ∀ l ∈ Samples.lines bs, Samples.carriageReturn ∉ Samples.trim l) ∧
      ∀ path input other, tree.read path = .ok input →
        Samples.bare (Samples.lines copy) = Samples.bare (Samples.lines input) →
        (∀ out, destinationOf r.arguments = .named out → ∀ p ∈ [s.input, path],
          s.console.Takes [banner r.verb [p] out, "\n"]) →
        Result.Alike (destinationOf r.arguments) n a (runRequest s verbose (r.on [path]) tree other) := by
  obtain ⟨verb, arguments⟩ := r
  obtain rfl : verb = .samplesToShape := hverb
  intro n a
  have ha : a = runRequest s verbose ⟨.samplesToShape, { arguments with inputs := [] }⟩ tree bs := rfl
  rw [runRequest] at ha
  dsimp only at ha
  refine ⟨fun f hdecode => ?_, fun t hdecode =>
    ⟨Samples.bare_lines_unifyNewlines_eq_iff hdecode, fun path input other hread hbare htakes => ?_⟩⟩
  · rw [hdecode] at ha
    rw [ha]
    refine ⟨rfl, fun htakes => ?_, fun path hpath => Tree.read_congr hfresh.input.isOwnName
      (Tree.agree_put (List.mem_singleton_self _) tree _) hpath⟩
    change [] ++ (s.console.print ["Error: ", " ", f.message, "\n"]).text = _
    rw [Console.print_of_takes htakes, flatten_errorPieces, List.nil_append]
  · rw [hdecode] at ha
    rw [ha]
    change (runOnCopy s verbose tree (.ofArguments arguments) _).Alike _ n
      (runOnFiles s verbose .samplesToShape tree [path] (.ofArguments arguments))
    cases ho : destinationOf arguments with
    | named out =>
      refine alike_runOnCopy_named verbose hfresh hread hbare ho (fun p hp => ?_) (htakes out ho)
      refine hfresh.input_unused p (List.mem_append_right _ ?_)
      have hdestination : destinationOf (Request.on ⟨.samplesToShape, arguments⟩ []).arguments =
          .named (some p) := hp ▸ ho
      rw [hdestination]
      exact List.mem_singleton_self p
    | standardOutput => exact alike_runOnCopy_standardOutput verbose hfresh hread hbare ho

/-- Carriage returns behind samples, and one by itself between them. -/
def returnsBehind : Bytes := Utf8.encode "\x7b\"a\": 1\x7d\r\n\r\n[]\r"

def filed (content : Bytes) : Tree := Tree.empty.put (Place.named "samples") (.file content)

theorem standardInput_as_copy_returns_behind :
    Result.Alike .standardOutput (Storage.Path.bytes "tmp0")
      (runRequest ordinary false ⟨.samplesToShape, .empty⟩ (filed returnsBehind) returnsBehind)
      (runRequest ordinary false ⟨.samplesToShape, ⟨[], ["samples"], []⟩⟩ (filed returnsBehind) []) := by
  have hplain : IsPlainName "samples" := ⟨by decide, by decide, by decide⟩
  have hread : (filed returnsBehind).read "samples" = .ok returnsBehind :=
    Tree.read_of_node? hplain (Tree.node?_put_plain hplain .empty _)
  have hreturn : ∀ l ∈ Samples.lines returnsBehind, Samples.carriageReturn ∉ Samples.trim l := by
    decide +kernel
  have hfresh : ordinary.Fresh ⟨.samplesToShape, .empty⟩ (filed returnsBehind) :=
    fresh_ordinary (by decide +kernel) nofun
  have hok : (Utf8.decode returnsBehind).toBool = true := by decide +kernel
  cases hdecode : Utf8.decode returnsBehind with
  | error f =>
    rw [hdecode] at hok
    cases hok
  | ok t =>
    obtain ⟨-, hall⟩ := standardInput_as_copy ordinary false ⟨.samplesToShape, .empty⟩
      (filed returnsBehind) returnsBehind rfl hfresh
    obtain ⟨hiff, halike⟩ := hall t hdecode
    exact halike "samples" returnsBehind [] hread (hiff.2 hreturn) nofun

/-- A line with a byte that is no UTF-8, behind a sample. -/
def illFormedBehind : Bytes := Utf8.encode "\x7b\"a\": 1\x7d\n" ++ [0xFF, 0x0A]

/-- The file's other line is used; standard input's is not. -/
theorem standardInput_loses_lines :
    (run ordinary ["jsonl2shape"] (filed illFormedBehind) illFormedBehind).exit = 1 ∧
    (run ordinary ["jsonl2shape", "samples"] (filed illFormedBehind) []).exit = 0 := by
  decide +kernel

end Command

end JsonShape
