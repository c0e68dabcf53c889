import JsonShape.Conversion
import JsonShape.Proofs.Inference.Files
import JsonShape.Proofs.Shape.File
import JsonShape.Proofs.Storage.Places
/-!
# JsonShape.Proofs.Conversion

Conversions one after the other.

* `Conversion.Written`: how writing ends. If it succeeds, directories are made for the output and one
  file is written; otherwise it is the output that fails.
* `Conversion.load_of_writeShape`: the shape file of samples holds the shape inferred from them.
* `Conversion.inferSome_of_writeShape`: writing it leaves what is inferred from other files.
* `Conversion.typeScript_through_shape`: declarations made from samples are those made from the
  samples' shape file, but for the source that they name.
-/

namespace JsonShape.Conversion

open Storage (Place Tree)

variable {tree tree' : Tree} {inputs : List Text} {out : Text} {l : Samples.Limit} {workers : Int}
  {a : Accumulator}

/-! ## Writing -/

/-- Whether it was the output that failed: there is none, it cannot be written, or a text has no
bytes. -/
def Failure.ofOutput : Failure → Bool
  | .noOutput | .output _ | .encoding _ => true
  | .samples _ | .noSamples | .shape _ | .noTypeName => false

/-- How writing a text ends that has these bytes, if it has any. -/
inductive Written (tree : Tree) (out : Option Text) (bytes : Except Utf8.Surrogates Bytes) :
    Tree → Except Failure Unit → Prop where
  | file {path : Text} {content : Bytes} {made tree' : Tree} : out = some path → bytes = .ok content →
      tree.Grows (Place.along (Storage.Path.directory path)) made →
      made.write path content = .ok tree' → Written tree out bytes tree' (.ok ())
  | fault {tree' : Tree} {f : Failure} : f.ofOutput = true → Written tree out bytes tree' (.error f)

section Writing

variable {out : Option Text} {result : Except Failure Unit}

theorem written_writeShape {s : Shape} (h : writeShape tree out s = (tree', result)) :
    Written tree out (.ok (Utf8.encode s.fileText)) tree' result := by
  cases out with
  | none =>
    cases h
    exact .fault rfl
  | some path =>
    rw [writeShape] at h
    split at h
    rename_i made fault hmade
    split at h
    · cases h
      exact .fault rfl
    · split at h
      · cases h
        exact .fault rfl
      · rename_i hwrite
        cases h
        exact .file rfl rfl (Tree.grows_of_unless hmade) hwrite

theorem written_writeText {t : Text} (h : writeText tree out t = (tree', result)) :
    Written tree out (Utf8.encode? t) tree' result := by
  cases out with
  | none =>
    cases h
    exact .fault rfl
  | some path =>
    rw [writeText] at h
    split at h
    rename_i made fault hmade
    split at h
    · cases h
      exact .fault rfl
    · dsimp only at h
      split at h
      · cases h
        exact .fault rfl
      · rename_i hwrite
        cases hcontent : Utf8.encode? t with
        | error s =>
          rw [hcontent] at h
          cases h
          exact .fault rfl
        | ok content =>
          rw [hcontent] at h hwrite
          cases h
          exact .file rfl rfl (Tree.grows_of_unless hmade) hwrite

end Writing

theorem exists_write_of_writeShape {s : Shape} (h : writeShape tree (some out) s = (tree', .ok ())) :
    ∃ made, tree.Grows (Place.along (Storage.Path.directory out)) made ∧
      made.write out (Utf8.encode s.fileText) = .ok tree' := by
  cases written_writeShape h with
  | file hout hbytes hgrows hwrite =>
    cases hout
    cases hbytes
    exact ⟨_, hgrows, hwrite⟩

/-! ## Samples to a shape file -/

theorem samplesToShape_eq_ok {log : List Log.Record}
    (h : samplesToShape tree inputs (some out) l workers = ⟨tree', log, .ok a⟩) :
    (inferSome tree inputs l workers).result = .ok a ∧
      writeShape tree (some out) a.shape = (tree', .ok ()) := by
  rw [samplesToShape] at h
  dsimp only at h
  split at h
  · cases h
  · rename_i b hinfer
    cases hwritten : writeShape tree (some out) b.shape with
    | mk made written =>
      rw [hwritten] at h
      cases written with
      | error f => cases h
      | ok u =>
        cases h
        exact ⟨hinfer, hwritten⟩

theorem inferFiles_of_inferSome (h : (inferSome tree inputs l workers).result = .ok a) :
    (inferFiles tree inputs l workers).result = .ok a := by
  rw [inferSome] at h
  dsimp only at h
  split at h
  · cases h
  · rename_i b hinfer
    split at h
    · cases h
    · cases h
      exact hinfer

theorem load_of_writeShape (hinfer : (inferSome tree inputs l workers).result = .ok a)
    (hwrite : writeShape tree (some out) a.shape = (tree', .ok ())) :
    Shape.load tree' out = .ok a.shape := by
  obtain ⟨made, -, hwrite⟩ := exists_write_of_writeShape hwrite
  have hfiles := inferFiles_of_inferSome hinfer
  exact Shape.load_of_read (wellFormed_of_inferFiles hfiles) (keyed_of_inferFiles hfiles)
    (Tree.read_write hwrite)

/-- Files other than the output are inferred from as before. -/
theorem inferSome_of_writeShape {s : Shape} (hinfer : (inferSome tree inputs l workers).result = .ok a)
    (hwrite : writeShape tree (some out) s = (tree', .ok ()))
    (hother : ∀ path ∈ inputs, tree'.place? path ≠ tree'.place? out) :
    inferSome tree' inputs l workers = inferSome tree inputs l workers := by
  obtain ⟨made, hgrows, hwrite⟩ := exists_write_of_writeShape hwrite
  have hkept : ∀ path ∈ inputs, ∀ content, tree.read path = .ok content →
      tree'.read path = .ok content := fun path hpath content hread =>
    Tree.read_write_of_ne hwrite (Tree.read_of_keeps hgrows.keeps hread) (hother path hpath)
  rw [inferSome, inferSome, inferFiles_congr hkept (inferFiles_of_inferSome hinfer)]

/-! ## Declarations -/

/-- The comment that declarations begin with. -/
def header (source : Text) : Text := "// Generated by shapegen from " ++ source ++ ". Do not edit."

/-- What follows the comment. -/
def declarations (s : Shape) (name : Text) : Text :=
  let e := TypeScript.declare s (Text.typeName name)
  e.interfaces.flatMap TypeScript.Interface.render ++
    (e.value.map TypeScript.Alias.render).getD [] ++ "\n"

theorem render_generate (s : Shape) (name source : Text) :
    (TypeScript.generate s name source).render = header source ++ declarations s name := by
  rw [TypeScript.generate, TypeScript.Document.render, header, declarations]
  simp only [List.append_assoc]

/-- A conversion comes down to writing the text `t`: the file `out` holds the text's bytes, unless
they cannot be written. -/
structure Outcome.Writes (o : Outcome Unit) (tree : Tree) (out : Option Text) (t : Text) : Prop where
  written : (o.tree, o.result) = writeText tree out t
  content : o.result = .ok () → ∃ path, out = some path ∧ o.tree.read path = .ok (Utf8.encode t)

theorem writes_of_written {o : Outcome Unit} {ts : Option Text} {t : Text}
    (h : (o.tree, o.result) = writeText tree ts t) : o.Writes tree ts t := by
  refine ⟨h, fun hok => ?_⟩
  rw [hok] at h
  cases written_writeText h.symm with
  | file hout hbytes _ hwrite =>
    rw [Utf8.encode?_eq_ok hbytes] at hwrite
    exact ⟨_, hout, Tree.read_write hwrite⟩

theorem shapeToTypeScript_writes {s : Shape} (h : Shape.load tree out = .ok s) (ts : Option Text)
    (name : Text) : (shapeToTypeScript tree out ts (some name)).Writes tree ts
      (header (Storage.Path.name out) ++ declarations s name) := by
  refine writes_of_written ?_
  rw [shapeToTypeScript, h, ← render_generate]
  rfl

theorem samplesToTypeScript_writes (h : (inferSome tree inputs l workers).result = .ok a)
    (ts : Option Text) (name : Text) :
    (samplesToTypeScript tree inputs ts (some name) l workers).Writes tree ts
      (header (Text.join ", " (inputs.map Storage.Path.name)) ++ declarations a.shape name) := by
  refine writes_of_written ?_
  rw [samplesToTypeScript]
  dsimp only
  rw [h, ← render_generate]
  rfl

/-- Whatever bytes the samples are and however they are inferred from, the shape file written from
them is read as the shape that was inferred, with its fields and members in the same order. So
declarations made from the file and from the samples, now or before the file was written, are the
same texts behind the comment that names their source. -/
theorem typeScript_through_shape (tree tree' : Tree) (inputs : List Text) (out : Text)
    (l : Samples.Limit) (workers : Int) (log : List Log.Record) (a : Accumulator)
    (h : samplesToShape tree inputs (some out) l workers = ⟨tree', log, .ok a⟩) :
    Shape.InferredFrom (Samples.Stream.read tree inputs l).values a.shape ∧
    Shape.load tree' out = .ok a.shape ∧
    ∀ name : Text, ∃ body : Text,
      (∀ source, (TypeScript.generate a.shape name source).render = header source ++ body) ∧
      (∀ ts, (shapeToTypeScript tree' out ts (some name)).Writes tree' ts
        (header (Storage.Path.name out) ++ body)) ∧
      (∀ ts, (samplesToTypeScript tree inputs ts (some name) l workers).Writes tree ts
        (header (Text.join ", " (inputs.map Storage.Path.name)) ++ body)) ∧
      ((∀ path ∈ inputs, tree'.place? path ≠ tree'.place? out) →
        ∀ ts, (samplesToTypeScript tree' inputs ts (some name) l workers).Writes tree' ts
          (header (Text.join ", " (inputs.map Storage.Path.name)) ++ body)) := by
  obtain ⟨hinfer, hwrite⟩ := samplesToShape_eq_ok h
  have hload := load_of_writeShape hinfer hwrite
  refine ⟨(inferredFrom_of_inferFiles (inferFiles_of_inferSome hinfer)).2, hload, fun name =>
    ⟨declarations a.shape name, render_generate a.shape name, fun ts => ?_, fun ts => ?_, ?_⟩⟩
  · exact shapeToTypeScript_writes hload ts name
  · exact samplesToTypeScript_writes hinfer ts name
  · intro hother ts
    have hsame := inferSome_of_writeShape hinfer hwrite hother
    exact samplesToTypeScript_writes (hsame ▸ hinfer) ts name

/-- Keys with a carriage return, a delete character, and surrogates that make no pair. -/
def oddSamples : Tree :=
  Tree.empty.put (Storage.Place.named "samples") (.file (Utf8.encode
    "\x7b\"\\r\\ud800\": [], \"\\u007f\": null\x7d\n[true]\n\x7b\"\\udc00\\ud800\": null\x7d"))

theorem typeScript_through_shape_odd_keys :
    let o := samplesToShape oddSamples ["samples"] (some "shape") (.upTo 0) 1
    ∃ a, o.result = .ok a ∧ Shape.load o.tree "shape" = .ok a.shape ∧ ∃ body : Text,
      (∀ ts, (shapeToTypeScript o.tree "shape" ts (some "Root")).Writes o.tree ts
        (header "shape" ++ body)) ∧
      (∀ ts, (samplesToTypeScript o.tree ["samples"] ts (some "Root") (.upTo 0) 1).Writes o.tree ts
        (header "samples" ++ body)) := by
  intro o
  have hok : o.result.toBool = true := by decide +kernel
  have hother : ∀ path ∈ [("samples" : Text)], o.tree.place? path ≠ o.tree.place? "shape" := by
    decide +kernel
  have hshape : Storage.Path.name "shape" = "shape" := by decide
  have hsamples : Text.join ", " ([("samples" : Text)].map Storage.Path.name) = "samples" := by decide
  cases hresult : o.result with
  | error f =>
    rw [hresult] at hok
    cases hok
  | ok a =>
    have h : o = ⟨o.tree, o.log, .ok a⟩ := by rw [← hresult]
    obtain ⟨-, hload, hall⟩ := typeScript_through_shape _ _ _ _ _ _ _ _ h
    obtain ⟨body, -, htwo, -, hone⟩ := hall "Root"
    rw [hshape] at htwo
    rw [hsamples] at hone
    exact ⟨a, rfl, hload, body, htwo, hone hother⟩

end JsonShape.Conversion
