import JsonShape.Proofs.Json.Reading
import JsonShape.Proofs.Samples.Stream
import JsonShape.Proofs.Shape.Keyed
import JsonShape.Proofs.Text.Utf8
import JsonShape.Inference.Files
/-!
# JsonShape.Proofs.Inference.Files

The shapes of samples in files.

* `Samples.Stream.outcome`: what becomes of a stream, told apart from how its values are folded.
* `result_gather`, `result_collect`: the two ways of folding them, on the spot and in shards.
* `inferredFrom_of_inferFiles`: one worker or many, the shape is that of the values read.
* `wellFormed_of_inferFiles`, `keyed_of_inferFiles`: such a shape repeats no key, and its keys are
  written as literals that are read back.
* `inferFiles_congr`: a storage that keeps the files gives the same result.
* `found_inferFiles_congr`: so does a file of another name with the same samples, but for faults.
-/

namespace JsonShape

open Samples (Stream Limit)

/-- A decoded value was read from a text without surrogates. -/
theorem Samples.keyed_of_decodeBytes {bs : Bytes} {source : Text} {line : Int} {v : Json.Value}
    (h : decodeBytes bs source line = .ok v) : v.Keyed fun key => key.unpaired = true := by
  rw [decodeBytes] at h
  split at h
  · cases h
  · rename_i t hdecode
    rw [decodeText] at h
    split at h
    · rename_i hread
      cases h
      exact Json.keyed_unpaired_of_read (Utf8.isScalar_of_mem_decode hdecode) hread
    · cases h
    · cases h

/-! ## What is worked out of a stream -/

theorem Accumulator.addAll_items (a : Accumulator) (s : Stream) :
    a.addAll s.items = ⟨(s.values.map Shape.ofValue).foldl Shape.join a.shape,
      a.count + s.values.length, a.skipped ++ s.skipped⟩ := by
  obtain ⟨items, failure⟩ := s
  induction items generalizing a with
  | nil => simp [addAll, Stream.values, Stream.skipped]
  | cons sample items ih =>
    cases sample with
    | error f =>
      have hadd : a.addAll (.error f :: items) = (a.skip f).addAll items := rfl
      simp [hadd, ih, skip, Stream.values, Stream.skipped]
    | ok v =>
      have hadd : a.addAll (.ok v :: items) = (a.observe v).addAll items := rfl
      simp [hadd, ih, observe, Stream.values, Stream.skipped, Nat.add_assoc, Nat.add_comm 1]

/-- A stream's outcome when a shape is made of its values: none if the stream failed, or the shape
with the number of values and the skipped samples. -/
def Samples.Stream.outcome (s : Stream) (fold : List Json.Value → Except FilesFault Shape) :
    Except FilesFault Accumulator :=
  match s.failure with
  | some f => .error (.stream f)
  | none => (fold s.values).map fun shape => ⟨shape, s.values.length, s.skipped⟩

theorem Samples.Stream.outcome_eq_ok {s : Stream} {fold : List Json.Value → Except FilesFault Shape}
    {a : Accumulator} (h : s.outcome fold = .ok a) : s.failure = none ∧
      ∃ shape, fold s.values = .ok shape ∧ a = ⟨shape, s.values.length, s.skipped⟩ := by
  unfold outcome at h
  cases hfailure : s.failure with
  | some f =>
    rw [hfailure] at h
    cases h
  | none =>
    rw [hfailure] at h
    cases hfold : fold s.values with
    | error f =>
      rw [hfold] at h
      cases h
    | ok shape =>
      rw [hfold] at h
      cases h
      exact ⟨rfl, shape, rfl, rfl⟩

theorem result_gather (s : Stream) :
    (gather s).result = s.outcome fun vs => .ok (Shape.infer vs) := by
  unfold gather Samples.Stream.outcome
  cases s.failure with
  | some f => rfl
  | none =>
    dsimp only
    rw [Accumulator.addAll_items]
    simp [Accumulator.empty, Shape.infer, Shape.joinAll, Except.map]

theorem result_collect (s : Stream) (workers : Option Int) :
    (collect s workers).result = s.outcome fun vs =>
      (Shape.inferSharded vs workers Shape.standardShardSize).result.mapError .shards := by
  unfold collect Samples.Stream.outcome
  cases s.failure with
  | some f => rfl
  | none =>
    dsimp only
    cases (Shape.inferSharded s.values workers Shape.standardShardSize).result <;> rfl

section Files

variable {tree tree' : Storage.Tree} {paths : List Text} {l : Limit} {workers : Int} {a : Accumulator}

theorem inferredFrom_of_gather {s : Stream} (h : (gather s).result = .ok a) :
    s.failure = none ∧ Shape.InferredFrom s.values a.shape := by
  rw [result_gather] at h
  obtain ⟨hfailure, shape, hshape, rfl⟩ := Stream.outcome_eq_ok h
  cases hshape
  exact ⟨hfailure, .infer⟩

theorem inferredFrom_of_collect {s : Stream} {workers : Option Int}
    (h : (collect s workers).result = .ok a) :
    s.failure = none ∧ Shape.InferredFrom s.values a.shape := by
  rw [result_collect] at h
  obtain ⟨hfailure, shape, hshape, rfl⟩ := Stream.outcome_eq_ok h
  cases hsharded : (Shape.inferSharded s.values workers Shape.standardShardSize).result with
  | error f =>
    rw [hsharded] at hshape
    cases hshape
  | ok t =>
    rw [hsharded] at hshape
    cases hshape
    exact ⟨hfailure, .sharded hsharded⟩

/-- A shape is only inferred from a stream that ends well. -/
theorem inferredFrom_of_inferFiles (h : (inferFiles tree paths l workers).result = .ok a) :
    (Stream.read tree paths l).failure = none ∧
      Shape.InferredFrom (Stream.read tree paths l).values a.shape := by
  rw [inferFiles] at h
  split at h
  · cases h
  · split at h
    · exact inferredFrom_of_gather h
    · exact inferredFrom_of_collect h

theorem keyed_of_mem_read {v : Json.Value} (hv : v ∈ (Stream.read tree paths l).values) :
    v.Keyed fun key => key.unpaired = true := by
  obtain ⟨bs, source, line, hdecode⟩ := Stream.exists_decodeBytes_of_mem hv
  exact Samples.keyed_of_decodeBytes hdecode

theorem wellFormed_of_inferFiles (h : (inferFiles tree paths l workers).result = .ok a) :
    a.shape.WellFormed :=
  (inferredFrom_of_inferFiles h).2.wellFormed fun _ hv => (keyed_of_mem_read hv).wellFormed

theorem keyed_of_inferFiles (h : (inferFiles tree paths l workers).result = .ok a) :
    a.shape.Keyed fun key => key.unpaired = true :=
  (inferredFrom_of_inferFiles h).2.keyed fun _ hv => keyed_of_mem_read hv

theorem inferFiles_congr
    (hkept : ∀ path ∈ paths, ∀ content, tree.read path = .ok content → tree'.read path = .ok content)
    (h : (inferFiles tree paths l workers).result = .ok a) :
    inferFiles tree' paths l workers = inferFiles tree paths l workers := by
  have hread := Stream.read_congr hkept (inferredFrom_of_inferFiles h).1
  rw [inferFiles, inferFiles, hread]

end Files

/-! ## What depends on the values -/

namespace Accumulator

/-- What a conversion uses of an accumulator: its shape and the number of values. -/
def found (a : Accumulator) : Shape × Nat := (a.shape, a.count)

end Accumulator

theorem found_outcome_congr {s t : Stream} (h : s.Alike t)
    (fold : List Json.Value → Except FilesFault Shape) :
    (s.outcome fold).map Accumulator.found = (t.outcome fold).map Accumulator.found := by
  unfold Samples.Stream.outcome
  rw [h.values, h.failure]
  cases t.failure with
  | some f => rfl
  | none => cases fold t.values <;> rfl

/-- The names of files and what is skipped in them have no say in the shape. -/
theorem found_inferFiles_congr {tree tree' : Storage.Tree} {path path' : Text} {l : Limit}
    (h : (Stream.read tree [path] l).Alike (.read tree' [path'] l)) (workers : Int) :
    (inferFiles tree [path] l workers).result.map Accumulator.found =
      (inferFiles tree' [path'] l workers).result.map Accumulator.found := by
  have hone : ∀ {tree path}, inferFiles tree [path] l workers =
      if workers = 1 then gather (.read tree [path] l)
      else collect (.read tree [path] l) (workersOf workers) := fun {_ _} => rfl
  rw [hone, hone]
  split
  · rw [result_gather, result_gather, found_outcome_congr h]
  · rw [result_collect, result_collect, found_outcome_congr h]

end JsonShape
