import JsonShape.Proofs.Inference.Files
import JsonShape.Proofs.Shape.TypedPaths
/-!
# JsonShape.Proofs.Inference.Workers

What the number of workers changes. A single worker folds the values as they come; otherwise they are
collected, and counted, before they are folded in shards.

* `Shape.inferShards_of_length_le`: a single shard is folded from the left.
* `result_inferFiles`: what is worked out of files, one worker or many.
* `workers_agree`: only the order of joins differs, and with a single shard nothing does.
-/

namespace JsonShape

open Samples (Stream Limit)

/-- A list that fits into one part is that part, if there is anything in it. -/
theorem shards_of_length_le {α : Type} {size : Nat} {as : List α} (hne : as ≠ [])
    (h : as.length ≤ size) : shards size as = [as] := by
  cases as with
  | nil => exact absurd rfl hne
  | cons a rest =>
    have hrest : rest.length ≤ size - 1 := by
      rw [List.length_cons] at h
      omega
    rw [shards, shardsOfSucc, List.take_of_length_le hrest, List.drop_of_length_le hrest, shardsOfSucc]

theorem Shape.inferShards_of_length_le {size : Nat} {vs : List Json.Value} (h : vs.length ≤ size) :
    inferShards (shards size vs) = infer vs := by
  by_cases hvs : vs = []
  · simp [hvs, shards, shardsOfSucc, inferShards, joinPairs, infer, joinAll]
  · simp [shards_of_length_le hvs h, inferShards, joinPairs]

/-- If every list of values has a shape, only a stream that failed has no outcome. -/
theorem Samples.Stream.outcome_eq_error_iff {s : Stream} {fold : List Json.Value → Shape}
    {f : FilesFault} : (s.outcome fun vs => .ok (fold vs)) = .error f ↔
      ∃ g, s.failure = some g ∧ f = .stream g := by
  unfold outcome
  cases s.failure with
  | some g => simp [eq_comm]
  | none => simp [Except.map]

theorem Samples.Stream.outcome_of_failure_eq_none {s : Stream} (fold : List Json.Value → Shape)
    (h : s.failure = none) : (s.outcome fun vs => .ok (fold vs)) =
      .ok ⟨fold s.values, s.values.length, s.skipped⟩ := by
  rw [outcome, h]
  rfl

section Workers

variable {tree : Storage.Tree} {paths : List Text} {l : Limit} {workers : Int}

/-- How the values of a stream are folded. -/
def foldBy (workers : Int) (vs : List Json.Value) : Shape :=
  if workers = 1 then Shape.infer vs
  else Shape.inferShards (shards Shape.standardShardSize.toNat vs)

theorem foldBy_one (vs : List Json.Value) : foldBy 1 vs = Shape.infer vs := if_pos rfl

theorem foldBy_of_length_le {vs : List Json.Value} (h : vs.length ≤ 1000) :
    foldBy workers vs = Shape.infer vs := by
  unfold foldBy
  split
  · rfl
  · exact Shape.inferShards_of_length_le h

/-- The workers have a say in how the values are folded and in nothing else. -/
theorem result_inferFiles (hworkers : 0 ≤ workers) :
    (inferFiles tree paths l workers).result =
      if paths.isEmpty then .error .noFiles
      else (Stream.read tree paths l).outcome fun vs => .ok (foldBy workers vs) := by
  unfold inferFiles
  by_cases hpaths : paths.isEmpty = true
  · rw [if_pos hpaths, if_pos hpaths]
    rfl
  · rw [if_neg hpaths, if_neg hpaths]
    by_cases hone : workers = 1
    · rw [if_pos hone, result_gather, hone]
      simp only [foldBy_one]
    · have hpositive : ∀ n ∈ workersOf workers, 0 < n := by
        intro n hn
        unfold workersOf at hn
        split at hn
        · cases hn
        · cases hn
          omega
      have hfold : ∀ vs : List Json.Value,
          (Shape.inferSharded vs (workersOf workers) Shape.standardShardSize).result.mapError
            FilesFault.shards = .ok (foldBy workers vs) := by
        intro vs
        rw [Shape.inferSharded_result_eq_ok vs (by decide) hpositive, foldBy, if_neg hone]
        rfl
      rw [if_neg hone, result_collect]
      simp only [hfold]

end Workers

/-- However many workers there are, a run fails just if that of one worker does, and for the same
reason. Otherwise both count the values that were read and list the samples that were skipped, in
order, and find the same kinds under the same paths. As long as the values fit into one shard, the
shapes are the same one, with their fields and members in the same order. -/
theorem workers_agree (tree : Storage.Tree) (paths : List Text) (l : Limit) {workers : Int}
    (hworkers : 0 ≤ workers) :
    let s := Stream.read tree paths l
    let one := (inferFiles tree paths l 1).result
    let many := (inferFiles tree paths l workers).result
    (∀ f, many = .error f ↔ one = .error f) ∧
    ∀ a, one = .ok a → a.count = s.values.length ∧ a.skipped = s.skipped ∧
      ∃ b, many = .ok b ∧ b.count = a.count ∧ b.skipped = a.skipped ∧
        (∀ path k, b.shape.Has path k ↔ a.shape.Has path k) ∧
        (a.count ≤ 1000 → b.shape = a.shape) := by
  intro s one many
  have hone : one = _ := result_inferFiles Int.one_nonneg
  have hmany : many = _ := result_inferFiles hworkers
  by_cases hpaths : paths.isEmpty = true
  · simp [hone, hmany, hpaths]
  · rw [if_neg hpaths] at hone hmany
    refine ⟨fun f => ?_, fun a ha => ?_⟩
    · rw [hone, hmany, Stream.outcome_eq_error_iff, Stream.outcome_eq_error_iff]
    · obtain ⟨hfailure, -⟩ := Stream.outcome_eq_ok (hone.symm.trans ha)
      rw [Stream.outcome_of_failure_eq_none _ hfailure] at hone hmany
      have hvalues : ∀ v ∈ s.values, v.WellFormed := fun v hv => (keyed_of_mem_read hv).wellFormed
      have hhas : ∀ path k, (foldBy workers s.values).Has path k ↔ (foldBy 1 s.values).Has path k := by
        intro path k
        rw [(inferredFrom_of_inferFiles hmany).2.has_iff hvalues,
          (inferredFrom_of_inferFiles hone).2.has_iff hvalues]
      rw [hone] at ha
      cases ha
      refine ⟨rfl, rfl, _, hmany, rfl, rfl, hhas, fun hlen => ?_⟩
      rw [foldBy_of_length_le hlen, foldBy_one]

/-- Two files with blank lines, samples and lines that are none. -/
def mixedSamples : Storage.Tree :=
  (Storage.Tree.empty.put (Storage.Place.named "one") (.file (Utf8.encode "[1, null]\n\nx\n"))).put
    (Storage.Place.named "two") (.file (Utf8.encode "y\n\x7b\"a\": true\x7d\n2"))

theorem workers_agree_mixed_samples :
    let one := (inferFiles mixedSamples ["one", "two"] (.upTo 2) 1).result
    let many := (inferFiles mixedSamples ["one", "two"] (.upTo 2) 4).result
    (0 : Int) ≤ 4 ∧ ∃ a b, one = .ok a ∧ many = .ok b ∧ a.count = 2 ∧ b.count = 2 ∧
      a.skipped.length = 2 ∧ b.skipped = a.skipped ∧ b.shape = a.shape := by
  intro one many
  have hok : one.toBool = true := by decide +kernel
  have hread : (Stream.read mixedSamples ["one", "two"] (.upTo 2)).values.length = 2 ∧
      (Stream.read mixedSamples ["one", "two"] (.upTo 2)).skipped.length = 2 := by decide +kernel
  obtain ⟨hcount, hskipped⟩ := hread
  cases ha : one with
  | error f =>
    rw [ha] at hok
    cases hok
  | ok a =>
    have hworkers : (0 : Int) ≤ 4 := by omega
    obtain ⟨-, hall⟩ := workers_agree mixedSamples ["one", "two"] (.upTo 2) hworkers
    obtain ⟨hacount, haskipped, b, hb, hbcount, hbskipped, -, hshape⟩ := hall a ha
    have hatwo := hacount.trans hcount
    exact ⟨hworkers, a, b, rfl, hb, hatwo, hbcount.trans hatwo, by rw [haskipped, hskipped], hbskipped,
      hshape (by omega)⟩

end JsonShape
