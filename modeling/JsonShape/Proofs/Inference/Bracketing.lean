import JsonShape.Proofs.Inference.Fold
import JsonShape.Inference.Accumulator
import JsonShape.Inference.Shards
/-!
# JsonShape.Proofs.Inference.Bracketing

The order in which shapes are joined, as a binary tree with what is joined at its leaves.

* `Bracketing.left`, `Bracketing.pairs`, `Bracketing.sharded`: joining from the left, in pairs, and
  in shards that are folded from the left and then joined in pairs.
* `Gathering`: calls that build an accumulator from others.
* `Shape.InferredFrom`: the shapes that the library infers from some values, in whatever way.
* `Shape.InferredFrom.exists_bracketing`: each of them is that of a bracketing of the values.
-/

namespace JsonShape

inductive Bracketing (α : Type) where
  | none
  | leaf (a : α)
  | node (l r : Bracketing α)

namespace Bracketing

variable {α : Type}

def leaves : Bracketing α → List α
  | none => []
  | leaf a => [a]
  | node l r => l.leaves ++ r.leaves

/-- The join of the shapes of the leaves, in the order of the tree. -/
def shape (f : α → Shape) : Bracketing α → Shape
  | none => .unknown
  | leaf a => f a
  | node l r => (l.shape f).join (r.shape f)

theorem wellFormed_shape {f : α → Shape} {b : Bracketing α}
    (h : ∀ a ∈ b.leaves, (f a).WellFormed) : (b.shape f).WellFormed := by
  induction b with
  | none => exact .unknown
  | leaf a => exact h a (by simp [leaves])
  | node l r ihl ihr =>
    simp only [leaves, List.mem_append] at h
    exact Shape.wellFormed_join (ihl fun a ha => h a (.inl ha)) (ihr fun a ha => h a (.inr ha))

/-! ## From the left -/

def append (b : Bracketing α) (as : List α) : Bracketing α :=
  as.foldl (fun b a => node b (leaf a)) b

def left (as : List α) : Bracketing α := none.append as

theorem leaves_append (b : Bracketing α) (as : List α) : (b.append as).leaves = b.leaves ++ as := by
  induction as generalizing b with
  | nil => simp [append]
  | cons a as ih =>
    show ((node b (leaf a)).append as).leaves = _
    rw [ih]
    simp [leaves]

theorem shape_append (f : α → Shape) (b : Bracketing α) (as : List α) :
    (b.append as).shape f = (as.map f).foldl Shape.join (b.shape f) := by
  induction as generalizing b with
  | nil => rfl
  | cons a as ih => exact ih (node b (leaf a))

theorem leaves_left (as : List α) : (left as).leaves = as := leaves_append none as

theorem shape_left (f : α → Shape) (as : List α) :
    (left as).shape f = Shape.joinAll (as.map f) :=
  shape_append f none as

/-! ## In pairs -/

def round : List (Bracketing α) → List (Bracketing α)
  | b :: c :: rest => node b c :: round rest
  | bs => bs

theorem length_round (bs : List (Bracketing α)) : (round bs).length = (bs.length + 1) / 2 := by
  fun_induction round bs with
  | case1 b c rest ih => simp only [List.length_cons, ih]; omega
  | case2 bs h =>
    match bs, h with
    | [], _ => simp
    | [_], _ => simp
    | b :: c :: rest, h => exact absurd rfl (h b c rest)

theorem leaves_round (bs : List (Bracketing α)) :
    (round bs).flatMap leaves = bs.flatMap leaves := by
  fun_induction round bs with
  | case1 b c rest ih => simp [leaves, ih]
  | case2 bs h => rfl

theorem shape_round (f : α → Shape) (bs : List (Bracketing α)) :
    (round bs).map (shape f) = Shape.joinRound (bs.map (shape f)) := by
  fun_induction round bs with
  | case1 b c rest ih => simp [shape, Shape.joinRound, ih]
  | case2 bs h =>
    match bs, h with
    | [], _ => rfl
    | [_], _ => rfl
    | b :: c :: rest, h => exact absurd rfl (h b c rest)

def pairs : List (Bracketing α) → Bracketing α
  | [] => none
  | [b] => b
  | b :: c :: rest => pairs (round (b :: c :: rest))
termination_by bs => bs.length
decreasing_by rw [length_round]; simp only [List.length_cons]; omega

theorem leaves_pairs (bs : List (Bracketing α)) : (pairs bs).leaves = bs.flatMap leaves := by
  fun_induction pairs bs with
  | case1 => rfl
  | case2 b => simp
  | case3 b c rest ih => rw [ih, leaves_round]

theorem shape_pairs (f : α → Shape) (bs : List (Bracketing α)) :
    (pairs bs).shape f = Shape.joinPairs (bs.map (shape f)) := by
  fun_induction pairs bs with
  | case1 => rw [List.map_nil, Shape.joinPairs]; rfl
  | case2 b => rw [List.map_cons, List.map_nil, Shape.joinPairs]
  | case3 b c rest ih =>
    rw [ih, shape_round, List.map_cons, List.map_cons, Shape.joinPairs.eq_3]

/-- Each value stands alone before neighbours are joined. -/
theorem shape_pairs_leaf (f : α → Shape) (as : List α) :
    (pairs (as.map leaf)).shape f = Shape.joinPairs (as.map f) := by
  rw [shape_pairs, List.map_map]
  rfl

theorem leaves_pairs_leaf (as : List α) : (pairs (as.map leaf)).leaves = as := by
  rw [leaves_pairs, List.flatMap_map]
  simp [leaves]

end Bracketing

/-! ## In shards -/

theorem flatten_shardsOfSucc {α : Type} (n : Nat) (as : List α) :
    (shardsOfSucc n as).flatten = as := by
  fun_induction shardsOfSucc n as with
  | case1 => rfl
  | case2 a rest ih => rw [List.flatten_cons, ih, List.cons_append, List.take_append_drop]

theorem flatten_shards {α : Type} (size : Nat) (as : List α) : (shards size as).flatten = as :=
  flatten_shardsOfSucc _ _

namespace Bracketing

variable {α : Type}

def sharded (size : Nat) (as : List α) : Bracketing α := pairs ((shards size as).map left)

theorem leaves_sharded (size : Nat) (as : List α) : (sharded size as).leaves = as := by
  rw [sharded, leaves_pairs, List.flatMap_map]
  simp only [leaves_left, List.flatMap_id']
  exact flatten_shards size as

theorem shape_left_ofValue (vs : List Json.Value) : (left vs).shape Shape.ofValue = Shape.infer vs :=
  shape_left _ _

theorem shape_sharded (size : Nat) (vs : List Json.Value) :
    (sharded size vs).shape Shape.ofValue = Shape.inferShards (shards size vs) := by
  rw [sharded, shape_pairs, List.map_map, Shape.inferShards]
  exact congrArg Shape.joinPairs (List.map_congr_left fun vs _ => shape_left_ofValue vs)

/-- Both ways of folding bracket the values as they stand. -/
theorem exists_of_fold {vs : List Json.Value} {size : Nat} {s : Shape}
    (h : s = Shape.infer vs ∨ s = Shape.inferShards (shards size vs)) :
    ∃ b : Bracketing Json.Value, b.leaves = vs ∧ b.shape Shape.ofValue = s := by
  rcases h with rfl | rfl
  · exact ⟨left vs, leaves_left vs, shape_left_ofValue vs⟩
  · exact ⟨sharded size vs, leaves_sharded size vs, shape_sharded size vs⟩

end Bracketing

namespace Shape

theorem inferSharded_result_eq_ok (vs : List Json.Value) {workers : Option Int} {size : Int}
    (hsize : 1 ≤ size) (hworkers : ∀ n ∈ workers, 0 < n) :
    (inferSharded vs workers size).result = .ok (inferShards (shards size.toNat vs)) := by
  have hsize' : ¬size < 1 := by omega
  have hw : ¬workers.getD 1 ≤ 0 := by
    cases workers with
    | none => simp
    | some n => simpa using hworkers n rfl
  simp only [inferSharded, hsize', if_false, hw]
  split <;> rfl

theorem eq_inferShards_of_result {vs : List Json.Value} {workers : Option Int} {size : Int}
    {s : Shape} (h : (inferSharded vs workers size).result = .ok s) :
    s = inferShards (shards size.toNat vs) := by
  simp only [inferSharded] at h
  split at h
  · cases h
  · split at h
    · cases h; rfl
    · split at h
      · cases h
      · cases h; rfl

end Shape

/-! ## Through accumulators -/

open Samples (Sample SampleFault)

/-- Calls that build an accumulator. Samples come decoded from files, data from memory. -/
inductive Gathering where
  | start
  | observe (g : Gathering) (v : Json.Value)
  | skip (g : Gathering) (f : SampleFault)
  | observeAll (g : Gathering) (samples : List Sample)
  | observeData (g : Gathering) (data : List (Except SampleFault Datum))
  | merge (g h : Gathering)

namespace Gathering

def run : Gathering → Accumulator
  | start => .empty
  | observe g v => g.run.observe v
  | skip g f => g.run.skip f
  | observeAll g samples => g.run.addAll samples
  | observeData g data => (g.run.observeAll data).accumulator
  | merge g h => g.run.merge h.run

/-- The values of data, up to a datum that has none. -/
def valuesOf : List (Except SampleFault Datum) → List Json.Value
  | [] => []
  | .error _ :: rest => valuesOf rest
  | .ok d :: rest =>
    match d.toValue? Text.integerDigitLimit with
    | .error _ => []
    | .ok v => v :: valuesOf rest

/-- The values that the calls observe, in order. -/
def observed : Gathering → List Json.Value
  | start => []
  | observe g v => g.observed ++ [v]
  | skip g _ => g.observed
  | observeAll g samples => g.observed ++ samples.filterMap Except.toOption
  | observeData g data => g.observed ++ valuesOf data
  | merge g h => g.observed ++ h.observed

theorem shape_addAll (a : Accumulator) (samples : List Sample) :
    (a.addAll samples).shape =
      ((samples.filterMap Except.toOption).map Shape.ofValue).foldl Shape.join a.shape := by
  induction samples generalizing a with
  | nil => rfl
  | cons s samples ih =>
    cases s with
    | error f => exact ih (a.skip f)
    | ok v => exact ih (a.observe v)

theorem shape_observeAll (a : Accumulator) (data : List (Except SampleFault Datum)) :
    (a.observeAll data).accumulator.shape =
      ((valuesOf data).map Shape.ofValue).foldl Shape.join a.shape := by
  induction data generalizing a with
  | nil => rfl
  | cons s data ih =>
    cases s with
    | error f => exact ih (a.skip f)
    | ok d =>
      rw [Accumulator.observeAll, Accumulator.observeDatum, valuesOf]
      cases d.toValue? Text.integerDigitLimit with
      | error f => rfl
      | ok v => exact ih (a.observe v)

/-- The order of joins that the calls make. -/
def bracketing : Gathering → Bracketing Json.Value
  | start => .none
  | observe g v => .node g.bracketing (.leaf v)
  | skip g _ => g.bracketing
  | observeAll g samples => g.bracketing.append (samples.filterMap Except.toOption)
  | observeData g data => g.bracketing.append (valuesOf data)
  | merge g h => .node g.bracketing h.bracketing

theorem leaves_bracketing (g : Gathering) : g.bracketing.leaves = g.observed := by
  induction g with
  | start => rfl
  | observe g v ih => rw [bracketing, Bracketing.leaves, ih]; rfl
  | skip g f ih => exact ih
  | observeAll g samples ih => rw [bracketing, Bracketing.leaves_append, ih]; rfl
  | observeData g data ih => rw [bracketing, Bracketing.leaves_append, ih]; rfl
  | merge g h ihg ihh => rw [bracketing, Bracketing.leaves, ihg, ihh]; rfl

theorem shape_bracketing (g : Gathering) : g.bracketing.shape Shape.ofValue = g.run.shape := by
  induction g with
  | start => rfl
  | observe g v ih => rw [bracketing, Bracketing.shape, ih]; rfl
  | skip g f ih => exact ih
  | observeAll g samples ih =>
    rw [bracketing, Bracketing.shape_append, ih]
    exact (shape_addAll _ _).symm
  | observeData g data ih =>
    rw [bracketing, Bracketing.shape_append, ih]
    exact (shape_observeAll _ _).symm
  | merge g h ihg ihh => rw [bracketing, Bracketing.shape, ihg, ihh]; rfl

end Gathering

namespace Shape

/-- The shapes that some values have: folded from the left, in shards, or through accumulators that
observe each of them once. -/
inductive InferredFrom (vs : List Json.Value) : Shape → Prop where
  | infer : InferredFrom vs (infer vs)
  | sharded {workers : Option Int} {size : Int} {s : Shape} :
      (inferSharded vs workers size).result = .ok s → InferredFrom vs s
  | gathered {g : Gathering} : g.observed.Perm vs → InferredFrom vs g.run.shape

theorem InferredFrom.exists_bracketing {vs : List Json.Value} {s : Shape}
    (h : InferredFrom vs s) :
    ∃ b : Bracketing Json.Value, b.leaves.Perm vs ∧ b.shape ofValue = s := by
  cases h with
  | infer =>
    exact ⟨.left vs, by rw [Bracketing.leaves_left], Bracketing.shape_left_ofValue vs⟩
  | @sharded workers size s h =>
    refine ⟨.sharded size.toNat vs, by rw [Bracketing.leaves_sharded], ?_⟩
    rw [Bracketing.shape_sharded, eq_inferShards_of_result h]
  | @gathered g h =>
    exact ⟨g.bracketing, by rw [g.leaves_bracketing]; exact h, g.shape_bracketing⟩

theorem InferredFrom.wellFormed {vs : List Json.Value} {s : Shape} (hvs : ∀ v ∈ vs, v.WellFormed)
    (h : InferredFrom vs s) : s.WellFormed := by
  obtain ⟨b, hleaves, rfl⟩ := h.exists_bracketing
  exact Bracketing.wellFormed_shape fun v hv => wellFormed_ofValue (hvs v (hleaves.mem_iff.1 hv))

end Shape

end JsonShape
