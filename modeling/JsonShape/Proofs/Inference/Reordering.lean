import JsonShape.Proofs.Inference.Sharding
/-!
# JsonShape.Proofs.Inference.Reordering

Values of which those that stand in one place are all scalars, all arrays, or all objects with the
same keys. Neither their order nor the way they are joined has a say in their shape.

* `Consistent`: the condition; `consistent_iff`: how to check it step by step.
* `Bracketing.sameShape_of_consistent`: any two ways to join the same values give equal shapes.
-/

namespace JsonShape

/-! ## Consistent values -/

/-- `path` leads from one of the values to `w`. -/
def Occurs (vs : List Json.Value) (path : List Step) (w : Json.Value) : Prop :=
  ∃ v ∈ vs, v.At path w

/-- All scalars, of any kinds, or all arrays, or all objects with the same keys. -/
def Agree (P : Json.Value → Prop) : Prop :=
  (∀ w, P w → ∃ k, w.kind = .scalar k) ∨ (∀ w, P w → w.kind = .array) ∨
    ∃ keys : List Text, ∀ w, P w → w.kind = .object ∧ ∀ key, key ∈ w.keys ↔ key ∈ keys

def Consistent (vs : List Json.Value) : Prop := ∀ path, Agree (Occurs vs path)

theorem occurs_nil_iff {vs : List Json.Value} {w : Json.Value} : Occurs vs [] w ↔ w ∈ vs := by
  simp [Occurs, Json.Value.at_nil_iff]

theorem occurs_item_iff {vs : List Json.Value} {path : List Step} {w : Json.Value} :
    Occurs vs (.item :: path) w ↔ Occurs (vs.flatMap Json.Value.items) path w := by
  simp only [Occurs, Json.Value.at_item_iff, List.mem_flatMap]
  constructor
  · rintro ⟨v, hv, u, hu, h⟩
    exact ⟨u, ⟨v, hv, hu⟩, h⟩
  · rintro ⟨u, ⟨v, hv, hu⟩, h⟩
    exact ⟨v, hv, u, hu, h⟩

theorem occurs_key_iff {vs : List Json.Value} {key : Text} {path : List Step} {w : Json.Value} :
    Occurs vs (.key key :: path) w ↔ Occurs (vs.filterMap (Json.Value.field? key)) path w := by
  simp only [Occurs, Json.Value.at_key_iff, List.mem_filterMap]
  constructor
  · rintro ⟨v, hv, u, hu, h⟩
    exact ⟨u, ⟨v, hv, hu⟩, h⟩
  · rintro ⟨u, ⟨v, hv, hu⟩, h⟩
    exact ⟨v, hv, u, hu, h⟩

theorem consistent_iff {vs : List Json.Value} :
    Consistent vs ↔ Agree (· ∈ vs) ∧ Consistent (vs.flatMap Json.Value.items) ∧
      ∀ key, Consistent (vs.filterMap (Json.Value.field? key)) := by
  have hnil : Occurs vs [] = (· ∈ vs) := funext fun w => propext occurs_nil_iff
  have hitem : ∀ path, Occurs vs (.item :: path) = Occurs (vs.flatMap Json.Value.items) path :=
    fun path => funext fun w => propext occurs_item_iff
  have hkey : ∀ key path,
      Occurs vs (.key key :: path) = Occurs (vs.filterMap (Json.Value.field? key)) path :=
    fun key path => funext fun w => propext occurs_key_iff
  constructor
  · intro h
    refine ⟨hnil ▸ h [], fun path => hitem path ▸ h _, fun key path => hkey key path ▸ h _⟩
  · rintro ⟨hroot, hitems, hfields⟩ path
    match path with
    | [] => exact hnil ▸ hroot
    | .item :: path => exact hitem path ▸ hitems path
    | .key key :: path => exact hkey key path ▸ hfields key path

theorem consistent_nil : Consistent [] := fun path => .inl fun w h => by simp [Occurs] at h

theorem Consistent.keyComplete {vs : List Json.Value} (h : Consistent vs) : KeyComplete vs := by
  intro u hu v hv path x y hx hy fs gs hfs hgs key
  subst hfs hgs
  rcases h path with h | h | ⟨keys, h⟩
  · obtain ⟨k, hk⟩ := h _ ⟨u, hu, hx⟩
    cases hk
  · cases h _ ⟨u, hu, hx⟩
  · exact ((h _ ⟨u, hu, hx⟩).2 key).trans ((h _ ⟨v, hv, hy⟩).2 key).symm

theorem Consistent.uniform {vs : List Json.Value} (h : Consistent vs) : Uniform vs := by
  intro u hu v hv path x y hx hy
  have hx : Occurs vs path x := ⟨u, hu, hx⟩
  have hy : Occurs vs path y := ⟨v, hv, hy⟩
  rcases h path with h | h | ⟨keys, h⟩
  · obtain ⟨k, hk⟩ := h x hx
    obtain ⟨l, hl⟩ := h y hy
    simp [SameSort, hk, hl]
  · simp [SameSort, h x hx, h y hy]
  · simp [SameSort, (h x hx).1, (h y hy).1]

/-! ## Joining in any order -/

namespace Bracketing

theorem sameShape_of_consistent {b c : Bracketing Json.Value} (hwf : ∀ v ∈ c.leaves, v.WellFormed)
    (hc : Consistent c.leaves) (hbc : ∀ v, v ∈ b.leaves ↔ v ∈ c.leaves) : SameShape b c := by
  have hcr : Regular c.leaves := ⟨hwf, hc.keyComplete⟩
  have hbr : Regular b.leaves := hcr.mono fun v hv => (hbc v).1 hv
  refine (sameShape_iff_alike hbr hcr).2 (alike_of_uniform ?_ hbc)
  exact hc.uniform.mono fun v hv => (hbc v).1 hv

end Bracketing

namespace Shape

/-- Consistent values have one shape: in whatever order they come, in shards of whatever size, and
joined in pairs from the last to the first. -/
theorem inferSharded_perm_same_infer (vs ws : List Json.Value) (hvs : ∀ v ∈ vs, v.WellFormed)
    (hconsistent : Consistent vs) (hperm : ws.Perm vs) (workers : Option Int) (size : Int)
    (hsize : 1 ≤ size) (hworkers : ∀ n ∈ workers, 0 < n) :
    (∃ s, (inferSharded ws workers size).result = .ok s ∧ s.same (infer vs) = true) ∧
      (joinPairs (ws.map ofValue).reverse).same (infer vs) = true := by
  have hleft : (Bracketing.left vs).leaves = vs := Bracketing.leaves_left vs
  have hsame : ∀ b : Bracketing Json.Value, b.leaves.Perm vs →
      (b.shape ofValue).same (infer vs) = true := by
    intro b hb
    rw [← Bracketing.shape_left_ofValue]
    refine Bracketing.sameShape_of_consistent (hleft.symm ▸ hvs) (hleft.symm ▸ hconsistent) ?_
    intro v
    rw [hleft, hb.mem_iff]
  constructor
  · refine ⟨_, inferSharded_result_eq_ok ws hsize hworkers, ?_⟩
    rw [← Bracketing.shape_sharded]
    exact hsame _ (by rw [Bracketing.leaves_sharded]; exact hperm)
  · rw [← List.map_reverse, ← Bracketing.shape_pairs_leaf]
    refine hsame _ ?_
    rw [Bracketing.leaves_pairs_leaf]
    exact (List.reverse_perm ws).trans hperm

/-- Arrays of scalars of several kinds, and an empty one, under the only key. -/
theorem inferSharded_perm_same_infer_arrays :
    let u : Json.Value := .object [("a", .array [.int 1, .null])]
    let v : Json.Value := .object [("a", .array [])]
    let w : Json.Value := .object [("a", .array [.string "x"])]
    (∀ x ∈ [u, v, w], x.WellFormed) ∧ Consistent [u, v, w] ∧ [w, u, v].Perm [u, v, w] ∧
      (∃ s, (inferSharded [w, u, v] none 2).result = .ok s ∧ s.same (infer [u, v, w]) = true) ∧
      (joinPairs ([w, u, v].map ofValue).reverse).same (infer [u, v, w]) = true := by
  intro u v w
  have hscalar : ∀ {v : Json.Value} {k : Scalar}, v.kind = .scalar k → v.WellFormed := .scalar
  have hwf : ∀ x ∈ [u, v, w], x.WellFormed := by
    simp [u, v, w, Json.Value.wellFormed_object_iff, Json.Value.wellFormed_array_iff,
      Entries.Distinct, Entries.keys, hscalar (v := .int 1) rfl, hscalar (v := .null) rfl,
      hscalar (v := .string "x") rfl]
  have hitems : Consistent [.int 1, .null, .string "x"] :=
    consistent_iff.2 ⟨.inl (by simp [Json.Value.kind]), consistent_nil, fun _ => consistent_nil⟩
  have harrays : Consistent [.array [.int 1, .null], .array [], .array [.string "x"]] :=
    consistent_iff.2 ⟨.inr (.inl (by simp [Json.Value.kind])), hitems, fun _ => consistent_nil⟩
  have hconsistent : Consistent [u, v, w] := by
    refine consistent_iff.2 ⟨.inr (.inr ⟨["a"], ?_⟩), consistent_nil, fun key => ?_⟩
    · simp [u, v, w, Json.Value.kind, Json.Value.keys, Entries.keys]
    · by_cases hkey : ("a" : Text) = key
      · simpa [u, v, w, Json.Value.field?, Entries.get?, hkey] using harrays
      · simpa [u, v, w, Json.Value.field?, Entries.get?, hkey] using consistent_nil
  have hperm : ([w] ++ [u, v]).Perm ([u, v] ++ [w]) := List.perm_append_comm
  exact ⟨hwf, hconsistent, hperm,
    inferSharded_perm_same_infer [u, v, w] [w, u, v] hwf hconsistent hperm none 2 (by decide) (by simp)⟩

end Shape

end JsonShape
