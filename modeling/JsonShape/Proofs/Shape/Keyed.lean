import JsonShape.Proofs.Inference.Bracketing
/-!
# JsonShape.Proofs.Shape.Keyed

What the keys of values have in common, the keys of their shapes have in common.

* `Shape.Keyed`: all keys of a shape satisfy a condition.
* `Shape.keyed_join`: joining brings in no new key.
* `Shape.InferredFrom.keyed`: the keys of an inferred shape are keys of the values.
-/

namespace JsonShape

namespace Shape

/-- All keys, at any depth, satisfy `K`. -/
inductive Keyed (K : Text → Prop) : Shape → Prop where
  | unknown : Keyed K .unknown
  | scalar (k : Scalar) : Keyed K (.scalar k)
  | optional {s : Shape} : Keyed K s → Keyed K (.optional s)
  | array {s : Shape} : Keyed K s → Keyed K (.array s)
  | object {fs : List (Text × Shape)} : (∀ f ∈ fs, K f.1) → (∀ f ∈ fs, Keyed K f.2) →
      Keyed K (.object fs)
  | union {ms : List Shape} : (∀ m ∈ ms, Keyed K m) → Keyed K (.union ms)

variable {K : Text → Prop}

theorem keyed_optional_iff {s : Shape} : (optional s).Keyed K ↔ s.Keyed K :=
  ⟨fun | .optional h => h, .optional⟩

theorem keyed_array_iff {s : Shape} : (array s).Keyed K ↔ s.Keyed K :=
  ⟨fun | .array h => h, .array⟩

theorem keyed_object_iff {fs : List (Text × Shape)} :
    (object fs).Keyed K ↔ ∀ f ∈ fs, K f.1 ∧ f.2.Keyed K :=
  ⟨fun | .object hkeys hfs => fun f hf => ⟨hkeys f hf, hfs f hf⟩,
    fun h => .object (fun f hf => (h f hf).1) fun f hf => (h f hf).2⟩

theorem keyed_union_iff {ms : List Shape} : (union ms).Keyed K ↔ ∀ m ∈ ms, m.Keyed K :=
  ⟨fun | .union h => h, .union⟩

theorem keyed_optionalOf {s : Shape} (hs : s.Keyed K) : s.optionalOf.Keyed K := by
  cases s with
  | optional s => exact hs
  | _ => exact .optional hs

theorem keyed_of_mem_alternatives {s m : Shape} (hs : s.Keyed K) (hm : m ∈ s.alternatives) :
    m.Keyed K := by
  cases s with
  | union ms => exact keyed_union_iff.1 hs m hm
  | _ => exact List.mem_singleton.1 hm ▸ hs

theorem keyed_unionOf {ss : List Shape} (hss : ∀ s ∈ ss, s.Keyed K) : (unionOf ss).Keyed K := by
  refine .union fun m hm => ?_
  obtain ⟨s, hs, hm⟩ := List.mem_flatMap.1 (mem_of_mem_firsts hm)
  exact keyed_of_mem_alternatives (hss s hs) hm

theorem keyed_join {s t : Shape} (hs : s.Keyed K) (ht : t.Keyed K) : (s.join t).Keyed K := by
  induction s, t using join_ind with
  | unknown_left t => exact ht
  | unknown_right s => rw [join_unknown]; exact hs
  | scalar k => rw [scalar_join_self]; exact hs
  | optional s t ih => exact .optional (ih (keyed_optional_iff.1 hs) (keyed_optional_iff.1 ht))
  | array s t ih => exact .array (ih (keyed_array_iff.1 hs) (keyed_array_iff.1 ht))
  | object fs gs ih =>
    have hfs := keyed_object_iff.1 hs
    have hgs := keyed_object_iff.1 ht
    rw [object_join, joinFields, joinLeft_eq_map, onlyRight]
    refine keyed_object_iff.2 fun e he => ?_
    rcases List.mem_append.1 he with he | he
    · obtain ⟨f, hf, rfl⟩ := List.mem_map.1 he
      refine ⟨(hfs f hf).1, ?_⟩
      rw [joinUnder]
      split
      · rename_i t hget
        exact ih f hf t hget (hfs f hf).2 (hgs _ (Entries.mem_of_get?_eq_some hget)).2
      · exact keyed_optionalOf (hfs f hf).2
    · obtain ⟨g, hg, rfl⟩ := List.mem_map.1 he
      have hg := hgs g (List.mem_filter.1 hg).1
      exact ⟨hg.1, keyed_optionalOf hg.2⟩
  | union s t h => rw [h]; exact keyed_unionOf (forall_mem_pair hs ht)

theorem keyed_joinAll {ss : List Shape} (hss : ∀ s ∈ ss, s.Keyed K) : (joinAll ss).Keyed K :=
  foldl_join_closed keyed_join hss .unknown

theorem keyed_ofValue {v : Json.Value} (hv : v.Keyed K) : (ofValue v).Keyed K := by
  induction v with
  | array vs ih =>
    rw [ofValue_array]
    refine .array (keyed_joinAll fun s hs => ?_)
    obtain ⟨v, hmem, rfl⟩ := List.mem_map.1 hs
    exact ih v hmem (Json.Value.keyed_array_iff.1 hv v hmem)
  | object fs ih =>
    rw [ofValue_object]
    refine keyed_object_iff.2 fun f hf => ?_
    rw [ofFields_eq_map] at hf
    obtain ⟨g, hg, rfl⟩ := List.mem_map.1 hf
    obtain ⟨hkey, hvalue⟩ := (Json.Value.keyed_object_iff.1 hv).2 g hg
    exact ⟨hkey, ih g hg hvalue⟩
  | _ => exact .scalar _

theorem keyed_shape {α : Type} {f : α → Shape} {b : Bracketing α}
    (hb : ∀ a ∈ b.leaves, (f a).Keyed K) : (b.shape f).Keyed K := by
  induction b with
  | none => exact .unknown
  | leaf a => exact hb a (by simp [Bracketing.leaves])
  | node b c ihb ihc =>
    simp only [Bracketing.leaves, List.mem_append] at hb
    exact keyed_join (ihb fun a ha => hb a (.inl ha)) (ihc fun a ha => hb a (.inr ha))

theorem InferredFrom.keyed {vs : List Json.Value} {s : Shape} (hvs : ∀ v ∈ vs, v.Keyed K)
    (h : InferredFrom vs s) : s.Keyed K := by
  obtain ⟨b, hleaves, rfl⟩ := h.exists_bracketing
  exact keyed_shape fun v hv => keyed_ofValue (hvs v (hleaves.mem_iff.1 hv))

end Shape

end JsonShape
