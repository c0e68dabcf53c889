import Mathlib
import JsonShape.Proofs.Inference.Growth
/-!
# JsonShape.Proofs.Inference.Repetition

Shapes of lists that only repeat some given values. They stay of bounded size exactly if no value
lacks a field that another has in the same merged place, and otherwise they grow for ever.

* `Shape.Repeated`: the joins of given shapes, each as often as it comes.
* `Shape.Repeated.settled`: without omissions they have parts that are such joins again, and at most
  one member of a union is anything but an alternative of a given shape.
* `Shape.Repeated.exists_bound`: so they are of bounded size.
* `Shape.infer_bounded_iff`: the exact condition, for values.
-/

namespace JsonShape

/-! ## Sums over parts of a list -/

theorem sum_map_le_of_nodup {α : Type} {as bs : List α} (f : α → Nat) (has : as.Nodup)
    (hsub : as ⊆ bs) : (as.map f).sum ≤ (bs.map f).sum := by
  obtain ⟨cs, hperm, hcs⟩ := has.subperm hsub
  calc (as.map f).sum = (cs.map f).sum := (hperm.map f).sum_eq.symm
    _ ≤ (bs.map f).sum := (hcs.map f).sum_le_sum fun _ _ => Nat.zero_le _

namespace Shape

theorem sizeMembers_eq_sum (ms : List Shape) : sizeMembers ms = (ms.map size).sum := by
  induction ms with
  | nil => rfl
  | cons m ms ih => rw [sizeMembers, ih, List.map_cons, List.sum_cons]

theorem sizeFields_le_sum {fs : List (Text × Shape)} {bound : Text → Nat}
    (h : ∀ f ∈ fs, f.2.size ≤ bound f.1) : sizeFields fs ≤ ((Entries.keys fs).map bound).sum := by
  induction fs with
  | nil => exact Nat.le_refl 0
  | cons f fs ih =>
    obtain ⟨hf, hfs⟩ := List.forall_mem_cons.1 h
    rw [sizeFields]
    exact Nat.add_le_add hf (ih hfs)

/-! ## Parts -/

/-- A place right below the top of a shape. -/
inductive Place where
  | inner
  | item
  | key (key : Text)

def part? : Place → Shape → Option Shape
  | .inner, .optional s => some s
  | .item, .array s => some s
  | .key key, .object fs => Entries.get? key fs
  | _, _ => none

/-- What some shapes have in one place, as far as they have it. -/
def parts (p : Place) (ss : List Shape) : List Shape := ss.filterMap (part? p)

theorem mem_parts {p : Place} {ss : List Shape} {t : Shape} :
    t ∈ parts p ss ↔ ∃ s ∈ ss, s.part? p = some t :=
  List.mem_filterMap

theorem part?_inner_iff {s t : Shape} : s.part? .inner = some t ↔ s = .optional t := by
  cases s <;> simp [part?]

theorem part?_item_iff {s t : Shape} : s.part? .item = some t ↔ s = .array t := by
  cases s <;> simp [part?]

theorem part?_key_iff {key : Text} {s t : Shape} :
    s.part? (.key key) = some t ↔ ∃ fs, s = .object fs ∧ Entries.get? key fs = some t := by
  cases s <;> simp [part?]

theorem size_lt_of_part? {p : Place} {s t : Shape} (h : s.part? p = some t) : t.size < s.size := by
  cases p with
  | inner => rw [part?_inner_iff.1 h]; exact Nat.lt_succ_self _
  | item => rw [part?_item_iff.1 h]; exact Nat.lt_succ_self _
  | key key =>
    obtain ⟨fs, rfl, hget⟩ := part?_key_iff.1 h
    exact size_lt_size_object hget

theorem WellFormed.part? {p : Place} {s t : Shape} (hs : s.WellFormed) (h : s.part? p = some t) :
    t.WellFormed := by
  cases p with
  | inner => rw [part?_inner_iff.1 h] at hs; exact wellFormed_optional_iff.1 hs
  | item => rw [part?_item_iff.1 h] at hs; exact wellFormed_array_iff.1 hs
  | key key =>
    obtain ⟨fs, rfl, hget⟩ := part?_key_iff.1 h
    exact (wellFormed_object_iff.1 hs).2 _ (Entries.mem_of_get?_eq_some hget)

theorem Omits.of_part? {p : Place} {s t x y : Shape} (hx : s.part? p = some x)
    (hy : t.part? p = some y) (h : x.Omits y) : s.Omits t := by
  cases p with
  | inner => rw [part?_inner_iff.1 hx, part?_inner_iff.1 hy]; exact .optional h
  | item => rw [part?_item_iff.1 hx, part?_item_iff.1 hy]; exact .item h
  | key key =>
    obtain ⟨fs, rfl, hfs⟩ := part?_key_iff.1 hx
    obtain ⟨gs, rfl, hgs⟩ := part?_key_iff.1 hy
    exact .key hfs hgs h

/-! ## Repeated joins -/

/-- What one or more of some shapes give when they are joined from the left, in any order and each as
often as it comes. -/
inductive Repeated (ss : List Shape) : Shape → Prop where
  | one {s : Shape} : s ∈ ss → Repeated ss s
  | join {r s : Shape} : Repeated ss r → s ∈ ss → Repeated ss (r.join s)

/-- No shape lacks a field of another that is not optional yet. -/
def Stable (ss : List Shape) : Prop := ∀ s ∈ ss, ∀ t ∈ ss, ¬s.Omits t

theorem stable_parts {ss : List Shape} (h : Stable ss) (p : Place) : Stable (parts p ss) := by
  intro x hx y hy homits
  obtain ⟨s, hs, hsx⟩ := mem_parts.1 hx
  obtain ⟨t, ht, hty⟩ := mem_parts.1 hy
  exact h s hs t ht (.of_part? hsx hty homits)

namespace Repeated

variable {ss : List Shape} {r : Shape}

theorem foldl {ts : List Shape} (h : Repeated ss r) (hts : ∀ t ∈ ts, t ∈ ss) :
    Repeated ss (ts.foldl Shape.join r) := by
  induction ts generalizing r with
  | nil => exact h
  | cons t ts ih =>
    obtain ⟨ht, hts⟩ := List.forall_mem_cons.1 hts
    exact ih (h.join ht) hts

theorem joinAll {ts : List Shape} (hne : ts ≠ []) (hts : ∀ t ∈ ts, t ∈ ss) :
    Repeated ss (joinAll ts) := by
  cases ts with
  | nil => exact absurd rfl hne
  | cons t ts =>
    obtain ⟨ht, hts⟩ := List.forall_mem_cons.1 hts
    exact (one ht).foldl hts

theorem exists_mem (h : Repeated ss r) : ∃ s, s ∈ ss := by
  cases h with
  | one hs => exact ⟨_, hs⟩
  | join _ hs => exact ⟨_, hs⟩

theorem wellFormed (hss : ∀ s ∈ ss, s.WellFormed) (h : Repeated ss r) : r.WellFormed := by
  induction h with
  | one hs => exact hss _ hs
  | join _ hs ih => exact wellFormed_join ih (hss _ hs)

theorem isOptional (hss : ∀ s ∈ ss, s.isOptional = true) (h : Repeated ss r) :
    r.isOptional = true := by
  induction h with
  | one hs => exact hss _ hs
  | @join r s _ hs ih =>
    have hs := hss s hs
    cases r <;> cases ih
    cases s <;> cases hs
    rfl

end Repeated

/-! ## What repeated joins look like -/

/-- The parts are repeated joins of the parts. An object lacks no key that all objects have. -/
inductive Merged (ss : List Shape) : Shape → Prop where
  | unknown : Merged ss .unknown
  | scalar (k : Scalar) : Merged ss (.scalar k)
  | optional {s : Shape} : Repeated (parts .inner ss) s → Merged ss (.optional s)
  | array {s : Shape} : Repeated (parts .item ss) s → Merged ss (.array s)
  | object {es fs : List (Text × Shape)} : Entries.Distinct fs → .object es ∈ ss →
      (∀ key, Entries.get? key fs = none → Entries.get? key es = none) →
      (∀ key s, Entries.get? key fs = some s → Repeated (parts (.key key) ss) s) →
      Merged ss (.object fs)

/-- Besides what was merged before kinds met, a union has only alternatives of the given shapes. -/
inductive Settled (ss : List Shape) : Shape → Prop where
  | merged {r : Shape} : Merged ss r → Settled ss r
  | union {ms : List Shape} {q : Shape} : Merged ss q →
      (∀ m ∈ ms, m = q ∨ m ∈ ss.flatMap alternatives) → Settled ss (.union ms)

section Settling

variable {ss : List Shape}

theorem settled_of_mem (hss : ∀ s ∈ ss, s.WellFormed) {s : Shape} (hs : s ∈ ss) : Settled ss s := by
  cases s with
  | unknown => exact .merged .unknown
  | scalar k => exact .merged (.scalar k)
  | optional s => exact .merged (.optional (.one (mem_parts.2 ⟨_, hs, rfl⟩)))
  | array s => exact .merged (.array (.one (mem_parts.2 ⟨_, hs, rfl⟩)))
  | object fs =>
    obtain ⟨hd, -⟩ := wellFormed_object_iff.1 (hss _ hs)
    exact .merged (.object hd hs (fun _ h => h) fun key s h => .one (mem_parts.2 ⟨_, hs, h⟩))
  | union ms => exact .union .unknown fun m hm => .inr (List.mem_flatMap.2 ⟨_, hs, hm⟩)

theorem settled_unionOf {r q s : Shape} (hq : Merged ss q)
    (hr : ∀ m ∈ r.alternatives, m = q ∨ m ∈ ss.flatMap alternatives) (hs : s ∈ ss) :
    Settled ss (unionOf [r, s]) := by
  refine .union hq fun m hm => ?_
  obtain ⟨u, hu, hmu⟩ := List.mem_flatMap.1 (mem_of_mem_firsts hm)
  simp only [List.mem_cons, List.not_mem_nil, or_false] at hu
  rcases hu with rfl | rfl
  · exact hr m hmu
  · exact .inr (List.mem_flatMap.2 ⟨_, hs, hmu⟩)

theorem Merged.alternatives_eq {r : Shape} (h : Merged ss r) : r.alternatives = [r] := by
  cases h <;> rfl

theorem optionalOf_of_isOptional {s : Shape} (h : s.isOptional = true) : s.optionalOf = s := by
  cases s with
  | optional s => rfl
  | _ => cases h

/-- What stands under a key that one of the objects lacks is optional in all of them. -/
theorem Stable.isOptional_of_part? (h : Stable ss) {es : List (Text × Shape)}
    (hes : .object es ∈ ss) {key : Text} (hkey : Entries.get? key es = none) :
    ∀ x ∈ parts (.key key) ss, x.isOptional = true := by
  intro x hx
  obtain ⟨t, ht, htx⟩ := mem_parts.1 hx
  obtain ⟨gs, rfl, hget⟩ := part?_key_iff.1 htx
  cases hopt : x.isOptional with
  | true => rfl
  | false => exact absurd (Omits.here hkey hget hopt) (h _ hes _ ht)

theorem Merged.join (hss : ∀ s ∈ ss, s.WellFormed) (hstable : Stable ss) {r s : Shape}
    (hr : Merged ss r) (hs : s ∈ ss) : Settled ss (r.join s) := by
  induction r, s using join_ind with
  | unknown_left s => exact settled_of_mem hss hs
  | unknown_right r => rw [join_unknown]; exact .merged hr
  | scalar k => rw [scalar_join_self]; exact .merged hr
  | optional r s _ =>
    obtain _ | _ | hr := hr
    exact .merged (.optional (hr.join (mem_parts.2 ⟨_, hs, rfl⟩)))
  | array r s _ =>
    obtain _ | _ | _ | hr := hr
    exact .merged (.array (hr.join (mem_parts.2 ⟨_, hs, rfl⟩)))
  | object fs gs _ =>
    obtain _ | _ | _ | _ | ⟨hd, hes, hlacks, hfs⟩ := hr
    obtain ⟨hgd, -⟩ := wellFormed_object_iff.1 (hss _ hs)
    rw [object_join]
    refine .merged (.object (distinct_joinFields hd hgd) hes (fun key hkey => ?_)
      fun key u hu => ?_)
    · rw [get?_joinFields] at hkey
      cases hf : Entries.get? key fs with
      | none => exact hlacks key hf
      | some x => cases hg : Entries.get? key gs <;> rw [hf, hg] at hkey <;> cases hkey
    · rcases get?_joinFields_cases hu with ⟨x, y, hf, hg, rfl⟩ | ⟨x, hf, hg, rfl⟩ | ⟨y, hf, hg, rfl⟩
      · exact (hfs key x hf).join (mem_parts.2 ⟨_, hs, hg⟩)
      -- A missing key marks nothing: what stands under it on the other side is optional already.
      · have hx := hfs key x hf
        rw [optionalOf_of_isOptional (hx.isOptional (hstable.isOptional_of_part? hs hg))]
        exact hx
      · have hy := mem_parts.2 ⟨_, hs, part?_key_iff.2 ⟨gs, rfl, hg⟩⟩
        rw [optionalOf_of_isOptional (hstable.isOptional_of_part? hes (hlacks key hf) y hy)]
        exact .one hy
  | union r s h =>
    rw [h]
    refine settled_unionOf hr (fun m hm => ?_) hs
    rw [hr.alternatives_eq] at hm
    exact .inl (List.mem_singleton.1 hm)

theorem Settled.join (hss : ∀ s ∈ ss, s.WellFormed) (hstable : Stable ss) {r s : Shape}
    (hr : Settled ss r) (hs : s ∈ ss) : Settled ss (r.join s) := by
  cases hr with
  | merged hr => exact hr.join hss hstable hs
  | @union ms q hq hms =>
    by_cases hunknown : s = .unknown
    · rw [hunknown, join_unknown]
      exact .union hq hms
    · rw [union_join hunknown]
      exact settled_unionOf hq hms hs

theorem Repeated.settled (hss : ∀ s ∈ ss, s.WellFormed) (hstable : Stable ss) {r : Shape}
    (h : Repeated ss r) : Settled ss r := by
  induction h with
  | one hs => exact settled_of_mem hss hs
  | join _ hs ih => exact ih.join hss hstable hs

end Settling

/-! ## Bounds -/

def keys : Shape → List Text
  | .object fs => Entries.keys fs
  | _ => []

/-- The size of merged shapes, from bounds of their parts. -/
def mergedBound (ss : List Shape) (bound : Place → Nat) : Nat :=
  bound .inner + bound .item + ((ss.flatMap keys).map fun key => bound (.key key)).sum + 1

section Bounds

variable {ss : List Shape} {bound : Place → Nat}

theorem Merged.size_le (hbound : ∀ p r, Repeated (parts p ss) r → r.size ≤ bound p) {r : Shape}
    (h : Merged ss r) : r.size ≤ mergedBound ss bound := by
  unfold mergedBound
  cases h with
  | unknown => simp only [size]; omega
  | scalar k => simp only [size]; omega
  | optional h => have := hbound .inner _ h; simp only [size]; omega
  | array h => have := hbound .item _ h; simp only [size]; omega
  | @object es fs hd _ _ hfs =>
    have hkeys : Entries.keys fs ⊆ ss.flatMap keys := by
      intro key hkey
      obtain ⟨s, hs⟩ := Entries.exists_get?_eq_some_iff.2 hkey
      obtain ⟨x, hx⟩ := (hfs key s hs).exists_mem
      obtain ⟨t, ht, htx⟩ := mem_parts.1 hx
      obtain ⟨gs, rfl, hget⟩ := part?_key_iff.1 htx
      exact List.mem_flatMap.2 ⟨_, ht, Entries.exists_get?_eq_some_iff.1 ⟨x, hget⟩⟩
    have hfields : sizeFields fs ≤ ((Entries.keys fs).map fun key => bound (.key key)).sum :=
      sizeFields_le_sum fun f hf => hbound _ _ (hfs _ _ (Entries.get?_of_mem hd hf))
    have := sum_map_le_of_nodup (fun key => bound (.key key)) hd hkeys
    simp only [size]
    omega

theorem nodup_of_wellFormed_union {ms : List Shape} (h : (union ms).WellFormed) : ms.Nodup := by
  obtain ⟨-, hpairwise, hms⟩ := wellFormed_union_iff.1 h
  refine hpairwise.imp_of_mem ?_
  rintro m _ hm _ hne rfl
  rw [same_refl (hms m hm)] at hne
  cases hne

theorem Settled.size_le (hbound : ∀ p r, Repeated (parts p ss) r → r.size ≤ bound p) {r : Shape}
    (hr : r.WellFormed) (h : Settled ss r) :
    r.size ≤ mergedBound ss bound + sizeMembers (ss.flatMap alternatives) + 1 := by
  cases h with
  | merged h => have := h.size_le hbound; omega
  | @union ms q hq hms =>
    have hsub : ms ⊆ q :: ss.flatMap alternatives := fun m hm => List.mem_cons.2 (hms m hm)
    have hsum := sum_map_le_of_nodup size (nodup_of_wellFormed_union hr) hsub
    rw [← sizeMembers_eq_sum, ← sizeMembers_eq_sum, sizeMembers] at hsum
    have := hq.size_le hbound
    simp only [size]
    omega

/-- The induction is on a bound of the given sizes: parts are smaller than what they are part of. -/
theorem Repeated.exists_bound (n : Nat) {ss : List Shape} (hss : ∀ s ∈ ss, s.WellFormed)
    (hstable : Stable ss) (hsize : ∀ s ∈ ss, s.size ≤ n) :
    ∃ B, ∀ r, Repeated ss r → r.size ≤ B := by
  induction n generalizing ss with
  | zero =>
    refine ⟨0, fun r hr => ?_⟩
    obtain ⟨s, hs⟩ := hr.exists_mem
    have := hsize s hs
    have := size_pos s
    omega
  | succ n ih =>
    have hparts : ∀ p, ∃ B, ∀ r, Repeated (parts p ss) r → r.size ≤ B := by
      intro p
      refine ih (fun x hx => ?_) (stable_parts hstable p) fun x hx => ?_
      · obtain ⟨s, hs, hsx⟩ := mem_parts.1 hx
        exact (hss s hs).part? hsx
      · obtain ⟨s, hs, hsx⟩ := mem_parts.1 hx
        have := size_lt_of_part? hsx
        have := hsize s hs
        omega
    choose bound hbound using hparts
    exact ⟨_, fun r hr => (hr.settled hss hstable).size_le hbound (hr.wellFormed hss)⟩

end Bounds

/-! ## Inferred shapes -/

theorem exists_bound_of_stable {vs : List Json.Value} (hvs : ∀ v ∈ vs, v.WellFormed)
    (hstable : Stable (vs.map ofValue)) :
    ∃ B, ∀ ws, (∀ w ∈ ws, w ∈ vs) → (infer ws).size ≤ B := by
  have hwf : ∀ s ∈ vs.map ofValue, s.WellFormed := by
    intro s hs
    obtain ⟨v, hv, rfl⟩ := List.mem_map.1 hs
    exact wellFormed_ofValue (hvs v hv)
  obtain ⟨B, hB⟩ := Repeated.exists_bound _ hwf hstable fun s hs => size_le_sizeMembers hs
  refine ⟨B + 1, fun ws hws => ?_⟩
  by_cases hne : ws.map ofValue = []
  · rw [infer, hne]
    exact Nat.le_add_left 1 B
  · have hsub : ∀ s ∈ ws.map ofValue, s ∈ vs.map ofValue := by
      intro s hs
      obtain ⟨w, hw, rfl⟩ := List.mem_map.1 hs
      exact List.mem_map_of_mem (hws w hw)
    exact Nat.le_succ_of_le (hB _ (.joinAll hne hsub))

/-- Values that are repeated without end have a shape of bounded size exactly if none lacks a field
that another has, not optional yet, in the same merged place. Objects with the same keys never do. -/
theorem infer_bounded_iff (vs : List Json.Value) (hvs : ∀ v ∈ vs, v.WellFormed) :
    ((∃ B, ∀ ws, (∀ w ∈ ws, w ∈ vs) → (infer ws).size ≤ B) ↔
        ∀ u ∈ vs, ∀ v ∈ vs, ¬(ofValue u).Omits (ofValue v)) ∧
      (KeyComplete vs → ∃ B, ∀ ws, (∀ w ∈ ws, w ∈ vs) → (infer ws).size ≤ B) := by
  have hbound : (∀ u ∈ vs, ∀ v ∈ vs, ¬(ofValue u).Omits (ofValue v)) →
      ∃ B, ∀ ws, (∀ w ∈ ws, w ∈ vs) → (infer ws).size ≤ B := by
    intro h
    refine exists_bound_of_stable hvs fun s hs t ht => ?_
    obtain ⟨u, hu, rfl⟩ := List.mem_map.1 hs
    obtain ⟨v, hv, rfl⟩ := List.mem_map.1 ht
    exact h u hu v hv
  refine ⟨⟨fun hB u hu v hv homits => ?_, hbound⟩, fun hkeys => hbound fun u hu v hv => ?_⟩
  · exact not_bounded_of_omits hu hv (hvs v hv) homits hB
  · exact not_omits_of_keyComplete hvs hkeys hu hv

/-- Some objects of one array lack a key, so it is optional in every array that is read. -/
theorem infer_bounded_iff_optional_items :
    let vs : List Json.Value := [.array [.object [("a", .int 1)], .object []]]
    (∀ v ∈ vs, v.WellFormed) ∧ ∃ B, ∀ ws, (∀ w ∈ ws, w ∈ vs) → (infer ws).size ≤ B := by
  intro vs
  have hscalar : ∀ {v : Json.Value} {k : Scalar}, v.kind = .scalar k → v.WellFormed := .scalar
  have hvs : ∀ v ∈ vs, v.WellFormed := by
    simp [vs, Json.Value.wellFormed_array_iff, Json.Value.wellFormed_object_iff, Entries.Distinct,
      Entries.keys, hscalar (v := .int 1) rfl]
  refine ⟨hvs, (infer_bounded_iff vs hvs).1.2 fun u hu v hv homits => ?_⟩
  cases List.mem_singleton.1 hu
  cases List.mem_singleton.1 hv
  have hshape : ofValue (.array [.object [("a", .int 1)], .object []]) =
      .array (.object [("a", .optional (.scalar .number))]) := rfl
  rw [hshape] at homits
  obtain _ | _ | ⟨⟨hnone, hsome, -⟩ | ⟨hx, hy, homits⟩⟩ := homits
  · rw [hnone] at hsome
    cases hsome
  · rename_i key x y
    have hinner : ∀ z, Entries.get? key [("a", Shape.optional (.scalar .number))] = some z →
        z = .optional (.scalar .number) := by
      intro z hz
      exact (Prod.mk.inj (List.mem_singleton.1 (Entries.mem_of_get?_eq_some hz))).2
    rw [hinner x hx, hinner y hy] at homits
    obtain _ | _ | _ | homits := homits
    cases homits

/-- A key that comes and goes: no bound holds for all lists of these two objects. -/
theorem repeating_two_objects_grows : ¬∃ B, ∀ ws,
    (∀ w ∈ ws, w ∈ ([.object [("a", .int 1)], .object []] : List Json.Value)) →
      (infer ws).size ≤ B := by
  have hwf : (Json.Value.object [("a", .int 1)]).WellFormed := by
    have hint : (Json.Value.int 1).WellFormed := .scalar rfl
    simp [Json.Value.wellFormed_object_iff, Entries.Distinct, Entries.keys, hint]
  have homits : (ofValue (.object [])).Omits (ofValue (.object [("a", .int 1)])) :=
    @Omits.here [] _ "a" _ rfl rfl rfl
  exact not_bounded_of_omits (by simp) (by simp) hwf homits

end Shape

end JsonShape
