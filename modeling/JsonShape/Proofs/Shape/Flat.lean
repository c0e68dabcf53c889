import JsonShape.Proofs.Shape.Join
import JsonShape.Proofs.Shape.Leaves
/-!
# JsonShape.Proofs.Shape.Flat

Shapes without arrays and objects: kinds behind optional marks and unions. Joining and stripping them
only depends on their kinds, in the order in which these are first seen.

* `Shape.Flat`: the shapes; a union has two members at least.
* `Shape.firsts_leaves_join`: the kinds of a join are those of both sides.
* `Shape.strip_present_of_flat`: stripping leaves the kinds and nothing else.
-/

namespace JsonShape.Shape

inductive Flat : Shape → Prop where
  | scalar (k : Scalar) : Flat (.scalar k)
  | optional {s : Shape} : Flat s → Flat (.optional s)
  | union {ms : List Shape} : 2 ≤ ms.length → (∀ m ∈ ms, Flat m) → Flat (.union ms)

theorem flat_optionalOf {s : Shape} (hs : s.Flat) : s.optionalOf.Flat := by
  cases s with
  | optional s => exact hs
  | _ => exact .optional hs

theorem flat_of_mem_alternatives {s m : Shape} (hs : s.Flat) (hm : m ∈ s.alternatives) : m.Flat := by
  cases hs with
  | scalar k => exact List.mem_singleton.1 hm ▸ .scalar k
  | optional hs => exact List.mem_singleton.1 hm ▸ .optional hs
  | union hlen hms => exact hms m hm

theorem flat_of_mem_firsts {ss : List Shape} (hss : ∀ s ∈ ss, s.Flat) {m : Shape}
    (hm : m ∈ firsts (ss.flatMap alternatives)) : m.Flat := by
  obtain ⟨s, hs, hm⟩ := List.mem_flatMap.1 (mem_of_mem_firsts hm)
  exact flat_of_mem_alternatives (hss s hs) hm

/-! ## Joining -/

theorem two_le_length_of_flat {s : Shape} (hs : s.Flat) (hunion : s.isUnion = true) :
    2 ≤ s.alternatives.length := by
  cases hs with
  | union hlen hms => exact hlen
  | _ => cases hunion

theorem flat_join {s t : Shape} (hs : s.Flat) (ht : t.Flat) (hswf : s.WellFormed)
    (htwf : t.WellFormed) : (s.join t).Flat := by
  induction s, t using fits_ind with
  | unknown_left t => cases hs
  | unknown_right s => cases ht
  | scalar k => rw [scalar_join_self]; exact hs
  | optional s t ih =>
    cases hs with
    | optional hs =>
      cases ht with
      | optional ht =>
        exact .optional (ih hs ht (wellFormed_optional_iff.1 hswf) (wellFormed_optional_iff.1 htwf))
  | array s t _ => cases hs
  | object fs gs _ => cases hs
  | apart s t h =>
    have hlen := two_le_length_of_not_fits hswf htwf (two_le_length_of_flat hs)
      (two_le_length_of_flat ht) h
    rw [join_of_not_fits h]
    exact .union hlen fun m hm => flat_of_mem_firsts (forall_mem_pair hs ht) hm

theorem firsts_leaves_join {s t : Shape} (hs : s.Flat) (ht : t.Flat) (hswf : s.WellFormed)
    (htwf : t.WellFormed) : firsts (s.join t).leaves = firsts (s.leaves ++ t.leaves) := by
  induction s, t using join_ind with
  | unknown_left t => cases hs
  | unknown_right s => cases ht
  | scalar k =>
    rw [scalar_join_self]
    simp [leaves, firsts, same]
  | optional s t ih =>
    cases hs with
    | optional hs =>
      cases ht with
      | optional ht =>
        exact ih hs ht (wellFormed_optional_iff.1 hswf) (wellFormed_optional_iff.1 htwf)
  | array s t _ => cases hs
  | object fs gs _ => cases hs
  | union s t h =>
    rw [h, firsts_leaves_unionOf (forall_mem_pair hswf htwf)]
    simp

/-! ## Stripping -/

theorem plural_of_flat {s : Shape} (hs : s.Flat) : s.Plural := by
  induction hs with
  | scalar k => exact .scalar k
  | optional _ ih => exact .optional ih
  | union hlen _ ih => exact .union hlen ih

theorem strip_present_of_flat {s : Shape} (hs : s.Flat) (hwf : s.WellFormed) :
    s.strip.present = (union (firsts s.leaves)).collapse :=
  strip_present_of_plural (plural_of_flat hs) hwf

end JsonShape.Shape
