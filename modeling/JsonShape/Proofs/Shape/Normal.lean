import JsonShape.Proofs.Shape.Join
import JsonShape.Proofs.Shape.Leaves
/-!
# JsonShape.Proofs.Shape.Normal

The grammar of the shapes that joining gives.

* `Shape.Normal`: no `unknown` but as the items of an array, optional marks only where a field may be
  missing and never two at once, unions of two or more shapes that differ and are no unions.
* `Shape.normal_join`, `Shape.normal_optionalOf`: joining and marking keep to the grammar.
* `Shape.normal_strip`: a stripped field has no optional mark left before its next field.
-/

namespace JsonShape.Shape

/-- Where a shape stands: in a field, which may be missing, or anywhere else. -/
inductive Position where
  | item
  | field

inductive Normal : Position → Shape → Prop where
  | scalar {p : Position} (k : Scalar) : Normal p (.scalar k)
  | optional {s : Shape} : s.isOptional = false → Normal .field s → Normal .field (.optional s)
  | emptyArray {p : Position} : Normal p (.array .unknown)
  | array {p : Position} {s : Shape} : Normal .item s → Normal p (.array s)
  | object {p : Position} {fs : List (Text × Shape)} :
      Entries.Distinct fs → (∀ f ∈ fs, Normal .field f.2) → Normal p (.object fs)
  | union {p : Position} {ms : List Shape} : 2 ≤ ms.length → (∀ m ∈ ms, m.isUnion = false) →
      (ms.Pairwise fun m n => m.same n = false) → (∀ m ∈ ms, Normal p m) → Normal p (.union ms)

namespace Normal

variable {p : Position} {s t m : Shape}

theorem wellFormed (hs : Normal p s) : s.WellFormed := by
  induction hs with
  | scalar k => exact .scalar k
  | optional _ _ ih => exact .optional ih
  | emptyArray => exact .array .unknown
  | array _ ih => exact .array ih
  | object hd _ ih => exact .object hd ih
  | union _ hunion hpairwise _ ih => exact wellFormed_union_iff.2 ⟨hunion, hpairwise, ih⟩

/-- What may stand anywhere may stand in a field. -/
theorem field (hs : Normal p s) : Normal .field s := by
  induction hs with
  | scalar k => exact .scalar k
  | optional h _ ih => exact .optional h ih
  | emptyArray => exact .emptyArray
  | array hs _ => exact .array hs
  | object hd hfs _ => exact .object hd hfs
  | union hlen hunion hpairwise _ ih => exact .union hlen hunion hpairwise ih

theorem of_mem_alternatives (hs : Normal p s) (hm : m ∈ s.alternatives) : Normal p m := by
  cases s with
  | union ms =>
    cases hs with
    | union _ _ _ hms => exact hms m hm
  | _ => exact List.mem_singleton.1 hm ▸ hs

theorem two_le_length (hs : Normal p s) (hunion : s.isUnion = true) : 2 ≤ s.alternatives.length := by
  cases hs with
  | union hlen => exact hlen
  | _ => cases hunion

theorem alternatives_ne_nil (hs : Normal p s) : s.alternatives ≠ [] := by
  cases hs with
  | union hlen =>
    rintro rfl
    cases hlen
  | _ => simp [alternatives]

/-- Outside of fields nothing may be absent. -/
theorem mayBeAbsent_eq_false (hs : Normal .item s) : s.mayBeAbsent = false := by
  cases hs with
  | @union p ms _ _ _ hms =>
    refine List.any_eq_false.2 fun m hm => ?_
    have hm := hms m hm
    cases m with
    | optional m => cases hm
    | _ => simp [isOptional]
  | _ => rfl

/-- A field that is never absent has a shape that may stand anywhere. -/
theorem item (hs : Normal p s) (h : s.mayBeAbsent = false) : Normal .item s := by
  induction hs with
  | scalar k => exact .scalar k
  | optional _ _ _ => cases h
  | emptyArray => exact .emptyArray
  | array hs _ => exact .array hs
  | object hd hfs _ => exact .object hd hfs
  | @union p ms hlen hunion hpairwise _ ih =>
    refine .union hlen hunion hpairwise fun m hm => ih m hm ?_
    have hoptional := List.any_eq_false.1 h m hm
    have hm := hunion m hm
    cases m with
    | optional m => exact absurd rfl hoptional
    | union ms => cases hm
    | _ => rfl

end Normal

theorem normal_optionalOf {s : Shape} (hs : Normal .field s) : Normal .field s.optionalOf := by
  cases s with
  | optional s => exact hs
  | _ => exact .optional rfl hs

/-! ## Unions -/

theorem normal_unionOf {p : Position} {ss : List Shape} (hss : ∀ s ∈ ss, Normal p s)
    (hlen : 2 ≤ (unionOf ss).alternatives.length) : Normal p (unionOf ss) := by
  have hwf := wellFormed_unionOf fun s hs => (hss s hs).wellFormed
  obtain ⟨hunion, hpairwise, -⟩ := wellFormed_union_iff.1 hwf
  refine .union hlen hunion hpairwise fun m hm => ?_
  obtain ⟨s, hs, hm⟩ := List.mem_flatMap.1 (mem_of_mem_firsts hm)
  exact (hss s hs).of_mem_alternatives hm

/-! ## Joining -/

theorem isOptional_join {s t : Shape} (hs : s.isOptional = false) (ht : t.isOptional = false) :
    (s.join t).isOptional = false := by
  induction s, t using join_ind with
  | unknown_left t => exact ht
  | unknown_right s => rw [join_unknown]; exact hs
  | scalar k => rw [scalar_join_self]; exact hs
  | optional s t _ => cases hs
  | array s t _ => rfl
  | object fs gs _ => rfl
  | union s t h => rw [h]; rfl

theorem normal_join {p : Position} {s t : Shape} (hs : Normal p s) (ht : Normal p t) :
    Normal p (s.join t) := by
  induction s, t using fits_ind generalizing p with
  | unknown_left t => cases hs
  | unknown_right s => cases ht
  | scalar k => rw [scalar_join_self]; exact hs
  | optional s t ih =>
    cases hs with
    | optional hs' hs =>
      cases ht with
      | optional ht' ht => exact .optional (isOptional_join hs' ht') (ih hs ht)
  | array s t ih =>
    show Normal p (array (s.join t))
    cases hs with
    | emptyArray => rwa [unknown_join]
    | array hs =>
      cases ht with
      | emptyArray => rw [join_unknown]; exact .array hs
      | array ht => exact .array (ih hs ht)
  | object fs gs ih =>
    cases hs with
    | object hfd hfs =>
      cases ht with
      | object hgd hgs =>
        have hd := distinct_joinFields hfd hgd
        refine .object hd fun e he => ?_
        rcases get?_joinFields_cases (Entries.get?_of_mem hd he) with
          ⟨x, y, hf, hg, hu⟩ | ⟨x, hf, -, hu⟩ | ⟨y, -, hg, hu⟩
        · have hmem := Entries.mem_of_get?_eq_some hf
          exact hu ▸ ih _ hmem y hg (hfs _ hmem) (hgs _ (Entries.mem_of_get?_eq_some hg))
        · exact hu ▸ normal_optionalOf (hfs _ (Entries.mem_of_get?_eq_some hf))
        · exact hu ▸ normal_optionalOf (hgs _ (Entries.mem_of_get?_eq_some hg))
  | apart s t h =>
    rw [join_of_not_fits h]
    exact normal_unionOf (forall_mem_pair hs ht)
      (two_le_length_of_not_fits hs.wellFormed ht.wellFormed hs.two_le_length ht.two_le_length h)

/-! ## Stripping -/

theorem normal_unwrap {s : Shape} (hs : Normal .field s) : Normal .field s.unwrap := by
  cases hs with
  | optional _ hs => exact hs
  | scalar k => exact .scalar k
  | emptyArray => exact .emptyArray
  | array hs => exact .array hs
  | object hd hfs => exact .object hd hfs
  | union hlen hunion hpairwise hms => exact .union hlen hunion hpairwise hms

theorem keptByStrip_normal : KeptByStrip (Normal .field) where
  unwrap := normal_unwrap
  alternatives hs := ⟨hs.alternatives_ne_nil, fun _ hm => hs.of_mem_alternatives hm⟩
  unionOf := normal_unionOf

/-- However often stripping a field peels a union, what is left may stand anywhere. -/
theorem normal_strip {s : Shape} (hs : Normal .field s) : Normal .item s.strip.present :=
  (keptByStrip_normal.strip hs).item (mayBeAbsent_strip_present s)

end JsonShape.Shape
