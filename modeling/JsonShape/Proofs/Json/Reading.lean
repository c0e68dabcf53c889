import JsonShape.Proofs.Json.Locality
import JsonShape.Proofs.Json.StringLiteral
import JsonShape.Proofs.Json.Value
import JsonShape.Datum.ToValue
/-!
# JsonShape.Proofs.Json.Reading

The keys of values that come from outside.

* `Json.keyed_of_read`: what holds of every literal in a JSON text holds of the keys of its value.
* `Json.wellFormed_of_read`: the value repeats no key, because later fields replace earlier ones.
* `Json.keyed_unpaired_of_read`: without surrogates in the text its keys have no pairs of surrogates.
* `Datum.wellFormed_of_toValue?`: data in memory repeat no key either.
-/

namespace JsonShape

namespace Json

/-! ## Text -/

theorem skipSpace_suffix (t : Text) : skipSpace t <:+ t := List.dropWhile_suffix _

/-- What stands behind the first character that is no space. -/
theorem suffix_of_skipSpace {t rest : Text} {c : CodePoint} (h : skipSpace t = c :: rest) :
    c :: rest <:+ t ∧ rest <:+ t := by
  have := skipSpace_suffix t
  rw [h] at this
  exact ⟨this, (List.suffix_cons _ _).trans this⟩

theorem suffix_of_readValue {n : Nat} {t rest : Text} {v : Value} (h : readValue n t = .ok (v, rest)) :
    rest <:+ t := by
  obtain ⟨u, rfl, -⟩ := (takes_of_readers n).1 _ _ _ h
  exact List.suffix_append u rest

theorem ReadsName.suffix {t k u : Text} (h : ReadsName t k u) : u <:+ t := by
  obtain ⟨x, ht, -⟩ := h.local (p := [])
  exact ⟨x, ht.symm⟩

theorem scan_of_readString {t s rest : Text} (h : readString t = .ok (s, rest)) :
    StringLiteral.scan t = .ok (s, rest) := by
  rw [readString] at h
  split at h
  · cases h
  · cases h
    assumption

theorem scalar_of_readAtom {t rest : Text} {v : Value} (h : readAtom t = .ok (v, rest)) :
    ∃ k, v.kind = .scalar k := by
  rcases readAtom_eq_ok_iff.1 h with ⟨w, hw, -⟩ | ⟨n, -, hvalue⟩
  · have hwords : ∀ w ∈ words, ∃ k, w.2.kind = .scalar k := by
      simp [words, Value.kind]
    exact hwords _ hw
  · rw [Numeral.value] at hvalue
    split at hvalue
    · split at hvalue <;> cases hvalue
      exact ⟨_, rfl⟩
    · cases hvalue
      exact ⟨_, rfl⟩

/-- `Q` says of a text what passes to its ends, and `K` what that makes of the literals in it. -/
structure LiteralsOf (Q K : Text → Prop) : Prop where
  suffix : ∀ {s t}, s <:+ t → Q t → Q s
  scan : ∀ {t s rest}, Q t → StringLiteral.scan t = .ok (s, rest) → K s

section Readers

variable {Q K : Text → Prop} (h : LiteralsOf Q K) {n : Nat}
  (hvalue : ∀ t v rest, Q t → readValue n t = .ok (v, rest) → v.Keyed K)
  (hitems : ∀ t vs rest, Q t → readItems n t = .ok (vs, rest) → ∀ v ∈ vs, v.Keyed K)
  (hfields : ∀ t fs rest, Q t → readFields n t = .ok (fs, rest) → ∀ f ∈ fs, K f.1 ∧ f.2.Keyed K)

include h hitems hfields in
theorem keyed_of_readValue_succ {t rest : Text} {v : Value} (ht : Q t)
    (hcall : readValue (n + 1) t = .ok (v, rest)) : v.Keyed K := by
  cases valueStep_iff.2 hcall with
  | string => exact .scalar rfl
  | emptyArray => exact .array (by simp)
  | array hspace _ hread =>
    have htail := h.suffix (List.suffix_cons _ _) ht
    exact .array (hitems _ _ _ (h.suffix (suffix_of_skipSpace hspace).1 htail) hread)
  | emptyObject => exact .object .nil (by simp) (by simp)
  | object hspace _ hread =>
    have htail := h.suffix (List.suffix_cons _ _) ht
    refine Value.keyed_object_iff.2 ⟨Entries.distinct_ofPairs _, fun f hf => ?_⟩
    exact hfields _ _ _ (h.suffix (suffix_of_skipSpace hspace).1 htail) hread f
      (Entries.mem_of_mem_ofPairs hf)
  | atom _ _ _ hread =>
    obtain ⟨k, hk⟩ := scalar_of_readAtom hread
    exact .scalar hk

include h hvalue hitems in
theorem keyed_of_readItems_succ {t rest : Text} {vs : List Value} (ht : Q t)
    (hcall : readItems (n + 1) t = .ok (vs, rest)) : ∀ v ∈ vs, v.Keyed K := by
  cases itemsStep_iff.2 hcall with
  | last hread _ => simpa using hvalue _ _ _ ht hread
  | more hread hspace hmore =>
    have hnext := (suffix_of_skipSpace hspace).2.trans (suffix_of_readValue hread)
    have hsuffix := (skipSpace_suffix _).trans hnext
    exact List.forall_mem_cons.2 ⟨hvalue _ _ _ ht hread, hitems _ _ _ (h.suffix hsuffix ht) hmore⟩

include h in
theorem key_of_readsName {t k u : Text} (ht : Q t) (hname : ReadsName t k u) : K k := by
  cases hname with
  | intro hstring _ => exact h.scan ht (scan_of_readString hstring)

include h hvalue hfields in
theorem keyed_of_readFields_succ {t rest : Text} {fs : List (Text × Value)} (ht : Q t)
    (hcall : readFields (n + 1) t = .ok (fs, rest)) : ∀ f ∈ fs, K f.1 ∧ f.2.Keyed K := by
  cases fieldsStep_iff.2 hcall with
  | last hname hread _ =>
    have hv := hvalue _ _ _ (h.suffix hname.suffix ht) hread
    simpa using ⟨key_of_readsName h ht hname, hv⟩
  | more hname hread hspace hmore =>
    have hv := hvalue _ _ _ (h.suffix hname.suffix ht) hread
    have hnext := (suffix_of_skipSpace hspace).2.trans ((suffix_of_readValue hread).trans hname.suffix)
    have hsuffix := (skipSpace_suffix _).trans hnext
    exact List.forall_mem_cons.2 ⟨⟨key_of_readsName h ht hname, hv⟩,
      hfields _ _ _ (h.suffix hsuffix ht) hmore⟩

include h in
/-- All three readers at once, by the number of calls that are left to them. -/
theorem keyed_of_readers (n : Nat) :
    (∀ t v rest, Q t → readValue n t = .ok (v, rest) → v.Keyed K) ∧
      (∀ t vs rest, Q t → readItems n t = .ok (vs, rest) → ∀ v ∈ vs, v.Keyed K) ∧
        ∀ t fs rest, Q t → readFields n t = .ok (fs, rest) → ∀ f ∈ fs, K f.1 ∧ f.2.Keyed K := by
  induction n with
  | zero =>
    refine ⟨?_, ?_, ?_⟩ <;> intro t _ rest _ hread
    · rw [readValue] at hread; cases hread
    · rw [readItems] at hread; cases hread
    · rw [readFields] at hread; cases hread
  | succ n ih =>
    obtain ⟨hvalue, hitems, hfields⟩ := ih
    exact ⟨fun _ _ _ => keyed_of_readValue_succ h hitems hfields,
      fun _ _ _ => keyed_of_readItems_succ h hvalue hitems,
      fun _ _ _ => keyed_of_readFields_succ h hvalue hfields⟩

include h in
theorem keyed_of_read {t : Text} {v : Value} (ht : Q t) (hread : read t = .ok v) : v.Keyed K := by
  rw [read] at hread
  split at hread
  · cases hread
  · rename_i hread'
    cases hread
    rw [readWhole] at hread'
    split at hread'
    · cases hread'
    · split at hread'
      · cases hread'
      · rename_i hvalue
        split at hread'
        · cases hread'
          exact (keyed_of_readers h _).1 _ _ _ (h.suffix (skipSpace_suffix t) ht) hvalue
        · cases hread'

end Readers

theorem wellFormed_of_read {t : Text} {v : Value} (hread : read t = .ok v) : v.WellFormed := by
  have h : LiteralsOf (fun _ => True) fun _ => True := ⟨fun _ _ => trivial, fun _ _ => trivial⟩
  exact (keyed_of_read h trivial hread).wellFormed

/-- In a text without surrogates a pair of surrogates can only be written as escapes, and those are
read as one character. -/
theorem keyed_unpaired_of_read {t : Text} {v : Value} (ht : ∀ c ∈ t, c.isScalar = true)
    (hread : read t = .ok v) : v.Keyed fun key => key.unpaired = true := by
  have h : LiteralsOf (fun t => ∀ c ∈ t, c.isScalar = true) fun s => s.unpaired = true :=
    ⟨fun hsuffix ht c hc => ht c (hsuffix.subset hc), StringLiteral.unpaired_of_scan⟩
  exact keyed_of_read h ht hread

end Json

/-! ## Data -/

namespace Datum

variable {limit : Nat}

mutual

theorem wellFormed_of_toValue? {d : Datum} {v : Json.Value} (h : d.toValue? limit = .ok v) :
    v.WellFormed := by
  cases d with
  | list ds | tuple ds =>
    rw [toValue?] at h
    split at h
    · cases h
    · rename_i hvs
      cases h
      exact .array (wellFormed_of_toValues? hvs)
  | mapping es =>
    rw [toValue?] at h
    split at h
    · cases h
    · rename_i hfs
      cases h
      exact .object (Entries.distinct_ofPairs _) fun f hf =>
        wellFormed_of_toFields? hfs f (Entries.mem_of_mem_ofPairs hf)
  | bytes bs | set ds | other kind shown text => rw [toValue?] at h; cases h
  | _ => rw [toValue?] at h; cases h; exact .scalar rfl

theorem wellFormed_of_toValues? {ds : List Datum} {vs : List Json.Value}
    (h : toValues? limit ds = .ok vs) : ∀ v ∈ vs, v.WellFormed := by
  cases ds with
  | nil => rw [toValues?] at h; cases h; simp
  | cons d ds =>
    rw [toValues?] at h
    split at h
    · cases h
    · rename_i hv
      split at h
      · cases h
      · rename_i hvs
        cases h
        exact List.forall_mem_cons.2 ⟨wellFormed_of_toValue? hv, wellFormed_of_toValues? hvs⟩

theorem wellFormed_of_toFields? {es : List (Datum × Datum)} {fs : List (Text × Json.Value)}
    (h : toFields? limit es = .ok fs) : ∀ f ∈ fs, f.2.WellFormed := by
  match es with
  | [] => rw [toFields?] at h; cases h; simp
  | (k, d) :: es =>
    rw [toFields?] at h
    split at h
    · cases h
    · split at h
      · cases h
      · rename_i hv
        split at h
        · cases h
        · rename_i hfs
          cases h
          exact List.forall_mem_cons.2 ⟨wellFormed_of_toValue? hv, wellFormed_of_toFields? hfs⟩

end

end Datum

end JsonShape
