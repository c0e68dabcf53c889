import JsonShape.Proofs.TypeScript.Generation
/-!
# JsonShape.Proofs.TypeScript.Steps

A converter that is used again and again, for names, single shapes and whole documents.

* `TypeScript.Fresh`: the name that a converter gives where some names are in use.
* `TypeScript.State.Clean`: the declared names are distinct and count as used; every step keeps this.
* `TypeScript.names_never_clash`: so the names declared after any run of steps, and those of a document,
  which does not depend on the steps before it.
-/

namespace JsonShape

namespace TypeScript

/-! ## Fresh names -/

/-- `own` is `name` if that is free, else the first free one of `name2`, `name3`, and so on. -/
inductive Fresh (used : List Text) (name : Text) : (own : Text) → Prop where
  | free : name ∉ used → Fresh used name name
  | numbered {n : Nat} : name ∈ used → 2 ≤ n → numbered name n ∉ used →
      (∀ m, 2 ≤ m → m < n → numbered name m ∈ used) → Fresh used name (numbered name n)

theorem fresh_freshName (used : List Text) (name : Text) : Fresh used name (freshName used name) := by
  have hfree := freshName_not_mem used name
  rw [freshName] at hfree ⊢
  split
  · rename_i hused
    rw [if_pos hused] at hfree
    dsimp only at hfree ⊢
    rw [List.find?_map] at hfree ⊢
    cases hfind : (List.range (used.length + 1)).find?
        ((fun n => !used.contains (numbered name n)) ∘ (· + 2)) with
    | none =>
      obtain ⟨n, hn, hnot⟩ := exists_numbered_not_mem used name
      obtain ⟨m, hm, rfl⟩ := List.mem_map.1 hn
      have := List.find?_eq_none.1 hfind m hm
      simp [hnot] at this
    | some m =>
      rw [hfind] at hfree
      obtain ⟨-, -, hbefore⟩ := List.find?_range_eq_some.1 hfind
      show Fresh used name (numbered name (m + 2))
      refine .numbered (List.contains_iff_mem.1 hused) (Nat.le_add_left 2 m) hfree ?_
      intro k hk hkm
      have := hbefore (k - 2) (by omega)
      rw [Function.comp_apply, Nat.sub_add_cancel hk] at this
      simpa using this
  · rename_i hused
    exact .free fun hmem => hused (List.contains_iff_mem.2 hmem)

/-! ## States -/

/-- The interfaces have names of their own, and no name of theirs can be given again. -/
structure State.Clean (st : State) : Prop where
  distinct : (st.interfaces.map Interface.name).Nodup
  used : ∀ i ∈ st.interfaces, i.name ∈ st.used

theorem clean_empty (used : List Text) : State.Clean ⟨[], used⟩ := ⟨.nil, by simp⟩

theorem State.Clean.declare {st : State} (h : st.Clean) {name : Text} {α : Type} {e : Emitted α}
    (he : Declares name st.used e) : State.Clean ⟨st.interfaces ++ e.interfaces, e.used⟩ := by
  refine ⟨?_, fun i hi => (he.used_iff _).2 ?_⟩
  · rw [List.map_append]
    refine List.nodup_append.2 ⟨h.distinct, he.distinct, fun n hn m hm hnm => ?_⟩
    obtain ⟨i, hi, rfl⟩ := List.mem_map.1 hn
    obtain ⟨j, hj, rfl⟩ := List.mem_map.1 hm
    exact he.fresh j hj (hnm ▸ h.used i hi)
  · rcases List.mem_append.1 hi with hi | hi
    · exact .inl (h.used i hi)
    · exact .inr ⟨i, hi, rfl⟩

/-- A document starts from no names at all, or from that of its alias. -/
theorem declares_declare (s : Shape) (root : Text) :
    ∃ used, Declares root used (declare s root) := by
  cases s with
  | object fs => exact ⟨[], (declares_typeOf (.object fs) root []).value _⟩
  | _ => exact ⟨[root], (declares_typeOf _ root [root]).value _⟩

theorem clean_run {st : State} (h : st.Clean) (step : Step) : (st.run step).2.Clean := by
  cases step with
  | name n => exact ⟨h.distinct, fun i hi => List.mem_cons_of_mem _ (h.used i hi)⟩
  | convert s n => exact h.declare (declares_typeOf s n st.used)
  | generate s root source =>
    obtain ⟨used, hdeclares⟩ := declares_declare s (Text.typeName root)
    exact (clean_empty used).declare hdeclares

/-- The state after some steps. -/
def State.after (st : State) (steps : List Step) : State := steps.foldl (fun st step => (st.run step).2) st

theorem clean_after {st : State} (h : st.Clean) (steps : List Step) : (st.after steps).Clean := by
  induction steps generalizing st with
  | nil => exact h
  | cons step steps ih => exact ih (clean_run h step)

/-! ## Documents -/

theorem isTypeName_of_mem_names {s : Shape} {rootName source n : Text}
    (hn : n ∈ (generate s rootName source).names) : Text.IsTypeName n := by
  have hroot := Text.isTypeName_typeName rootName
  obtain ⟨used, hdeclares⟩ := declares_declare s (Text.typeName rootName)
  rcases List.mem_append.1 hn with hn | hn
  · obtain ⟨a, ha, rfl⟩ := List.mem_map.1 hn
    have ha : (declare s (Text.typeName rootName)).value = some a := Option.mem_toList.1 ha
    cases s with
    | object fs => cases ha
    | _ =>
      cases ha
      exact hroot
  · obtain ⟨i, hi, rfl⟩ := List.mem_map.1 hn
    exact hdeclares.typeNames hroot i hi

/-- After any steps the declared names are distinct and in use, and a fresh name is the first that is
free. A document comes out as from a new converter: its names, that of the alias among them, are
distinct, begin with a capital letter or an underscore, and are no names of primitive types. -/
theorem names_never_clash (steps : List Step) :
    let st := State.empty.after steps
    (st.interfaces.map Interface.name).Nodup ∧ (∀ i ∈ st.interfaces, i.name ∈ st.used) ∧
    (∀ name, Fresh st.used name (st.run (.name name)).1) ∧
    ∀ s rootName source,
      let d := generate s rootName source
      let after := st.run (.generate s rootName source)
      after.1 = d.render ∧ after.1 = (State.empty.run (.generate s rootName source)).1 ∧
      after.2.interfaces = d.interfaces ∧ d.names.Nodup ∧
      ∀ n ∈ d.names, Text.IsTypeName n ∧ n ∉ primitives := by
  intro st
  obtain ⟨hdistinct, hused⟩ := clean_after (clean_empty []) steps
  refine ⟨hdistinct, hused, fun name => fresh_freshName _ _, fun s rootName source => ?_⟩
  -- Generating starts over, whatever the state before it.
  refine ⟨rfl, rfl, rfl, (generate_root s rootName source).1, fun n hn => ?_⟩
  have hname := isTypeName_of_mem_names hn
  exact ⟨hname, not_mem_primitives hname⟩

end TypeScript

end JsonShape
