import JsonShape.Catalogue
import JsonShape.Proofs.Text.Pieces
import Mathlib.Data.List.Nodup
/-!
# JsonShape.Proofs.Catalogue

What is found by name.

* `Catalogue.ownNames`: the names of what the whole has of its own.
* `Catalogue.Listed`: what the tables of operations and areas have under a name.
* `Catalogue.find_eq_ok_iff`: of all other names, those in the tables are found, as what they are there.
* `Catalogue.find_of_not_listed`: the rest is reserved or missing, and the fault tells the name.
-/

namespace JsonShape.Catalogue

def ownNames : List Text :=
  own ++ borrowed ++ universal ++ [kindProperty, finder] ++ bound ++ values.flatMap Prod.snd

theorem ite_some_eq_none_iff {α : Type} {p : Prop} [Decidable p] {a : α} {r : Option α} :
    (if p then some a else r) = none ↔ ¬p ∧ r = none := by
  by_cases h : p <;> simp [h]

theorem findOwn?_eq_none_iff {name : Text} : findOwn? name = none ↔ name ∉ ownNames := by
  simp only [findOwn?, ite_some_eq_none_iff, Option.map_eq_none_iff, List.find?_eq_none,
    List.contains_iff_mem, ownNames, List.mem_append, List.mem_cons, List.not_mem_nil, or_false, not_or,
    List.mem_flatMap, not_exists, not_and, and_assoc]

/-- Operations stand with their areas, and areas by themselves. -/
inductive Listed (name : Text) : Entry → Prop where
  | operation {home : Text} : (name, home) ∈ operations →
      Listed name (.operation name (some (qualified home)))
  | area : name ∈ areas → Listed name (.area (qualified name))

/-! ## The tables -/

def listedNames : List Text := operations.map Prod.fst ++ areas

/-- No name stands for two things. -/
theorem nodup_listedNames : listedNames.Nodup := by decide +kernel

/-- Nothing in the tables is hidden by what the whole has of its own. -/
theorem not_mem_ownNames : ∀ name ∈ listedNames, name ∉ ownNames := by decide +kernel

theorem plain_of_mem_listedNames :
    ∀ name ∈ listedNames, ¬("__" : Text) <+: name ∧ Text.dot ∉ name := by decide +kernel

theorem find?_operations_eq_some_iff {name : Text} {o : Text × Text} :
    (operations.find? fun o => o.1 = name) = some o ↔ o ∈ operations ∧ o.1 = name := by
  constructor
  · intro h
    exact ⟨List.mem_of_find?_eq_some h, by simpa using List.find?_some h⟩
  · rintro ⟨hmem, rfl⟩
    cases hfind : operations.find? fun found => found.1 = o.1 with
    | none => exact absurd (decide_eq_true rfl) (List.find?_eq_none.1 hfind o hmem)
    | some found =>
      have hname : found.1 = o.1 := by simpa using List.find?_some hfind
      have hdistinct := (List.nodup_append.1 nodup_listedNames).1
      rw [List.inj_on_of_nodup_map hdistinct (List.mem_of_find?_eq_some hfind) hmem hname]

theorem find?_operations_eq_none {name : Text} (h : ∀ home, (name, home) ∉ operations) :
    (operations.find? fun o => o.1 = name) = none := by
  cases hfind : operations.find? fun o => o.1 = name with
  | none => rfl
  | some o =>
    obtain ⟨hmem, rfl⟩ := find?_operations_eq_some_iff.1 hfind
    exact absurd hmem (h o.2)

theorem not_mem_operations_of_mem_areas {name : Text} (h : name ∈ areas) (home : Text) :
    (name, home) ∉ operations := fun hmem =>
  (List.nodup_append.1 nodup_listedNames).2.2 _ (List.mem_map_of_mem hmem) _ h rfl

theorem findArea_of_mem {name : Text} (h : name ∈ areas) :
    findArea name = .ok (.area (qualified name)) := by
  obtain ⟨-, hdot⟩ := plain_of_mem_listedNames name (List.mem_append_right _ h)
  rw [findArea, Text.splitOn_of_not_mem hdot]
  exact if_pos (List.contains_iff_mem.2 h)

/-! ## The search -/

section Find

variable {name : Text} (hown : name ∉ ownNames)

include hown

theorem find_of_reserved (h : ("__" : Text) <+: name) : find name = .error (.reserved name) := by
  rw [find, findOwn?_eq_none_iff.2 hown]
  exact if_pos (List.isPrefixOf_iff_prefix.2 h)

theorem find_of_not_reserved (h : ¬("__" : Text) <+: name) :
    find name =
      match operations.find? fun o => o.1 = name with
      | some (name, home) => .ok (.operation name (some (qualified home)))
      | none => findArea name := by
  rw [find, findOwn?_eq_none_iff.2 hown]
  exact if_neg fun hprefix => h (List.isPrefixOf_iff_prefix.1 hprefix)

theorem listed_of_find {e : Entry} (h : find name = .ok e) : Listed name e := by
  by_cases hreserved : ("__" : Text) <+: name
  · rw [find_of_reserved hown hreserved] at h
    cases h
  · rw [find_of_not_reserved hown hreserved] at h
    cases hfind : operations.find? fun o => o.1 = name with
    | some o =>
      obtain ⟨hmem, rfl⟩ := find?_operations_eq_some_iff.1 hfind
      rw [hfind] at h
      cases h
      exact .operation hmem
    | none =>
      rw [hfind] at h
      dsimp only at h
      -- A name with a dot in it leads below an area, where there is nothing.
      unfold findArea at h
      split at h
      · cases h
      · split at h
        · rename_i harea
          cases h
          exact .area (List.contains_iff_mem.1 harea)
        · cases h
      · split at h <;> cases h

theorem find_of_not_listed (h : ∀ e, ¬Listed name e) (hdot : Text.dot ∉ name) :
    find name = .error (if ("__" : Text) <+: name then .reserved name else .noArea name) := by
  by_cases hreserved : ("__" : Text) <+: name
  · rw [if_pos hreserved, find_of_reserved hown hreserved]
  · have harea : ¬areas.contains name = true := fun hmem => h _ (.area (List.contains_iff_mem.1 hmem))
    rw [if_neg hreserved, find_of_not_reserved hown hreserved,
      find?_operations_eq_none fun home hmem => h _ (.operation hmem)]
    dsimp only
    rw [findArea, Text.splitOn_of_not_mem hdot]
    exact if_neg harea

end Find

theorem find_of_listed {name : Text} {e : Entry} (h : Listed name e) : find name = .ok e := by
  have hmem : name ∈ listedNames := by
    cases h with
    | operation h => exact List.mem_append_left _ (List.mem_map_of_mem h)
    | area h => exact List.mem_append_right _ h
  obtain ⟨hreserved, -⟩ := plain_of_mem_listedNames name hmem
  rw [find_of_not_reserved (not_mem_ownNames name hmem) hreserved]
  cases h with
  | operation h => rw [find?_operations_eq_some_iff.2 ⟨h, rfl⟩]
  | area h =>
    rw [find?_operations_eq_none (not_mem_operations_of_mem_areas h)]
    exact findArea_of_mem h

theorem find_eq_ok_iff {name : Text} (hown : name ∉ ownNames) {e : Entry} :
    find name = .ok e ↔ Listed name e :=
  ⟨listed_of_find hown, find_of_listed⟩

end JsonShape.Catalogue
