import JsonShape.Entries
import Mathlib.Data.List.Induction
/-!
# JsonShape.Proofs.Entries

Looking up keys in ordered mappings that are put together from others.

* `get?_of_mem`: in a mapping without repeated keys every entry is found under its key.
* `get?_mapValues`, `get?_filterKeys`, `get?_append`: look-up in a mapping whose values are changed,
  whose keys are selected, or that continues another.
* `get?_eq_some_iff`, `get?_reverse_eq_some_iff`: look-up finds the first entry of a key, and from the
  end the last one.
* `mapValues_eq_of_keys_eq`: mappings agree if their keys and what stands under them do.
* `get?_put_self`, `get?_put_of_ne`: look-up of the key that was put last, and of any other.
* `keys_ofPairs`, `get?_ofPairs`: of pairs put one by one, each key stands where it was first put, and
  what was put last stands under it.
* `mem_of_mem_ofPairs`: a mapping has no entries but those that were put into it.
* `ofPairs_of_distinct`: it has all of them in order if their keys are distinct.
-/

namespace JsonShape.Entries

variable {α β : Type}

theorem mem_keys_of_mem {e : Text × α} {es : List (Text × α)} (h : e ∈ es) : e.1 ∈ keys es :=
  List.mem_map_of_mem h

theorem exists_get?_eq_some_iff {key : Text} {es : List (Text × α)} :
    (∃ a, get? key es = some a) ↔ key ∈ keys es := by
  cases h : get? key es with
  | none => simp [get?_eq_none_iff.1 h]
  | some a =>
    have := mem_keys_of_mem (mem_of_get?_eq_some h)
    exact ⟨fun _ => this, fun _ => ⟨a, rfl⟩⟩

theorem get?_of_mem {key : Text} {a : α} {es : List (Text × α)} (hd : Distinct es)
    (h : (key, a) ∈ es) : get? key es = some a := by
  induction es with
  | nil => cases h
  | cons e rest ih =>
    obtain ⟨k, b⟩ := e
    obtain ⟨hk, hrest⟩ := List.nodup_cons.1 hd
    rcases List.mem_cons.1 h with he | h
    · cases he
      simp [get?]
    · have hne : k ≠ key := by
        rintro rfl
        have := mem_keys_of_mem h
        exact hk this
      simp only [get?, hne, if_false]
      exact ih hrest h

theorem get?_mapValues (f : Text → α → β) (key : Text) (es : List (Text × α)) :
    get? key (es.map fun e => (e.1, f e.1 e.2)) = (get? key es).map (f key) := by
  induction es with
  | nil => rfl
  | cons e rest ih =>
    obtain ⟨k, a⟩ := e
    by_cases hk : k = key
    · subst hk; simp [get?]
    · simp only [List.map_cons, get?, hk, if_false, ih]

theorem get?_filterKeys (p : Text → Bool) (key : Text) (es : List (Text × α)) :
    get? key (es.filter fun e => p e.1) = if p key then get? key es else none := by
  induction es with
  | nil => simp [get?]
  | cons e rest ih =>
    obtain ⟨k, a⟩ := e
    by_cases hk : k = key
    · subst hk
      by_cases hp : p k = true <;> simp [get?, hp, ih]
    · by_cases hp : p k = true <;> simp [get?, hp, hk, ih]

theorem get?_append (key : Text) (es fs : List (Text × α)) :
    get? key (es ++ fs) = (get? key es).or (get? key fs) := by
  induction es with
  | nil => rfl
  | cons e rest ih =>
    obtain ⟨k, a⟩ := e
    by_cases hk : k = key <;> simp [get?, hk, ih]

theorem get?_eq_some_iff {key : Text} {a : α} {es : List (Text × α)} :
    get? key es = some a ↔
      ∃ before behind, es = before ++ (key, a) :: behind ∧ key ∉ keys before := by
  constructor
  · intro h
    induction es with
    | nil => cases h
    | cons e es ih =>
      obtain ⟨k, b⟩ := e
      rw [get?] at h
      split at h
      · rename_i hk
        cases h
        exact ⟨[], es, by rw [hk]; rfl, List.not_mem_nil⟩
      · rename_i hk
        obtain ⟨before, behind, rfl, hnot⟩ := ih h
        refine ⟨(k, b) :: before, behind, rfl, ?_⟩
        rw [keys, List.map_cons, List.mem_cons, not_or]
        exact ⟨Ne.symm hk, hnot⟩
  · rintro ⟨before, behind, rfl, hnot⟩
    rw [get?_append, get?_eq_none_iff.2 hnot, get?, if_pos rfl]
    rfl

/-- Looking from the end finds the last entry of a key. -/
theorem get?_reverse_eq_some_iff {key : Text} {a : α} {es : List (Text × α)} :
    get? key es.reverse = some a ↔
      ∃ before behind, es = before ++ (key, a) :: behind ∧ key ∉ keys behind := by
  have hkeys : ∀ fs : List (Text × α), key ∈ keys fs.reverse ↔ key ∈ keys fs := by
    intro fs
    rw [keys, List.map_reverse, List.mem_reverse, keys]
  rw [get?_eq_some_iff]
  constructor
  · rintro ⟨behind, before, h, hnot⟩
    refine ⟨before.reverse, behind.reverse, ?_, mt (hkeys behind).1 hnot⟩
    rw [← List.reverse_reverse es, h]
    simp
  · rintro ⟨before, behind, rfl, hnot⟩
    exact ⟨behind.reverse, before.reverse, by simp, mt (hkeys behind).1 hnot⟩

theorem keys_mapValues (f : Text → α → β) (es : List (Text × α)) :
    keys (es.map fun e => (e.1, f e.1 e.2)) = keys es := by
  simp [keys, Function.comp_def]

theorem keys_append (es fs : List (Text × α)) : keys (es ++ fs) = keys es ++ keys fs := by
  simp [keys]

theorem keys_filterKeys (p : Text → Bool) (es : List (Text × α)) :
    keys (es.filter fun e => p e.1) = (keys es).filter p := by
  simp [keys, List.filter_map, Function.comp_def]

theorem contains_eq_true_iff {key : Text} {es : List (Text × α)} :
    contains es key = true ↔ key ∈ keys es := by
  rw [contains, Option.isSome_iff_exists, exists_get?_eq_some_iff]

/-- Mappings with the same keys in the same order are equal once their values are. -/
theorem mapValues_eq_of_keys_eq {γ : Type} {f : α → γ} {g : β → γ} {es : List (Text × α)}
    {fs : List (Text × β)} (hd : Distinct es) (hkeys : keys es = keys fs)
    (h : ∀ key a b, get? key es = some a → get? key fs = some b → f a = g b) :
    (es.map fun e => (e.1, f e.2)) = fs.map fun e => (e.1, g e.2) := by
  induction es generalizing fs with
  | nil => rw [List.map_eq_nil_iff.1 hkeys.symm]; rfl
  | cons e es ih =>
    cases fs with
    | nil => cases hkeys
    | cons e' fs =>
      obtain ⟨k, a⟩ := e
      obtain ⟨l, b⟩ := e'
      obtain ⟨rfl, htail⟩ : k = l ∧ keys es = keys fs := List.cons.inj hkeys
      obtain ⟨hk, hd⟩ := List.nodup_cons.1 hd
      have hrest : ∀ key a b, get? key es = some a → get? key fs = some b → f a = g b := by
        intro key a' b' ha hb
        have hne : k ≠ key := by
          rintro rfl
          exact hk (exists_get?_eq_some_iff.1 ⟨a', ha⟩)
        exact h key a' b' (by simp [get?, hne, ha]) (by simp [get?, hne, hb])
      rw [List.map_cons, List.map_cons, ih hd htail hrest, h k a b (by simp [get?]) (by simp [get?])]

theorem get?_put_self (key : Text) (a : α) (es : List (Text × α)) :
    get? key (put key a es) = some a := by
  induction es with
  | nil => simp [put, get?]
  | cons e rest ih =>
    obtain ⟨k, b⟩ := e
    rw [put]
    split
    · rename_i hk
      rw [get?, if_pos hk]
    · rename_i hk
      rw [get?, if_neg hk, ih]

theorem get?_put_of_ne {key other : Text} (h : key ≠ other) (a : α) (es : List (Text × α)) :
    get? other (put key a es) = get? other es := by
  induction es with
  | nil => simp [put, get?, h]
  | cons e rest ih =>
    obtain ⟨k, b⟩ := e
    rw [put]
    split
    · rename_i hk
      subst hk
      simp [get?, h]
    · simp [get?, ih]

theorem put_of_not_mem {key : Text} (a : α) {es : List (Text × α)} (h : key ∉ keys es) :
    put key a es = es ++ [(key, a)] := by
  induction es with
  | nil => rfl
  | cons e rest ih =>
    obtain ⟨k, b⟩ := e
    rw [keys, List.map_cons, List.mem_cons, not_or] at h
    rw [put, if_neg (Ne.symm h.1), ih h.2, List.cons_append]

theorem ofPairs_append_singleton (ps : List (Text × α)) (p : Text × α) :
    ofPairs (ps ++ [p]) = put p.1 p.2 (ofPairs ps) := by
  rw [ofPairs, List.foldl_append]
  rfl

/-- Each key stands where it was first put. -/
theorem keys_ofPairs (ps : List (Text × α)) : keys (ofPairs ps) = (keys ps).eraseDups := by
  induction ps using List.reverseRecOn with
  | nil => rfl
  | append_singleton ps p ih =>
    rw [ofPairs_append_singleton, keys_put, ih, keys_append, List.eraseDups_append]
    by_cases h : p.1 ∈ keys ps
    · have hold : (keys [p]).removeAll (keys ps) = [] := by
        simpa [keys, List.removeAll] using h
      rw [if_pos (List.mem_eraseDups.2 h), hold, List.eraseDups_nil, List.append_nil]
    · have hnew : (keys [p]).removeAll (keys ps) = [p.1] := by
        simpa [keys, List.removeAll] using h
      rw [if_neg (mt List.mem_eraseDups.1 h), hnew]
      rfl

/-- What was put last under a key stands there. -/
theorem get?_ofPairs (key : Text) (ps : List (Text × α)) :
    get? key (ofPairs ps) = get? key ps.reverse := by
  -- From the end, because the pair that is put last decides.
  induction ps using List.reverseRecOn with
  | nil => rfl
  | append_singleton ps p ih =>
    obtain ⟨k, a⟩ := p
    rw [ofPairs_append_singleton, List.reverse_append, List.reverse_singleton, List.singleton_append, get?]
    by_cases hk : k = key
    · rw [if_pos hk, hk, get?_put_self]
    · rw [if_neg hk, get?_put_of_ne hk, ih]

theorem mem_of_mem_ofPairs {ps : List (Text × α)} {e : Text × α} (h : e ∈ ofPairs ps) : e ∈ ps := by
  have hget := get?_of_mem (distinct_ofPairs ps) h
  rw [get?_ofPairs] at hget
  exact List.mem_reverse.1 (mem_of_get?_eq_some hget)

/-- Pairs under distinct keys are a mapping already. -/
theorem ofPairs_of_distinct {ps : List (Text × α)} (h : Distinct ps) : ofPairs ps = ps := by
  induction ps using List.reverseRecOn with
  | nil => rfl
  | append_singleton ps p ih =>
    rw [Distinct, keys_append, List.nodup_append] at h
    obtain ⟨hps, -, hdisjoint⟩ := h
    have hp : p.1 ∉ keys ps := fun hmem => hdisjoint _ hmem p.1 List.mem_cons_self rfl
    rw [ofPairs_append_singleton, ih hps, put_of_not_mem p.2 hp]

end JsonShape.Entries
