import JsonShape.Proofs.Shape.Same
import JsonShape.Proofs.TypeScript.TypeName
import JsonShape.TypeScript.Document
/-!
# JsonShape.Proofs.TypeScript.Name

The names of types, and that a fresh name is free.

* `Text.IsTypeName`: a capital letter or an underscore, and then letters, digits and underscores.
* `Text.isTypeName_typeName`: what is made of any text is such a name.
* `TypeScript.freshName_not_mem`: a fresh name is none of those in use.
* `TypeScript.isTypeName_freshName`: the number behind a name leaves it one.
-/

namespace JsonShape

namespace Text

/-- A capital letter or an underscore, and then letters, digits and underscores. -/
def IsTypeName (t : Text) : Prop :=
  ∃ c rest, t = c :: rest ∧ (c.isUpperLetter = true ∨ c = underscore) ∧
    ∀ d ∈ rest, isNameCharacter d = true

theorem isTypeName_append {s t : Text} (hs : IsTypeName s) (ht : ∀ c ∈ t, isNameCharacter c = true) :
    IsTypeName (s ++ t) := by
  obtain ⟨c, rest, rfl, hc, hrest⟩ := hs
  exact ⟨c, rest ++ t, rfl, hc, fun d hd => (List.mem_append.1 hd).elim (hrest d) (ht d)⟩

theorem Sanitized.isTypeName {t : Text} (h : Sanitized t) : IsTypeName t := by
  have hname : ∀ {s : Text}, (∀ c ∈ s, isWordCharacter c = true) → ∀ c ∈ s, isNameCharacter c = true :=
    fun hs c hc => isNameCharacter_of_isWordCharacter (hs c hc)
  cases h with
  | blank => exact ⟨underscore, [], rfl, .inr rfl, by simp⟩
  | letter hc hrest => exact ⟨_, _, rfl, .inl hc, hname hrest⟩
  | digit hc hrest =>
    refine ⟨underscore, _, rfl, .inr rfl, hname ?_⟩
    exact List.forall_mem_cons.2 ⟨isWordCharacter_of_isDigit hc, hrest⟩

theorem isTypeName_typeName (t : Text) : IsTypeName (typeName t) := (sanitized_typeName t).isTypeName

theorem IsTypeName.isNameCharacter {t : Text} (h : IsTypeName t) :
    ∀ c ∈ t, isNameCharacter c = true := by
  obtain ⟨c, rest, rfl, hc, hrest⟩ := h
  refine List.forall_mem_cons.2 ⟨?_, hrest⟩
  rcases hc with hc | rfl
  · simp [Text.isNameCharacter, CodePoint.isLetter, hc]
  · decide

/-! ## Numbers -/

theorem ofNat_injective {m n : Nat} (h : ofNat m = ofNat n) : m = n := by
  have hchar : ∀ c d : Char, CodePoint.ofChar c = CodePoint.ofChar d → c = d := by
    intro c d h
    exact Char.toNat_inj.1 (congrArg CodePoint.toNat h)
  have hdigits : Nat.toDigits 10 m = Nat.toDigits 10 n := (List.map_inj_right hchar).1 h
  rw [← Nat.ofDigitChars_ten_toDigits (n := m), hdigits, Nat.ofDigitChars_ten_toDigits]

theorem isNameCharacter_of_mem_ofNat {n : Nat} {c : CodePoint} (h : c ∈ ofNat n) :
    isNameCharacter c = true := by
  obtain ⟨d, hd, rfl⟩ := List.mem_map.1 h
  have := Nat.isDigit_of_mem_toDigits (by decide) (by decide) hd
  simp only [Char.isDigit, Bool.and_eq_true, decide_eq_true_eq, UInt32.le_iff_toNat_le] at this
  have hdigit : (CodePoint.ofChar d).isDigit = true := by
    rw [CodePoint.isDigit, Bool.and_eq_true, decide_eq_true_eq, decide_eq_true_eq]
    exact this
  rw [isNameCharacter, hdigit, Bool.or_true, Bool.true_or]

end Text

namespace TypeScript

theorem numbered_injective {name : Text} {m n : Nat} (h : numbered name m = numbered name n) :
    m = n :=
  Text.ofNat_injective (List.append_cancel_left h)

/-- Of one number more than there are names in use, some number gives a name that is not. -/
theorem exists_numbered_not_mem (used : List Text) (name : Text) :
    ∃ n ∈ (List.range (used.length + 1)).map (· + 2), numbered name n ∉ used := by
  refine Classical.byContradiction fun hno => ?_
  have hused : ∀ n ∈ (List.range (used.length + 1)).map (· + 2), ∃ u ∈ used, numbered name n = u := by
    intro n hn
    refine ⟨_, Classical.byContradiction fun h => hno ⟨n, hn, h⟩, rfl⟩
  have hdistinct : ((List.range (used.length + 1)).map (· + 2)).Pairwise
      fun m n => ∀ u : Text, numbered name m = u → ¬numbered name n = u := by
    refine List.pairwise_map.2 (List.nodup_range.imp ?_)
    rintro m n hne _ rfl h
    have := numbered_injective h
    omega
  have := length_le_of_matching hused hdistinct
  simp only [List.length_map, List.length_range] at this
  omega

theorem freshName_not_mem (used : List Text) (name : Text) : freshName used name ∉ used := by
  rw [freshName]
  split
  · obtain ⟨n, hn, hfree⟩ := exists_numbered_not_mem used name
    cases hfind : ((List.range (used.length + 1)).map (· + 2)).find?
        fun n => !used.contains (numbered name n) with
    | none =>
      have := List.find?_eq_none.1 hfind n hn
      simp [hfree] at this
    | some m =>
      have hfree := List.find?_some hfind
      rw [Bool.not_eq_true'] at hfree
      show numbered name (Option.getD (List.find? _ _) 0) ∉ used
      rw [hfind]
      exact fun hmem => Bool.eq_false_iff.1 hfree (List.contains_iff_mem.2 hmem)
  · rename_i h
    simpa using h

theorem isTypeName_freshName {name : Text} (h : Text.IsTypeName name) (used : List Text) :
    Text.IsTypeName (freshName used name) := by
  rw [freshName]
  split
  · exact Text.isTypeName_append h fun c hc => Text.isNameCharacter_of_mem_ofNat hc
  · exact h

end TypeScript

end JsonShape
