import Mathlib.Data.List.Basic
import JsonShape.Proofs.Text.Pieces
import JsonShape.TypeScript.Name
/-!
# JsonShape.Proofs.TypeScript.Words

The words that names are made of, and their letter case.

* `Text.title_of_ascii`, `Text.lower_of_ascii`: letter case in ASCII.
* `Text.flatten_words`: the words of a text leave out none of its letters and digits.
* `Text.flatMap_lower_flatMap_capitalize`: capitalizing them changes nothing but letter case.
* `Text.pascal_eq_self`: letters and digits of which the first is no lower-case letter are words run
  together already.
-/

namespace JsonShape.Text

/-! ## Letters and digits -/

/-- A letter or a digit. -/
def isWordCharacter (c : CodePoint) : Bool := c.isLetter || c.isDigit

theorem toNat_lt_of_isWordCharacter {c : CodePoint} (hc : isWordCharacter c = true) :
    c.toNat < 0x80 := by
  simp only [isWordCharacter, CodePoint.isLetter, CodePoint.isUpperLetter, CodePoint.isLowerLetter,
    CodePoint.isDigit, Bool.or_eq_true, Bool.and_eq_true, decide_eq_true_eq] at hc
  omega

theorem isWordCharacter_of_isUpperLetter {c : CodePoint} (h : c.isUpperLetter = true) :
    isWordCharacter c = true := by
  rw [isWordCharacter, CodePoint.isLetter, h, Bool.true_or, Bool.true_or]

theorem isWordCharacter_of_isDigit {c : CodePoint} (h : c.isDigit = true) :
    isWordCharacter c = true := by
  rw [isWordCharacter, h, Bool.or_true]

theorem isLowerLetter_of_isUpperLetter {c : CodePoint} (h : c.isUpperLetter = true) :
    c.isLowerLetter = false := by
  simp only [CodePoint.isUpperLetter, CodePoint.isLowerLetter, Bool.and_eq_true,
    Bool.and_eq_false_iff, decide_eq_true_eq, decide_eq_false_iff_not] at h ⊢
  omega

theorem isLowerLetter_of_isDigit {c : CodePoint} (h : c.isDigit = true) : c.isLowerLetter = false := by
  simp only [CodePoint.isDigit, CodePoint.isLowerLetter, Bool.and_eq_true,
    Bool.and_eq_false_iff, decide_eq_true_eq, decide_eq_false_iff_not] at h ⊢
  omega

theorem isDigit_of_isUpperLetter {c : CodePoint} (h : c.isUpperLetter = true) : c.isDigit = false := by
  simp only [CodePoint.isUpperLetter, CodePoint.isDigit, Bool.and_eq_true,
    Bool.and_eq_false_iff, decide_eq_true_eq, decide_eq_false_iff_not] at h ⊢
  omega

/-- What is no capital letter is one of the others. -/
theorem isLowerLetter_or_isDigit {c : CodePoint} (hc : isWordCharacter c = true)
    (hupper : ¬c.isUpperLetter = true) : (c.isLowerLetter || c.isDigit) = true := by
  rwa [isWordCharacter, CodePoint.isLetter, Bool.eq_false_iff.2 hupper, Bool.false_or] at hc

/-- Letters, digits and underscores stand in names. -/
theorem isNameCharacter_iff {c : CodePoint} :
    isNameCharacter c = true ↔ isWordCharacter c = true ∨ c = underscore := by
  rw [isNameCharacter, ← isWordCharacter, Bool.or_eq_true, decide_eq_true_eq]

theorem isNameCharacter_of_isWordCharacter {c : CodePoint} (h : isWordCharacter c = true) :
    isNameCharacter c = true :=
  isNameCharacter_iff.2 (.inl h)

/-- An underscore is no word character. -/
theorem ne_underscore {c : CodePoint} (h : isWordCharacter c = true) : c ≠ underscore := by
  rintro rfl
  cases h

/-! ## Letter case in ASCII -/

set_option maxRecDepth 100000 in
theorem title_ofNat : ∀ n : Fin 0x80, title (CodePoint.ofNat n) =
    [CodePoint.ofNat (if (CodePoint.ofNat n).isLowerLetter then n - 0x20 else n)] := by
  decide +kernel

set_option maxRecDepth 100000 in
theorem lower_ofNat : ∀ n : Fin 0x80, lower (CodePoint.ofNat n) =
    [CodePoint.ofNat (if (CodePoint.ofNat n).isUpperLetter then n + 0x20 else n)] := by
  decide +kernel

set_option maxRecDepth 100000 in
theorem flatMap_lower_ofNat : ∀ n : Fin 0x80,
    (title (CodePoint.ofNat n)).flatMap lower = lower (CodePoint.ofNat n) ∧
      (lower (CodePoint.ofNat n)).flatMap lower = lower (CodePoint.ofNat n) := by
  decide +kernel

theorem isUpper_ofNat : ∀ n : Fin 0x80,
    (CodePoint.ofNat n).isUpper = (CodePoint.ofNat n).isUpperLetter := by
  decide +kernel

theorem title_of_ascii {c : CodePoint} (hc : c.toNat < 0x80) :
    title c = [if c.isLowerLetter then CodePoint.ofNat (c.toNat - 0x20) else c] := by
  have h := title_ofNat ⟨c.toNat, hc⟩
  rw [CodePoint.ofNat_toNat] at h
  rw [h]
  split <;> simp [CodePoint.ofNat_toNat]

theorem lower_of_ascii {c : CodePoint} (hc : c.toNat < 0x80) :
    lower c = [if c.isUpperLetter then CodePoint.ofNat (c.toNat + 0x20) else c] := by
  have h := lower_ofNat ⟨c.toNat, hc⟩
  rw [CodePoint.ofNat_toNat] at h
  rw [h]
  split <;> simp [CodePoint.ofNat_toNat]

theorem isUpper_of_ascii {c : CodePoint} (hc : c.toNat < 0x80) : c.isUpper = c.isUpperLetter := by
  have h := isUpper_ofNat ⟨c.toNat, hc⟩
  rwa [CodePoint.ofNat_toNat] at h

theorem title_of_isWordCharacter {c : CodePoint} (hc : isWordCharacter c = true) :
    ∃ d, title c = [d] ∧ isWordCharacter d = true ∧ d.isLowerLetter = false := by
  refine ⟨_, title_of_ascii (toNat_lt_of_isWordCharacter hc), ?_⟩
  cases hl : c.isLowerLetter with
  | false => exact ⟨hc, hl⟩
  | true =>
    simp only [CodePoint.isLowerLetter, Bool.and_eq_true, decide_eq_true_eq] at hl
    have hn : c.toNat - 0x20 < 0x110000 := by omega
    simp only [isWordCharacter, CodePoint.isLetter, CodePoint.isUpperLetter, CodePoint.isLowerLetter,
      CodePoint.isDigit, if_true, CodePoint.toNat_ofNat hn, Bool.or_eq_true, Bool.and_eq_true,
      Bool.and_eq_false_iff, decide_eq_true_eq, decide_eq_false_iff_not]
    omega

theorem lower_of_isWordCharacter {c : CodePoint} (hc : isWordCharacter c = true) :
    ∃ d, lower c = [d] ∧ isWordCharacter d = true := by
  refine ⟨_, lower_of_ascii (toNat_lt_of_isWordCharacter hc), ?_⟩
  cases hu : c.isUpperLetter with
  | false => exact hc
  | true =>
    simp only [CodePoint.isUpperLetter, Bool.and_eq_true, decide_eq_true_eq] at hu
    have hn : c.toNat + 0x20 < 0x110000 := by omega
    simp only [isWordCharacter, CodePoint.isLetter, CodePoint.isUpperLetter, CodePoint.isLowerLetter,
      CodePoint.isDigit, if_true, CodePoint.toNat_ofNat hn, Bool.or_eq_true, Bool.and_eq_true,
      decide_eq_true_eq]
    omega

/-- Lower case forgets the letter case before it. -/
theorem flatMap_lower_of_isWordCharacter {c : CodePoint} (hc : isWordCharacter c = true) :
    (title c).flatMap lower = lower c ∧ (lower c).flatMap lower = lower c := by
  have h := flatMap_lower_ofNat ⟨c.toNat, toNat_lt_of_isWordCharacter hc⟩
  rwa [CodePoint.ofNat_toNat] at h

/-- No sigma is among word characters, so what stands around them has no say. -/
theorem lowerAfter_of_isWordCharacter {t : Text} (ht : ∀ c ∈ t, isWordCharacter c = true)
    (before : Text) : lowerAfter before t = t.flatMap lower := by
  induction t generalizing before with
  | nil => rfl
  | cons c t ih =>
    obtain ⟨hc, ht⟩ := List.forall_mem_cons.1 ht
    have hsigma : c ≠ capitalSigma := by
      rintro rfl
      cases hc
    rw [lowerAfter, if_neg hsigma, ih ht, List.flatMap_cons]

/-! ## Capitalized words -/

section Capitalize

variable {w : Text} (hw : ∀ c ∈ w, isWordCharacter c = true)

include hw

theorem flatMap_lower_capitalize : (capitalize w).flatMap lower = w.flatMap lower := by
  cases w with
  | nil => rfl
  | cons c w =>
    obtain ⟨hc, hw⟩ := List.forall_mem_cons.1 hw
    have hrest : ∀ d ∈ w, (lower d).flatMap lower = lower d := fun d hd =>
      (flatMap_lower_of_isWordCharacter (hw d hd)).2
    rw [capitalize, lowerAfter_of_isWordCharacter hw, List.flatMap_append,
      (flatMap_lower_of_isWordCharacter hc).1, List.flatMap_assoc, List.flatMap_cons,
      List.flatMap_congr hrest]

theorem capitalize_eq_nil_iff : capitalize w = [] ↔ w = [] := by
  cases w with
  | nil => simp [capitalize]
  | cons c w =>
    obtain ⟨d, hd, -⟩ := title_of_isWordCharacter (hw c List.mem_cons_self)
    simp [capitalize, hd]

theorem isWordCharacter_of_mem_capitalize : ∀ c ∈ capitalize w, isWordCharacter c = true := by
  cases w with
  | nil => simp [capitalize]
  | cons c w =>
    obtain ⟨hc, hw⟩ := List.forall_mem_cons.1 hw
    obtain ⟨d, hd, hword, -⟩ := title_of_isWordCharacter hc
    rw [capitalize, hd, lowerAfter_of_isWordCharacter hw, List.singleton_append]
    refine List.forall_mem_cons.2 ⟨hword, fun e he => ?_⟩
    obtain ⟨a, ha, he⟩ := List.mem_flatMap.1 he
    obtain ⟨b, hb, hword⟩ := lower_of_isWordCharacter (hw a ha)
    rw [hb] at he
    exact List.mem_singleton.1 he ▸ hword

theorem head_capitalize : ∀ c ∈ (capitalize w).head?, c.isLowerLetter = false := by
  cases w with
  | nil => simp [capitalize]
  | cons c w =>
    obtain ⟨d, hd, -, hlow⟩ := title_of_isWordCharacter (hw c List.mem_cons_self)
    rw [capitalize, hd]
    simpa using hlow

end Capitalize

/-- Word characters, of which the first is no lower-case letter and no other is a capital. -/
structure Capitalized (w : Text) : Prop where
  word : ∀ c ∈ w, isWordCharacter c = true
  head : ∀ c ∈ w.head?, c.isLowerLetter = false
  tail : ∀ c ∈ w.tail, c.isUpperLetter = false

theorem Capitalized.capitalize {w : Text} (h : Capitalized w) : capitalize w = w := by
  obtain ⟨hword, hhead, htail⟩ := h
  cases w with
  | nil => rfl
  | cons c w =>
    obtain ⟨hc, hw⟩ := List.forall_mem_cons.1 hword
    have hlower : ∀ d ∈ w, lower d = [d] := by
      intro d hd
      rw [lower_of_ascii (toNat_lt_of_isWordCharacter (hw d hd)),
        if_neg (Bool.eq_false_iff.1 (htail d hd))]
    rw [Text.capitalize, title_of_ascii (toNat_lt_of_isWordCharacter hc),
      if_neg (Bool.eq_false_iff.1 (hhead c rfl)), lowerAfter_of_isWordCharacter hw,
      List.flatMap_congr hlower, List.flatMap_singleton', List.singleton_append]

/-! ## Words -/

/-- The text that follows begins a word with its first character. -/
def Begins (loose : Bool) (t : Text) : Prop := loose = true ∨ ∀ c ∈ t.head?, c.isUpperLetter = true

/-- The words of letters and digits, if what is read of the first one is `current`. -/
theorem flatten_wordsFrom {loose : Bool} {t : Text} {current : Option Text}
    (ht : ∀ c ∈ t, isWordCharacter c = true) (hstart : current = none → Begins loose t) :
    (wordsFrom loose t current).flatten = (current.map List.reverse).getD [] ++ t := by
  fun_induction wordsFrom loose t current with
  | case1 => rfl
  | case2 w => simp
  | case3 c t hc ih =>
    rw [ih (List.forall_mem_cons.1 ht).2 (by simp)]
    rfl
  | case4 c t hc w ih =>
    rw [List.flatten_cons, ih (List.forall_mem_cons.1 ht).2 (by simp)]
    rfl
  | case5 c t hc _ ih =>
    have hloose : loose = true := (hstart rfl).resolve_right fun h => hc (h c rfl)
    rw [if_pos hloose] at ih
    rw [if_pos hloose, ih (List.forall_mem_cons.1 ht).2 (by simp)]
    rfl
  | case6 c t _ _ w ih =>
    rw [ih (List.forall_mem_cons.1 ht).2 (by simp)]
    simp
  | case7 c t hc hother | case8 c t hc hother =>
    exact absurd (isLowerLetter_or_isDigit (ht c List.mem_cons_self) hc) hother

theorem Capitalized.append {w : Text} (h : Capitalized w) (hne : w ≠ []) {c : CodePoint}
    (hc : isWordCharacter c = true) (hupper : c.isUpperLetter = false) : Capitalized (w ++ [c]) where
  word := List.forall_mem_append.2 ⟨h.word, by simpa using hc⟩
  head := by
    rw [List.head?_append_of_ne_nil _ hne]
    exact h.head
  tail := by
    rw [List.tail_append_of_ne_nil hne]
    exact List.forall_mem_append.2 ⟨h.tail, by simpa using hupper⟩

theorem capitalized_singleton {c : CodePoint} (hc : isWordCharacter c = true)
    (hlow : c.isLowerLetter = false) : Capitalized [c] :=
  ⟨by simpa using hc, by simpa using hlow, by simp⟩

/-- A text that begins with no lower-case letter is made of capitalized words. -/
theorem capitalized_of_mem_wordsFrom {loose : Bool} {t : Text} {current : Option Text}
    (ht : ∀ c ∈ t, isWordCharacter c = true)
    (hcurrent : ∀ w ∈ current, w ≠ [] ∧ Capitalized w.reverse)
    (hstart : current = none → Begins loose t ∧ ∀ c ∈ t.head?, c.isLowerLetter = false) :
    ∀ w ∈ wordsFrom loose t current, Capitalized w := by
  have hone : ∀ {c : CodePoint}, isWordCharacter c = true → c.isLowerLetter = false →
      ∀ w ∈ some [c], w ≠ [] ∧ Capitalized w.reverse := by
    rintro c hc hlow _ ⟨⟩
    exact ⟨by simp, capitalized_singleton hc hlow⟩
  fun_induction wordsFrom loose t current with
  | case1 => simp
  | case2 w => simpa using (hcurrent w rfl).2
  | case3 c t hc ih =>
    obtain ⟨hword, ht⟩ := List.forall_mem_cons.1 ht
    exact ih ht (hone hword (isLowerLetter_of_isUpperLetter hc)) (by simp)
  | case4 c t hc w ih =>
    obtain ⟨hword, ht⟩ := List.forall_mem_cons.1 ht
    exact List.forall_mem_cons.2
      ⟨(hcurrent w rfl).2, ih ht (hone hword (isLowerLetter_of_isUpperLetter hc)) (by simp)⟩
  | case5 c t hc _ ih =>
    obtain ⟨hword, ht⟩ := List.forall_mem_cons.1 ht
    obtain ⟨hbegins, hlow⟩ := hstart rfl
    have hloose : loose = true := hbegins.resolve_right fun h => hc (h c rfl)
    rw [if_pos hloose] at ih ⊢
    exact ih ht (hone hword (hlow c rfl)) (by simp)
  | case6 c t hc _ w ih =>
    obtain ⟨hword, ht⟩ := List.forall_mem_cons.1 ht
    obtain ⟨hne, hw⟩ := hcurrent w rfl
    refine ih ht ?_ (by simp)
    rintro _ ⟨⟩
    rw [List.reverse_cons]
    exact ⟨by simp, hw.append (by simpa using hne) hword (Bool.eq_false_iff.2 hc)⟩
  | case7 c t hc hother | case8 c t hc hother =>
    exact absurd (isLowerLetter_or_isDigit (ht c List.mem_cons_self) hc) hother

/-- Where words are told apart by capital letters, the first character begins one. -/
theorem begins_of_isWordCharacter {t : Text} (ht : ∀ c ∈ t, isWordCharacter c = true) :
    Begins (!(t.head?.any CodePoint.isUpper)) t := by
  cases t with
  | nil => exact .inl rfl
  | cons c t =>
    rw [List.head?_cons, Option.any_some,
      isUpper_of_ascii (toNat_lt_of_isWordCharacter (ht c List.mem_cons_self))]
    cases hc : c.isUpperLetter with
    | false => exact .inl rfl
    | true => exact .inr (by simpa using hc)

theorem isWordCharacter_of_not_mem {t : Text} (ht : ∀ c ∈ t, isNameCharacter c = true)
    (hmem : underscore ∉ t) : ∀ c ∈ t, isWordCharacter c = true := fun c hc =>
  (isNameCharacter_iff.1 (ht c hc)).resolve_right (ne_of_mem_of_not_mem hc hmem)

theorem flatten_words {t : Text} (ht : ∀ c ∈ t, isNameCharacter c = true) :
    (words t).flatten = t.filter isWordCharacter := by
  rw [words]
  split
  · rw [flatten_splitOn]
    refine List.filter_congr fun c hc => ?_
    rcases isNameCharacter_iff.1 (ht c hc) with hword | rfl
    · rw [hword, decide_eq_true (ne_underscore hword)]
    · rfl
  · rename_i hmem
    have hword := isWordCharacter_of_not_mem ht fun h => hmem (List.contains_iff_mem.2 h)
    rw [flatten_wordsFrom hword fun _ => begins_of_isWordCharacter hword,
      List.filter_eq_self.2 hword]
    rfl

theorem isWordCharacter_of_mem_words {t : Text} (ht : ∀ c ∈ t, isNameCharacter c = true) :
    ∀ w ∈ words t, ∀ c ∈ w, isWordCharacter c = true := by
  intro w hw c hc
  have hmem : c ∈ (words t).flatten := List.mem_flatten.2 ⟨w, hw, hc⟩
  rw [flatten_words ht] at hmem
  exact (List.mem_filter.1 hmem).2

/-- Words of letters and digits run together. -/
theorem pascal_of_isNameCharacter {t : Text} (ht : ∀ c ∈ t, isNameCharacter c = true)
    (hhead : t.head? ≠ some underscore) : pascal t = (words t).flatMap capitalize := by
  have hdot : dot ∉ t := by
    intro h
    have := ht _ h
    revert this
    decide
  rw [pascal, splitOn_of_not_mem hdot, List.map_singleton, join_singleton, pascalPart, if_neg hhead,
    List.nil_append]

theorem pascal_eq_self {t : Text} (ht : ∀ c ∈ t, isWordCharacter c = true)
    (hlow : ∀ c ∈ t.head?, c.isLowerLetter = false) : pascal t = t := by
  have hmem : underscore ∉ t := fun h => ne_underscore (ht _ h) rfl
  have hhead : t.head? ≠ some underscore := fun h => hmem (List.mem_of_mem_head? h)
  have hcapitalized : ∀ w ∈ words t, capitalize w = w := by
    rw [words, if_neg (by simpa using hmem)]
    intro w hw
    exact (capitalized_of_mem_wordsFrom ht (by simp)
      (fun _ => ⟨begins_of_isWordCharacter ht, hlow⟩) w hw).capitalize
  have hname := fun c hc => isNameCharacter_of_isWordCharacter (ht c hc)
  rw [pascal_of_isNameCharacter hname hhead, List.flatMap_congr hcapitalized, List.flatMap_id',
    flatten_words hname, List.filter_eq_self.2 ht]

/-! ## Words run together -/

section Capitalized

variable {ws : List Text} (hws : ∀ w ∈ ws, ∀ c ∈ w, isWordCharacter c = true)

include hws

theorem isWordCharacter_of_mem_flatMap_capitalize :
    ∀ c ∈ ws.flatMap capitalize, isWordCharacter c = true := by
  intro c hc
  obtain ⟨w, hw, hc⟩ := List.mem_flatMap.1 hc
  exact isWordCharacter_of_mem_capitalize (hws w hw) c hc

theorem flatMap_capitalize_eq_nil_iff : ws.flatMap capitalize = [] ↔ ws.flatten = [] := by
  rw [List.flatMap_eq_nil_iff, List.flatten_eq_nil_iff]
  exact forall₂_congr fun w hw => capitalize_eq_nil_iff (hws w hw)

theorem head_flatMap_capitalize : ∀ c ∈ (ws.flatMap capitalize).head?, c.isLowerLetter = false := by
  induction ws with
  | nil => simp
  | cons w ws ih =>
    obtain ⟨hw, hws⟩ := List.forall_mem_cons.1 hws
    rw [List.flatMap_cons, List.head?_append]
    intro c hc
    rcases Option.or_eq_some_iff.1 hc with hc | ⟨-, hc⟩
    · exact head_capitalize hw c hc
    · exact ih hws c hc

theorem flatMap_lower_flatMap_capitalize :
    (ws.flatMap capitalize).flatMap lower = ws.flatten.flatMap lower := by
  have hword : ∀ w ∈ ws, (capitalize w).flatMap lower = w.flatMap lower := fun w hw =>
    flatMap_lower_capitalize (hws w hw)
  rw [List.flatMap_assoc, List.flatMap_congr hword, ← List.flatMap_id, List.flatMap_assoc]
  rfl

end Capitalized

end JsonShape.Text
