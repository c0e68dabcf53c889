import Mathlib.Data.List.DropRight
import JsonShape.Proofs.TypeScript.Words
/-!
# JsonShape.Proofs.TypeScript.TypeName

Which names types get, and what they keep of the texts that they are made from.

* `Text.Sanitized`: the names that types get.
* `Text.typeName_eq_self_iff`: just the sanitized texts are their own type names.
* `Text.typeName_sanitizes`: the name for any text is sanitized, and has the letters and digits of the
  text.
-/

namespace JsonShape.Text

/-! ## Underscores -/

theorem exists_around_trimUnderscores (t : Text) : ∃ a b,
    (∀ c ∈ a, c = underscore) ∧ (∀ c ∈ b, c = underscore) ∧ t = a ++ (trimUnderscores t ++ b) := by
  refine ⟨t.takeWhile (· = underscore), (t.dropWhile (· = underscore)).rtakeWhile (· = underscore),
    fun c hc => by simpa using List.mem_takeWhile_imp hc,
    fun c hc => by simpa using List.mem_rtakeWhile_imp hc, ?_⟩
  have hright := List.rdropWhile_append_rtakeWhile (p := (· = underscore))
    (l := t.dropWhile (· = underscore))
  rw [show trimUnderscores t = (t.dropWhile (· = underscore)).rdropWhile (· = underscore) from rfl,
    hright, List.takeWhile_append_dropWhile]

theorem head_trimUnderscores (t : Text) : (trimUnderscores t).head? ≠ some underscore := by
  intro h
  obtain ⟨rest, hrest⟩ := List.head?_eq_some_iff.1 h
  obtain ⟨b, hb⟩ := List.rdropWhile_prefix (p := (· = underscore)) (l := t.dropWhile (· = underscore))
  have hnot := List.head?_dropWhile_not (· = underscore) t
  rw [← hb, show (t.dropWhile (· = underscore)).rdropWhile (· = underscore) = trimUnderscores t from rfl,
    hrest] at hnot
  simp at hnot

theorem trimUnderscores_eq_self {t : Text} (h : underscore ∉ t) : trimUnderscores t = t := by
  obtain ⟨a, b, ha, hb, ht⟩ := exists_around_trimUnderscores t
  have hnil : ∀ {x : Text}, (∀ c ∈ x, c = underscore) → (∀ c ∈ x, c ∈ t) → x = [] := by
    intro x hx hmem
    refine List.eq_nil_iff_forall_not_mem.2 fun c hc => h ?_
    exact hx c hc ▸ hmem c hc
  obtain rfl : a = [] := hnil ha fun c hc => ht ▸ List.mem_append_left _ hc
  obtain rfl : b = [] := hnil hb fun c hc => ht ▸ List.mem_append_right _ (List.mem_append_right _ hc)
  rwa [List.nil_append, List.append_nil, eq_comm] at ht

theorem trimUnderscores_cons (t : Text) : trimUnderscores (underscore :: t) = trimUnderscores t := rfl

/-- A text with underscores in place of what names cannot hold. -/
def masked (t : Text) : Text := t.map fun c => if isNameCharacter c then c else underscore

theorem isNameCharacter_of_mem_masked {t : Text} {c : CodePoint} (hc : c ∈ masked t) :
    isNameCharacter c = true := by
  obtain ⟨d, -, rfl⟩ := List.mem_map.1 hc
  split
  · assumption
  · decide

theorem filter_masked (t : Text) : (masked t).filter isWordCharacter = t.filter isWordCharacter := by
  induction t with
  | nil => rfl
  | cons c t ih =>
    rw [masked, List.map_cons, ← masked, List.filter_cons, List.filter_cons, ih]
    split
    · rfl
    · rename_i hname
      have hword : isWordCharacter c = false :=
        Bool.eq_false_iff.2 fun h => hname (isNameCharacter_of_isWordCharacter h)
      rw [hword]
      rfl

theorem masked_eq_self {t : Text} (ht : ∀ c ∈ t, isNameCharacter c = true) : masked t = t :=
  (List.map_congr_left fun c hc => if_pos (ht c hc)).trans (List.map_id' t)

theorem filter_trimUnderscores (t : Text) :
    (trimUnderscores t).filter isWordCharacter = t.filter isWordCharacter := by
  have hnone : ∀ {a : Text}, (∀ c ∈ a, c = underscore) → a.filter isWordCharacter = [] := by
    intro a ha
    refine List.filter_eq_nil_iff.2 fun c hc => ?_
    rw [ha c hc]
    decide
  obtain ⟨a, b, ha, hb, ht⟩ := exists_around_trimUnderscores t
  have h := congrArg (List.filter isWordCharacter) ht
  rw [List.filter_append, List.filter_append, hnone ha, hnone hb, List.nil_append,
    List.append_nil] at h
  exact h.symm

/-! ## Type names -/

/-- A name, with an underscore in front if it is empty or begins with a digit. -/
def guarded : Text → Text
  | [] => [underscore]
  | c :: rest => if c.isDigit then underscore :: c :: rest else c :: rest

theorem typeName_eq (t : Text) : typeName t = guarded (pascal (trimUnderscores (masked t))) := by
  rw [typeName, ← masked]
  generalize pascal _ = name
  cases name <;> rfl

/-- The type name for a text is its letters and digits, capitalized word by word. -/
theorem exists_typeName_eq (t : Text) : ∃ ws : List Text,
    (∀ w ∈ ws, ∀ c ∈ w, isWordCharacter c = true) ∧ ws.flatten = t.filter isWordCharacter ∧
      typeName t = guarded (ws.flatMap capitalize) := by
  have hname : ∀ c ∈ trimUnderscores (masked t), isNameCharacter c = true := by
    intro c hc
    obtain ⟨a, b, -, -, hsplit⟩ := exists_around_trimUnderscores (masked t)
    refine isNameCharacter_of_mem_masked (t := t) ?_
    rw [hsplit]
    exact List.mem_append_right a (List.mem_append_left b hc)
  refine ⟨words (trimUnderscores (masked t)), isWordCharacter_of_mem_words hname, ?_, ?_⟩
  · rw [flatten_words hname, filter_trimUnderscores, filter_masked]
  · rw [typeName_eq, pascal_of_isNameCharacter hname (head_trimUnderscores _)]

/-- An underscore; or a capital letter and then letters and digits; or an underscore, a digit and then
letters and digits. -/
inductive Sanitized : Text → Prop where
  | blank : Sanitized [underscore]
  | letter {c : CodePoint} {rest : Text} : c.isUpperLetter = true →
      (∀ d ∈ rest, isWordCharacter d = true) → Sanitized (c :: rest)
  | digit {c : CodePoint} {rest : Text} : c.isDigit = true →
      (∀ d ∈ rest, isWordCharacter d = true) → Sanitized (underscore :: c :: rest)

section Guarded

variable {name : Text} (hword : ∀ c ∈ name, isWordCharacter c = true)

include hword

theorem sanitized_guarded (hlow : ∀ c ∈ name.head?, c.isLowerLetter = false) :
    Sanitized (guarded name) := by
  cases name with
  | nil => exact .blank
  | cons c rest =>
    obtain ⟨hc, hrest⟩ := List.forall_mem_cons.1 hword
    rw [guarded]
    split
    · rename_i hdigit
      exact .digit hdigit hrest
    · rename_i hdigit
      have hlow : c.isLowerLetter = false := hlow c rfl
      refine .letter ?_ hrest
      simpa [isWordCharacter, CodePoint.isLetter, hlow, hdigit] using hc

theorem filter_guarded : (guarded name).filter (· ≠ underscore) = name := by
  have hname : name.filter (· ≠ underscore) = name :=
    List.filter_eq_self.2 fun c hc => decide_eq_true (ne_underscore (hword c hc))
  cases name with
  | nil => rfl
  | cons c rest =>
    rw [guarded]
    split
    · rw [List.filter_cons_of_neg (by simp), hname]
    · exact hname

theorem guarded_eq_underscore_iff : guarded name = [underscore] ↔ name = [] := by
  refine ⟨fun h => ?_, fun h => by rw [h, guarded]⟩
  rw [← filter_guarded hword, h]
  rfl

end Guarded

theorem sanitized_typeName (t : Text) : Sanitized (typeName t) := by
  obtain ⟨ws, hws, -, htype⟩ := exists_typeName_eq t
  rw [htype]
  exact sanitized_guarded (isWordCharacter_of_mem_flatMap_capitalize hws) (head_flatMap_capitalize hws)

/-- Letters and digits are a type name already if no lower-case letter is the first of them. -/
theorem typeName_of_isWordCharacter {t : Text} (ht : ∀ c ∈ t, isWordCharacter c = true)
    (hlow : ∀ c ∈ t.head?, c.isLowerLetter = false) :
    typeName t = guarded t ∧ typeName (underscore :: t) = guarded t := by
  have hmem : underscore ∉ t := fun h => ne_underscore (ht _ h) rfl
  have hname : ∀ c ∈ t, isNameCharacter c = true := fun c hc =>
    isNameCharacter_of_isWordCharacter (ht c hc)
  have hname' : ∀ c ∈ underscore :: t, isNameCharacter c = true :=
    List.forall_mem_cons.2 ⟨by decide, hname⟩
  rw [typeName_eq, typeName_eq, masked_eq_self hname, masked_eq_self hname', trimUnderscores_cons,
    trimUnderscores_eq_self hmem, pascal_eq_self ht hlow]
  exact ⟨rfl, rfl⟩

theorem typeName_eq_self_iff {t : Text} : typeName t = t ↔ Sanitized t := by
  refine ⟨fun h => h ▸ sanitized_typeName t, fun h => ?_⟩
  cases h with
  | blank => decide
  | @letter c rest hc hrest =>
    have ht : ∀ d ∈ c :: rest, isWordCharacter d = true :=
      List.forall_mem_cons.2 ⟨isWordCharacter_of_isUpperLetter hc, hrest⟩
    have hlow := isLowerLetter_of_isUpperLetter hc
    have hdigit := Bool.eq_false_iff.1 (isDigit_of_isUpperLetter hc)
    rw [(typeName_of_isWordCharacter ht (by simpa using hlow)).1, guarded, if_neg hdigit]
  | @digit c rest hc hrest =>
    have ht : ∀ d ∈ c :: rest, isWordCharacter d = true :=
      List.forall_mem_cons.2 ⟨isWordCharacter_of_isDigit hc, hrest⟩
    have hlow := isLowerLetter_of_isDigit hc
    rw [(typeName_of_isWordCharacter ht (by simpa using hlow)).2, guarded, if_pos hc]

/-- The type name for any text is sanitized, blank just if the text has no letters and digits, and its own
type name. Underscores and letter case aside it has the letters and digits of the text in order. -/
theorem typeName_sanitizes (t : Text) :
    Sanitized (typeName t) ∧
    (typeName t = [underscore] ↔ ∀ c ∈ t, isWordCharacter c = false) ∧
    lowerAfter [] ((typeName t).filter (· ≠ underscore)) = lowerAfter [] (t.filter isWordCharacter) ∧
    typeName (typeName t) = typeName t := by
  obtain ⟨ws, hws, hflatten, htype⟩ := exists_typeName_eq t
  have hword := isWordCharacter_of_mem_flatMap_capitalize hws
  refine ⟨sanitized_typeName t, ?_, ?_, typeName_eq_self_iff.2 (sanitized_typeName t)⟩
  · rw [htype, guarded_eq_underscore_iff hword, flatMap_capitalize_eq_nil_iff hws, hflatten,
      List.filter_eq_nil_iff]
    simp only [Bool.not_eq_true]
  · have hfilter : ∀ c ∈ t.filter isWordCharacter, isWordCharacter c = true := fun c hc =>
      (List.mem_filter.1 hc).2
    rw [htype, filter_guarded hword, lowerAfter_of_isWordCharacter hword,
      lowerAfter_of_isWordCharacter hfilter, flatMap_lower_flatMap_capitalize hws, hflatten]

/-- Words that begin with a digit, and characters that names cannot hold. -/
example : typeName "é2nd-fooBAR_1x" = "_2ndFoobar1x" := by decide +kernel

end JsonShape.Text
