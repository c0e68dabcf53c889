import JsonShape.Proofs.Json.Numeral
import JsonShape.Proofs.Json.Steps
import JsonShape.Proofs.Json.StringLiteral
/-!
# JsonShape.Proofs.Json.Locality

A value that is read depends on its own characters alone.

* `Json.Delimited`: what follows does not make a numeral longer.
* `Json.Takes`: what a reader makes of some characters, whatever follows them.
* `Json.takes_of_readers`: all that is read is read so.
-/

namespace JsonShape.Json

/-! ## Space -/

theorem skipSpace_append {w : Text} (hw : ∀ c ∈ w, isSpace c = true) (t : Text) :
    skipSpace (w ++ t) = skipSpace t := List.dropWhile_append_of_pos hw

theorem skipSpace_cons {c : CodePoint} (hc : isSpace c = false) (t : Text) :
    skipSpace (c :: t) = c :: t := by
  rw [skipSpace, List.dropWhile_cons, if_neg (Bool.eq_false_iff.1 hc)]

theorem isSpace_of_skipSpace {t u : Text} {c : CodePoint} (h : skipSpace t = c :: u) :
    isSpace c = false := by
  have hstop := List.head?_dropWhile_not isSpace t
  rw [← skipSpace, h] at hstop
  exact hstop

theorem skipSpace_skipSpace (t : Text) : skipSpace (skipSpace t) = skipSpace t := by
  cases h : skipSpace t with
  | nil => rfl
  | cons c u => exact skipSpace_cons (isSpace_of_skipSpace h) u

theorem length_skipSpace_le (t : Text) : (skipSpace t).length ≤ t.length :=
  (List.dropWhile_suffix _).length_le

/-- What stands behind some space may be replaced from any place on. -/
theorem exists_space_of_skipSpace {t p y : Text} (h : skipSpace t = p ++ y) :
    ∃ w, t = w ++ (p ++ y) ∧
      ∀ y', p ≠ [] ∨ skipSpace y' = y' → skipSpace (w ++ (p ++ y')) = p ++ y' := by
  refine ⟨t.takeWhile isSpace, ?_, fun y' hy' => ?_⟩
  · rw [← h, skipSpace, List.takeWhile_append_dropWhile]
  · rw [skipSpace_append fun c hc => List.all_eq_true.1 List.all_takeWhile c hc]
    cases p with
    | nil => exact hy'.resolve_left (fun hne => hne rfl)
    | cons c p => exact skipSpace_cons (isSpace_of_skipSpace h) _

theorem exists_space_of_skipSpace_cons {t u : Text} {c : CodePoint} (h : skipSpace t = c :: u) :
    ∃ w, t = w ++ c :: u ∧ ∀ u', skipSpace (w ++ c :: u') = c :: u' := by
  obtain ⟨w, ht, hskip⟩ := exists_space_of_skipSpace (p := [c]) h
  exact ⟨w, ht, fun u' => hskip u' (.inl (List.cons_ne_nil c []))⟩

/-! ## Delimiters -/

/-- The text does not begin with a character that may stand in a numeral behind its first one. -/
def Delimited (t : Text) : Prop :=
  ∀ c ∈ t.head?, c.isDigit = false ∧ c ≠ '.' ∧ c ≠ 'e' ∧ c ≠ 'E'

theorem delimited_nil : Delimited [] := by simp [Delimited]

theorem delimited_of_skipSpace {t : Text} (h : Delimited (skipSpace t)) : Delimited t := by
  cases t with
  | nil => exact h
  | cons c t =>
    cases hc : isSpace c with
    | false => rwa [skipSpace_cons hc] at h
    | true =>
      simp only [isSpace, Bool.or_eq_true, decide_eq_true_eq] at hc
      intro d hd
      cases hd
      rcases hc with ((rfl | rfl) | rfl) | rfl <;> decide

theorem delimited_of_mem {t u : Text} {c : CodePoint} (h : skipSpace t = c :: u)
    (hc : c ∈ (",:]\x7d" : Text)) : Delimited t := by
  refine delimited_of_skipSpace ?_
  rw [h]
  intro d hd
  obtain rfl : c = d := Option.some.inj hd
  clear h hd
  revert c
  decide

theorem Delimited.not_continues {t : Text} (h : Delimited t) (n : Numeral) : ¬n.Continues t := by
  intro hcontinues
  cases hcontinues with
  | digit _ hd => exact absurd (h _ rfl).1 (by simp [hd])
  | fraction => exact (h _ rfl).2.1 rfl
  | exponent _ hc => exact hc.elim (h _ rfl).2.2.1 (h _ rfl).2.2.2

/-! ## String literals -/

/-- A literal is read the same, whatever follows it. -/
theorem readString_local {t s rest : Text} (h : readString (CodePoint.ofChar '"' :: t) = .ok (s, rest)) :
    ∃ u, t = u ++ rest ∧
      ∀ rest', readString (CodePoint.ofChar '"' :: (u ++ rest')) = .ok (s, rest') := by
  rw [readString] at h
  split at h
  · cases h
  · rename_i hscan
    cases h
    rw [StringLiteral.scan] at hscan
    split at hscan
    · cases hscan
    · rename_i hfrom
      cases hscan
      obtain ⟨u, -, ht, hlocal⟩ := StringLiteral.scanFrom_local hfrom
      refine ⟨u, ht, fun rest' => ?_⟩
      rw [readString, StringLiteral.scan, List.tail_cons, hlocal _ rest' _ .plain]

/-! ## Words and numerals -/

/-- No word begins with another one. -/
theorem find?_words_append {w : Text × Value} (hw : w ∈ words) (rest : Text) :
    words.find? (fun x => x.1.isPrefixOf (w.1 ++ rest)) = some w := by
  simp only [words, List.mem_cons, List.not_mem_nil, or_false] at hw
  rcases hw with rfl | rfl | rfl | rfl | rfl | rfl <;> rfl

theorem exists_letters_of_mem_words {w : Text × Value} (hw : w ∈ words) :
    ∃ c d rest, w.1 = c :: d :: rest ∧ c.isDigit = false ∧ d.isDigit = false := by
  simp only [words, List.mem_cons, List.not_mem_nil, or_false] at hw
  rcases hw with rfl | rfl | rfl | rfl | rfl | rfl <;> exact ⟨_, _, _, rfl, rfl, rfl⟩

/-- No word begins as a numeral does. -/
theorem find?_words_of_spells {n : Numeral} {u : Text} (h : n.Spells u) (rest : Text) :
    words.find? (fun x => x.1.isPrefixOf (u ++ rest)) = none := by
  obtain ⟨hwhole, -, x, -, rfl⟩ := h
  obtain ⟨digit, ds, hds, hdigit⟩ := hwhole.exists_digit
  rw [List.find?_eq_none]
  intro w hw hprefix
  obtain ⟨c, d, letters, hletters, hc, hd⟩ := exists_letters_of_mem_words hw
  obtain ⟨more, hmore⟩ := List.isPrefixOf_iff_prefix.1 hprefix
  rw [hletters, hds] at hmore
  cases hnegative : n.negative with
  | false =>
    rw [hnegative] at hmore
    obtain rfl : c = digit := (List.cons.inj hmore).1
    rw [hc] at hdigit
    cases hdigit
  | true =>
    rw [hnegative] at hmore
    obtain rfl : d = digit := (List.cons.inj (List.cons.inj hmore).2).1
    rw [hd] at hdigit
    cases hdigit

theorem readAtom_of_value {t rest : Text} {n : Numeral} {v : Value}
    (h : Numeral.scan t = some (n, rest)) (hvalue : n.value = .ok v) : readAtom t = .ok (v, rest) := by
  obtain ⟨u, rfl, hu, -⟩ := Numeral.scan_eq_some_iff.1 h
  simp only [readAtom, find?_words_of_spells hu, h, hvalue]

theorem readAtom_of_long {t rest : Text} {n : Numeral} {count : Nat}
    (h : Numeral.scan t = some (n, rest)) (hn : n.IsLong count) :
    readAtom t = .error (.tooManyDigits count) := by
  obtain ⟨u, rfl, hu, -⟩ := Numeral.scan_eq_some_iff.1 h
  simp only [readAtom, find?_words_of_spells hu, h, Numeral.value_eq_error_iff.2 hn]

theorem readAtom_eq_ok_iff {t rest : Text} {v : Value} :
    readAtom t = .ok (v, rest) ↔ (∃ w, (w, v) ∈ words ∧ t = w ++ rest) ∨
      ∃ n, Numeral.scan t = some (n, rest) ∧ n.value = .ok v := by
  constructor
  · intro h
    rw [readAtom] at h
    split at h
    · rename_i w v hw
      cases h
      have hprefix := List.find?_some hw
      obtain ⟨more, rfl⟩ := List.isPrefixOf_iff_prefix.1 hprefix
      exact .inl ⟨w, List.mem_of_find?_eq_some hw, by rw [List.drop_left]⟩
    · split at h
      · cases h
      · rename_i n more hscan
        split at h
        · cases h
        · cases h
          exact .inr ⟨n, hscan, ‹_›⟩
  · rintro (⟨w, hw, rfl⟩ | ⟨n, hscan, hvalue⟩)
    · rw [readAtom, find?_words_append hw]
      dsimp only
      rw [List.drop_left]
    · exact readAtom_of_value hscan hvalue

theorem readAtom_local {t rest : Text} {v : Value} (h : readAtom t = .ok (v, rest)) :
    ∃ c u, t = c :: (u ++ rest) ∧
      ∀ rest', Delimited rest' → readAtom (c :: (u ++ rest')) = .ok (v, rest') := by
  rcases readAtom_eq_ok_iff.1 h with ⟨w, hw, rfl⟩ | ⟨n, hscan, hvalue⟩
  · obtain ⟨c, d, letters, rfl, -⟩ := exists_letters_of_mem_words hw
    exact ⟨c, d :: letters, rfl, fun rest' _ => readAtom_eq_ok_iff.2 (.inl ⟨_, hw, rfl⟩)⟩
  · obtain ⟨u, rfl, hu, -⟩ := Numeral.scan_eq_some_iff.1 hscan
    obtain ⟨c, u, rfl, -⟩ := hu.exists_cons
    refine ⟨c, u, rfl, fun rest' hrest' => readAtom_eq_ok_iff.2 (.inr ⟨n, ?_, hvalue⟩)⟩
    exact Numeral.scan_eq_some_iff.2 ⟨_, rfl, hu, hrest'.not_continues n⟩

/-! ## Names -/

/-- A name and a colon are read the same, whatever stands behind the space after the colon. -/
theorem ReadsName.local {t k p y : Text} (h : ReadsName t k (p ++ y)) :
    ∃ x, t = x ++ (p ++ y) ∧ 2 ≤ x.length ∧
      ∀ y', p ≠ [] ∨ skipSpace y' = y' → ReadsName (x ++ (p ++ y')) k (p ++ y') := by
  generalize hu : p ++ y = u at h
  cases h with
  | intro hstring hcolon =>
    obtain ⟨z, rfl, hskip'⟩ := exists_space_of_skipSpace hu.symm
    obtain ⟨w, rfl, hskip⟩ := exists_space_of_skipSpace_cons hcolon
    obtain ⟨x, rfl, hlocal⟩ := readString_local hstring
    refine ⟨CodePoint.ofChar '"' :: (x ++ (w ++ CodePoint.ofChar ':' :: z)), by simp [← hu],
      by simp; omega,
      fun y' hy' => ?_⟩
    have := ReadsName.intro (hlocal _) (hskip (z ++ (p ++ y')))
    rw [hskip' y' hy'] at this
    simpa using this

theorem ReadsName.space {t k u : Text} (h : ReadsName t k u) : skipSpace u = u := by
  cases h
  exact skipSpace_skipSpace _

theorem ReadsName.length_le {t k u : Text} (h : ReadsName t k u) : u.length + 2 ≤ t.length := by
  obtain ⟨x, rfl, hx, -⟩ := h.local (p := [])
  rw [List.length_append, List.nil_append]
  omega

/-! ## Values -/

/-- The reader makes `a` of the characters `u`, whatever follows them, as soon as it has calls enough
for them. -/
def Takes {α : Type} (read : Nat → Text → Except Stop (α × Text)) (calls : Nat) (u : Text) (a : α) :
    Prop :=
  ∀ n rest, Delimited rest → 2 * u.length + calls ≤ n → read n (u ++ rest) = .ok (a, rest)

theorem Takes.of_succ {α : Type} {read : Nat → Text → Except Stop (α × Text)} {calls : Nat}
    {u : Text} {a : α}
    (h : ∀ n rest, Delimited rest → 2 * u.length + calls ≤ n →
      read (n + 1) (u ++ rest) = .ok (a, rest)) :
    Takes read (calls + 1) u a := by
  intro n rest hrest hn
  obtain ⟨n, rfl⟩ : ∃ m, n = m + 1 := ⟨n - 1, by omega⟩
  exact h n rest hrest (by omega)

theorem Takes.items_ne_nil {u : Text} {vs : List Value} (h : Takes readItems 2 u vs) : u ≠ [] := by
  rintro rfl
  have := h 2 [] delimited_nil (Nat.le_refl 2)
  cases this

theorem Takes.fields_ne_nil {u : Text} {fs : List (Text × Value)} (h : Takes readFields 2 u fs) :
    u ≠ [] := by
  rintro rfl
  have := h 2 [] delimited_nil (Nat.le_refl 2)
  cases this

theorem Takes.value_ne_nil {u : Text} {v : Value} (h : Takes readValue 1 u v) : u ≠ [] := by
  rintro rfl
  have := h 1 [] delimited_nil (Nat.le_refl 1)
  cases this

section Readers

-- Behind a value in brackets stand space, a comma or a bracket, which continue no numeral.
variable {n : Nat}
  (hvalue : ∀ t v rest, readValue n t = .ok (v, rest) → ∃ u, t = u ++ rest ∧ Takes readValue 1 u v)
  (hitems : ∀ t vs rest, readItems n t = .ok (vs, rest) → ∃ u, t = u ++ rest ∧ Takes readItems 2 u vs)
  (hfields : ∀ t fs rest, readFields n t = .ok (fs, rest) → ∃ u, t = u ++ rest ∧ Takes readFields 2 u fs)

include hitems hfields in
theorem takes_of_readValue_succ {t rest : Text} {v : Value} (h : readValue (n + 1) t = .ok (v, rest)) :
    ∃ u, t = u ++ rest ∧ Takes readValue 1 u v := by
  cases valueStep_iff.2 h with
  | string hstring =>
    obtain ⟨u, rfl, hlocal⟩ := readString_local hstring
    refine ⟨CodePoint.ofChar '"' :: u, rfl, .of_succ fun n rest' _ _ => ?_⟩
    exact (ValueStep.string (hlocal rest')).eq
  | emptyArray hspace =>
    obtain ⟨w, rfl, hskip⟩ := exists_space_of_skipSpace_cons hspace
    refine ⟨CodePoint.ofChar '[' :: (w ++ [CodePoint.ofChar ']']), by simp,
      .of_succ fun n rest' _ _ => ?_⟩
    rw [List.cons_append, List.append_assoc]
    exact (ValueStep.emptyArray (hskip rest')).eq
  | @array c t more rest _ hspace hc hread =>
    obtain ⟨u, hu, htakes⟩ := hitems _ _ _ hread
    obtain ⟨d, u, rfl⟩ := List.exists_cons_of_ne_nil htakes.items_ne_nil
    obtain ⟨rfl, rfl⟩ := List.cons.inj hu
    obtain ⟨w, rfl, hskip⟩ := exists_space_of_skipSpace_cons hspace
    refine ⟨CodePoint.ofChar '[' :: (w ++ c :: u), by simp, .of_succ fun n rest' hrest' hn => ?_⟩
    rw [List.cons_append, List.append_assoc]
    refine (ValueStep.array (hskip (u ++ rest')) hc (htakes n rest' hrest' ?_)).eq
    simp only [List.length_cons, List.length_append] at hn ⊢
    omega
  | emptyObject hspace =>
    obtain ⟨w, rfl, hskip⟩ := exists_space_of_skipSpace_cons hspace
    refine ⟨CodePoint.ofChar '{' :: (w ++ [CodePoint.ofChar '}']), by simp,
      .of_succ fun n rest' _ _ => ?_⟩
    rw [List.cons_append, List.append_assoc]
    exact (ValueStep.emptyObject (hskip rest')).eq
  | @object c t more rest _ hspace hc hread =>
    obtain ⟨u, hu, htakes⟩ := hfields _ _ _ hread
    obtain ⟨d, u, rfl⟩ := List.exists_cons_of_ne_nil htakes.fields_ne_nil
    obtain ⟨rfl, rfl⟩ := List.cons.inj hu
    obtain ⟨w, rfl, hskip⟩ := exists_space_of_skipSpace_cons hspace
    refine ⟨CodePoint.ofChar '{' :: (w ++ c :: u), by simp, .of_succ fun n rest' hrest' hn => ?_⟩
    rw [List.cons_append, List.append_assoc]
    refine (ValueStep.object (hskip (u ++ rest')) hc (htakes n rest' hrest' ?_)).eq
    simp only [List.length_cons, List.length_append] at hn ⊢
    omega
  | atom hquote hbracket hbrace hread =>
    obtain ⟨c, u, hu, hlocal⟩ := readAtom_local hread
    obtain ⟨rfl, rfl⟩ := List.cons.inj hu
    refine ⟨_ :: u, rfl, .of_succ fun n rest' hrest' _ => ?_⟩
    exact (ValueStep.atom hquote hbracket hbrace (hlocal rest' hrest')).eq

include hvalue hitems in
theorem takes_of_readItems_succ {t rest : Text} {vs : List Value}
    (h : readItems (n + 1) t = .ok (vs, rest)) : ∃ u, t = u ++ rest ∧ Takes readItems 2 u vs := by
  cases itemsStep_iff.2 h with
  | last hread hspace =>
    obtain ⟨u, rfl, htakes⟩ := hvalue _ _ _ hread
    obtain ⟨w, rfl, hskip⟩ := exists_space_of_skipSpace_cons hspace
    refine ⟨u ++ (w ++ [CodePoint.ofChar ']']), by simp, .of_succ fun n rest' _ hn => ?_⟩
    rw [List.append_assoc, List.append_assoc]
    have hspace' := hskip rest'
    refine (ItemsStep.last (htakes n _ (delimited_of_mem hspace' (by decide)) ?_) hspace').eq
    simp only [List.length_append] at hn
    omega
  | more hread hspace hmore =>
    obtain ⟨u, rfl, htakes⟩ := hvalue _ _ _ hread
    obtain ⟨x, hx, htakes'⟩ := hitems _ _ _ hmore
    obtain ⟨y, rfl, hskip'⟩ := exists_space_of_skipSpace hx
    obtain ⟨w, rfl, hskip⟩ := exists_space_of_skipSpace_cons hspace
    refine ⟨u ++ (w ++ CodePoint.ofChar ',' :: (y ++ x)), by simp,
      .of_succ fun n rest' hrest' hn => ?_⟩
    simp only [List.length_append, List.length_cons] at hn
    have hspace' := hskip (y ++ (x ++ rest'))
    have hnext := hskip' rest' (.inl htakes'.items_ne_nil)
    have hvalue' := htakes n _ (delimited_of_mem hspace' (by decide)) (by omega)
    have hitems' := htakes' n rest' hrest' (by omega)
    rw [← hnext] at hitems'
    simpa using (ItemsStep.more hvalue' hspace' hitems').eq

include hvalue hfields in
theorem takes_of_readFields_succ {t rest : Text} {fs : List (Text × Value)}
    (h : readFields (n + 1) t = .ok (fs, rest)) : ∃ u, t = u ++ rest ∧ Takes readFields 2 u fs := by
  cases fieldsStep_iff.2 h with
  | last hname hread hspace =>
    obtain ⟨u, rfl, htakes⟩ := hvalue _ _ _ hread
    obtain ⟨w, rfl, hskip⟩ := exists_space_of_skipSpace_cons hspace
    obtain ⟨x, rfl, -, hlocal⟩ := hname.local
    refine ⟨x ++ (u ++ (w ++ [CodePoint.ofChar '}'])), by simp, .of_succ fun n rest' _ hn => ?_⟩
    simp only [List.length_append] at hn
    have hspace' := hskip rest'
    have hvalue' := htakes n _ (delimited_of_mem hspace' (by decide)) (by omega)
    have hname' := hlocal (w ++ CodePoint.ofChar '}' :: rest') (.inl htakes.value_ne_nil)
    simpa using (FieldsStep.last hname' hvalue' hspace').eq
  | more hname hread hspace hmore =>
    obtain ⟨u, rfl, htakes⟩ := hvalue _ _ _ hread
    obtain ⟨z, hz, htakes'⟩ := hfields _ _ _ hmore
    obtain ⟨y, rfl, hskip'⟩ := exists_space_of_skipSpace hz
    obtain ⟨w, rfl, hskip⟩ := exists_space_of_skipSpace_cons hspace
    obtain ⟨x, rfl, -, hlocal⟩ := hname.local
    refine ⟨x ++ (u ++ (w ++ CodePoint.ofChar ',' :: (y ++ z))), by simp,
      .of_succ fun n rest' hrest' hn => ?_⟩
    simp only [List.length_append, List.length_cons] at hn
    have hspace' := hskip (y ++ (z ++ rest'))
    have hnext := hskip' rest' (.inl htakes'.fields_ne_nil)
    have hvalue' := htakes n _ (delimited_of_mem hspace' (by decide)) (by omega)
    have hname' := hlocal (w ++ CodePoint.ofChar ',' :: (y ++ (z ++ rest'))) (.inl htakes.value_ne_nil)
    have hfields' := htakes' n rest' hrest' (by omega)
    rw [← hnext] at hfields'
    simpa using (FieldsStep.more hname' hvalue' hspace' hfields').eq

end Readers

/-- All three readers at once, by the number of calls that are left to them. -/
theorem takes_of_readers (n : Nat) :
    (∀ t v rest, readValue n t = .ok (v, rest) → ∃ u, t = u ++ rest ∧ Takes readValue 1 u v) ∧
      (∀ t vs rest, readItems n t = .ok (vs, rest) → ∃ u, t = u ++ rest ∧ Takes readItems 2 u vs) ∧
        ∀ t fs rest, readFields n t = .ok (fs, rest) → ∃ u, t = u ++ rest ∧ Takes readFields 2 u fs := by
  induction n with
  | zero =>
    refine ⟨?_, ?_, ?_⟩ <;> intro t _ rest hread
    · rw [readValue] at hread; cases hread
    · rw [readItems] at hread; cases hread
    · rw [readFields] at hread; cases hread
  | succ n ih =>
    obtain ⟨hvalue, hitems, hfields⟩ := ih
    exact ⟨fun _ _ _ => takes_of_readValue_succ hitems hfields,
      fun _ _ _ => takes_of_readItems_succ hvalue hitems,
      fun _ _ _ => takes_of_readFields_succ hvalue hfields⟩

end JsonShape.Json
