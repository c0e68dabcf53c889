import JsonShape.Proofs.Json.Locality
/-!
# JsonShape.Proofs.Json.LongNumbers

Where a read ends for a number with too many digits.

* `Json.StopsAt`: why a read ends where a value should begin.
* `Json.Leads`: characters behind which a reader fails as it fails on what stands there.
* `Json.leads_of_readers`: a read that ends where a value should begin has read such characters.
* `Json.LongNumber`: a text with too long a number, where the text in front of it lacks just a value.
* `Json.read_eq_tooManyDigits_iff`: no other text ends a read like that.
-/

namespace JsonShape.Json

/-! ## Reasons -/

/-- The read ended where a value should begin. -/
inductive Stop.AtValue : Stop → Prop where
  | missing {rest : Text} : AtValue (.fault .expectedValue rest)
  | long {count : Nat} : AtValue (.tooManyDigits count)

/-- The text that the read ended at: no value begins it, or a number with too many digits. -/
inductive StopsAt (y : Text) : Stop → Prop where
  | missing : StopsAt y (.fault .expectedValue y)
  | long {n : Numeral} {rest : Text} {count : Nat} : Numeral.scan y = some (n, rest) → n.IsLong count →
      StopsAt y (.tooManyDigits count)

theorem stopsAt_of_readAtom {t : Text} {e : Stop} (h : readAtom t = .error e) : StopsAt t e := by
  rw [readAtom] at h
  split at h
  · cases h
  · split at h
    · cases h
      exact .missing
    · rename_i n rest hscan
      split at h
      · rename_i count hvalue
        cases h
        exact .long hscan (Numeral.value_eq_error_iff.1 hvalue)
      · cases h

theorem not_atValue_of_readString {t : Text} {e : Stop} (h : readString t = .error e) : ¬e.AtValue := by
  rw [readString] at h
  split at h <;> cases h
  intro he
  cases he

/-- A text that no reader of values gets into. -/
structure Fails (y : Text) (e : Stop) : Prop where
  space : skipSpace y = y
  bracket : y.head? ≠ some (CodePoint.ofChar ']')
  fails : ∀ n, readValue (n + 1) y = .error e

theorem fails_nil : Fails [] (.fault .expectedValue []) where
  space := rfl
  bracket := by simp
  fails _ := rfl

theorem fails_of_long {t rest : Text} {n : Numeral} {count : Nat}
    (hscan : Numeral.scan t = some (n, rest)) (hn : n.IsLong count) :
    Fails t (.tooManyDigits count) := by
  have hatom := readAtom_of_long hscan hn
  obtain ⟨u, rfl, hu, -⟩ := Numeral.scan_eq_some_iff.1 hscan
  obtain ⟨c, u, rfl, hc⟩ := hu.exists_cons
  have hne : ∀ d : CodePoint, d.isDigit = false → d ≠ '-' → c ≠ d := by
    rintro d hd hminus rfl
    rcases hc with hc | hc
    · rw [hd] at hc
      cases hc
    · exact hminus hc
  refine ⟨skipSpace_cons ?_ _, ?_, fun m => ?_⟩
  · simp only [isSpace, Bool.or_eq_false_iff, decide_eq_false_iff_not]
    exact ⟨⟨⟨hne _ rfl (by decide), hne _ rfl (by decide)⟩, hne _ rfl (by decide)⟩, hne _ rfl (by decide)⟩
  · rw [List.cons_append, List.head?_cons]
    exact fun heq => hne _ rfl (by decide) (Option.some.inj heq)
  · exact (ValueStep.atom (hne _ rfl (by decide)) (hne _ rfl (by decide)) (hne _ rfl (by decide)) hatom).eq

/-! ## What stands in front -/

/-- Behind the characters `p` the reader comes to a value, and fails as the reading of that value does. -/
def Leads {α : Type} (read : Nat → Text → Except Stop (α × Text)) (calls : Nat) (p : Text) : Prop :=
  ∀ n y e, Fails y e → 2 * p.length + calls ≤ n → read n (p ++ y) = .error e

theorem Leads.of_succ {α : Type} {read : Nat → Text → Except Stop (α × Text)} {calls : Nat} {p : Text}
    (h : ∀ n y e, Fails y e → 2 * p.length + calls ≤ n → read (n + 1) (p ++ y) = .error e) :
    Leads read (calls + 1) p := by
  intro n y e hy hn
  obtain ⟨n, rfl⟩ : ∃ m, n = m + 1 := ⟨n - 1, by omega⟩
  exact h n y e hy (by omega)

theorem leads_nil : Leads readValue 1 [] := .of_succ fun n _ _ hy _ => hy.fails n

theorem leads_item {p : Text} (h : Leads readValue 1 p) : Leads readItems 2 p :=
  .of_succ fun n y e hy hn => (ItemsStep.itemFault (h n y e hy hn)).eq

theorem leads_array {w p : Text} (hp : p.head? ≠ some (CodePoint.ofChar ']'))
    (hskip : ∀ y, p ≠ [] ∨ skipSpace y = y → skipSpace (w ++ (p ++ y)) = p ++ y)
    (h : Leads readItems 2 p) : Leads readValue 1 (CodePoint.ofChar '[' :: (w ++ p)) := by
  refine .of_succ fun n y e hy hn => ?_
  simp only [List.length_cons, List.length_append] at hn
  have hspace := hskip y (.inr hy.space)
  have hitems := h n y e hy (by omega)
  rw [List.cons_append, List.append_assoc]
  cases p with
  | nil =>
    cases y with
    | nil =>
      have := hy.fails 0
      cases this
      exact (ValueStep.openArray hspace).eq
    | cons c y => exact (ValueStep.arrayFault hspace (by simpa using hy.bracket) hitems).eq
  | cons c p => exact (ValueStep.arrayFault hspace (by simpa using hp) hitems).eq

theorem Leads.fields_ne_nil {p : Text} (h : Leads readFields 2 p) : p ≠ [] := by
  rintro rfl
  have := h 2 [] _ fails_nil (Nat.le_refl 2)
  cases this

section Readers

-- With calls enough for the text no read ends for want of calls, which would look like a missing value.
variable {n : Nat}
  (hvalue : ∀ t e, readValue n t = .error e → e.AtValue → skipSpace t = t → 2 * t.length + 1 ≤ n →
    ∃ p y, t = p ++ y ∧ StopsAt y e ∧ Leads readValue 1 p)
  (hitems : ∀ t e, readItems n t = .error e → e.AtValue → skipSpace t = t → 2 * t.length + 2 ≤ n →
    ∃ p y, t = p ++ y ∧ StopsAt y e ∧ Leads readItems 2 p)
  (hfields : ∀ t e, readFields n t = .error e → e.AtValue → 2 * t.length + 2 ≤ n →
    ∃ p y, t = p ++ y ∧ StopsAt y e ∧ Leads readFields 2 p)

include hitems hfields in
theorem leads_of_readValue_succ {t : Text} {e : Stop} (h : readValue (n + 1) t = .error e)
    (he : e.AtValue) (hn : 2 * t.length + 1 ≤ n + 1) :
    ∃ p y, t = p ++ y ∧ StopsAt y e ∧ Leads readValue 1 p := by
  cases valueStep_iff.2 h with
  | missing => exact ⟨[], [], rfl, .missing, leads_nil⟩
  | stringFault hstring => exact absurd he (not_atValue_of_readString hstring)
  | openArray hspace =>
    obtain ⟨w, rfl, hskip⟩ := exists_space_of_skipSpace (p := []) (y := []) hspace
    exact ⟨_, [], by simp, .missing, leads_array (by simp) hskip (leads_item leads_nil)⟩
  | @arrayFault c t u e hspace hc hread =>
    have hlength := length_skipSpace_le t
    rw [hspace] at hlength
    rw [List.length_cons] at hn
    obtain ⟨p, y, hu, hy, hleads⟩ := hitems _ _ hread he
      (skipSpace_cons (isSpace_of_skipSpace hspace) u) (by omega)
    rw [hu] at hspace
    obtain ⟨w, rfl, hskip⟩ := exists_space_of_skipSpace hspace
    have hp : p.head? ≠ some (CodePoint.ofChar ']') := by
      cases p with
      | nil => simp
      | cons d p =>
        obtain rfl : c = d := (List.cons.inj hu).1
        simpa using hc
    exact ⟨_, y, by simp, hy, leads_array hp hskip hleads⟩
  | openObject => cases he
  | @objectFault c t u e hspace hc hread =>
    have hlength := length_skipSpace_le t
    rw [hspace] at hlength
    rw [List.length_cons] at hn
    obtain ⟨p, y, hu, hy, hleads⟩ := hfields _ _ hread he (by omega)
    obtain ⟨d, p, rfl⟩ := List.exists_cons_of_ne_nil hleads.fields_ne_nil
    obtain ⟨rfl, rfl⟩ := List.cons.inj hu
    obtain ⟨w, rfl, hskip⟩ := exists_space_of_skipSpace_cons hspace
    refine ⟨CodePoint.ofChar '{' :: (w ++ c :: p), y, by simp, hy, .of_succ fun m y' e' hy' hm => ?_⟩
    simp only [List.length_cons, List.length_append] at hm
    have hread' := hleads m y' e' hy' (by simp only [List.length_cons]; omega)
    rw [List.cons_append, List.append_assoc]
    exact (ValueStep.objectFault (hskip (p ++ y')) hc hread').eq
  | atom _ _ _ hread => exact ⟨[], _, rfl, stopsAt_of_readAtom hread, leads_nil⟩

include hvalue hitems in
theorem leads_of_readItems_succ {t : Text} {e : Stop} (h : readItems (n + 1) t = .error e)
    (he : e.AtValue) (ht : skipSpace t = t) (hn : 2 * t.length + 2 ≤ n + 1) :
    ∃ p y, t = p ++ y ∧ StopsAt y e ∧ Leads readItems 2 p := by
  cases itemsStep_iff.2 h with
  | itemFault hread =>
    obtain ⟨p, y, rfl, hy, hleads⟩ := hvalue _ _ hread he ht (by omega)
    exact ⟨p, y, rfl, hy, leads_item hleads⟩
  | @moreFault v u next e hread hspace hmore =>
    obtain ⟨u, rfl, htakes⟩ := (takes_of_readers n).1 _ _ _ hread
    obtain ⟨w, rfl, hskip⟩ := exists_space_of_skipSpace_cons hspace
    have hlength := length_skipSpace_le next
    simp only [List.length_cons, List.length_append] at hn
    obtain ⟨p, y, hp, hy, hleads⟩ := hitems _ _ hmore he (skipSpace_skipSpace next) (by omega)
    obtain ⟨z, rfl, hskip'⟩ := exists_space_of_skipSpace hp
    refine ⟨u ++ (w ++ CodePoint.ofChar ',' :: (z ++ p)), y, by simp, hy,
      .of_succ fun m y' e' hy' hm => ?_⟩
    simp only [List.length_cons, List.length_append] at hm
    have hspace' := hskip (z ++ (p ++ y'))
    have hvalue' := htakes m _ (delimited_of_mem hspace' (by decide)) (by omega)
    have hitems' := hleads m y' e' hy' (by omega)
    rw [← hskip' y' (.inr hy'.space)] at hitems'
    simpa using (ItemsStep.moreFault hvalue' hspace' hitems').eq
  | noComma => cases he

include hvalue hfields in
theorem leads_of_readFields_succ {t : Text} {e : Stop} (h : readFields (n + 1) t = .error e)
    (he : e.AtValue) (hn : 2 * t.length + 2 ≤ n + 1) :
    ∃ p y, t = p ++ y ∧ StopsAt y e ∧ Leads readFields 2 p := by
  cases fieldsStep_iff.2 h with
  | noName => cases he
  | nameFault _ hname => exact absurd he (not_atValue_of_readString hname)
  | noColon => cases he
  | valueFault hname hread =>
    have hlength := hname.length_le
    obtain ⟨p, y, rfl, hy, hleads⟩ := hvalue _ _ hread he hname.space (by omega)
    obtain ⟨x, rfl, hx, hlocal⟩ := hname.local
    refine ⟨x ++ p, y, by simp, hy, .of_succ fun m y' e' hy' hm => ?_⟩
    rw [List.length_append] at hm
    rw [List.append_assoc]
    exact (FieldsStep.valueFault (hlocal y' (.inr hy'.space)) (hleads m y' e' hy' (by omega))).eq
  | @moreFault k u w next v e hname hread hspace hmore =>
    obtain ⟨u, rfl, htakes⟩ := (takes_of_readers n).1 _ _ _ hread
    obtain ⟨w, rfl, hskip⟩ := exists_space_of_skipSpace_cons hspace
    obtain ⟨x, rfl, hx, hlocal⟩ := hname.local
    have hlength := length_skipSpace_le next
    simp only [List.length_cons, List.length_append] at hn
    obtain ⟨p, y, hp, hy, hleads⟩ := hfields _ _ hmore he (by omega)
    obtain ⟨z, rfl, hskip'⟩ := exists_space_of_skipSpace hp
    refine ⟨x ++ (u ++ (w ++ CodePoint.ofChar ',' :: (z ++ p))), y, by simp, hy,
      .of_succ fun m y' e' hy' hm => ?_⟩
    simp only [List.length_cons, List.length_append] at hm
    have hspace' := hskip (z ++ (p ++ y'))
    have hname' := hlocal (w ++ CodePoint.ofChar ',' :: (z ++ (p ++ y'))) (.inl htakes.value_ne_nil)
    have hvalue' := htakes m _ (delimited_of_mem hspace' (by decide)) (by omega)
    have hfields' := hleads m y' e' hy' (by omega)
    rw [← hskip' y' (.inr hy'.space)] at hfields'
    simpa using (FieldsStep.moreFault hname' hvalue' hspace' hfields').eq
  | noComma => cases he

end Readers

/-- A read that ends where a value should begin can be led to another end there. -/
theorem leads_of_readers (n : Nat) :
    (∀ t e, readValue n t = .error e → e.AtValue → skipSpace t = t → 2 * t.length + 1 ≤ n →
      ∃ p y, t = p ++ y ∧ StopsAt y e ∧ Leads readValue 1 p) ∧
    (∀ t e, readItems n t = .error e → e.AtValue → skipSpace t = t → 2 * t.length + 2 ≤ n →
      ∃ p y, t = p ++ y ∧ StopsAt y e ∧ Leads readItems 2 p) ∧
    ∀ t e, readFields n t = .error e → e.AtValue → 2 * t.length + 2 ≤ n →
      ∃ p y, t = p ++ y ∧ StopsAt y e ∧ Leads readFields 2 p := by
  induction n with
  | zero => refine ⟨?_, ?_, ?_⟩ <;> intros <;> omega
  | succ n ih =>
    obtain ⟨hvalue, hitems, hfields⟩ := ih
    exact ⟨fun _ _ h he _ => leads_of_readValue_succ hitems hfields h he,
      fun _ _ => leads_of_readItems_succ hvalue hitems,
      fun _ _ => leads_of_readFields_succ hvalue hfields⟩

/-! ## Whole texts -/

/-- Where the text ceases to be read there is a whole number of `count` digits, more than are read. The
text in front of it lacks just a value at its end. -/
def LongNumber (t : Text) (count : Nat) : Prop :=
  ∃ (front num rest : Text) (n : Numeral), t = front ++ (num ++ rest) ∧
    read front = .error (.malformed ⟨.expectedValue, .ofOffset front front.length⟩) ∧
    n.Spells num ∧ n.IsLong count ∧ ¬n.Continues rest

def mark : CodePoint := CodePoint.ofNat 0xFEFF

/-- A read ends where a value should begin: the first value of the text does not come to its end. -/
theorem readWhole_eq_error_iff {t : Text} {e : Stop} (he : e.AtValue) :
    readWhole t = .error e ↔
      t.head? ≠ some mark ∧ readValue (callBound t) (skipSpace t) = .error e := by
  rw [readWhole, ← mark]
  constructor
  · intro h
    split at h
    · cases h
      cases he
    · rename_i hmark
      split at h
      · cases h
        exact ⟨hmark, ‹_›⟩
      · split at h
        · cases h
        · cases h
          cases he
  · rintro ⟨hmark, h⟩
    rw [if_neg hmark, h]

theorem leads_of_skipSpace {t : Text} {e : Stop} (he : e.AtValue)
    (h : readValue (callBound t) (skipSpace t) = .error e) :
    ∃ p y, skipSpace t = p ++ y ∧ StopsAt y e ∧ Leads readValue 1 p := by
  have hlength := length_skipSpace_le t
  refine (leads_of_readers _).1 _ _ h he (skipSpace_skipSpace t) ?_
  rw [callBound]
  omega

theorem head?_ne_mark_of_scan {t rest : Text} {n : Numeral} (h : Numeral.scan t = some (n, rest)) :
    t.head? ≠ some mark := by
  obtain ⟨u, rfl, hu, -⟩ := Numeral.scan_eq_some_iff.1 h
  obtain ⟨c, u, rfl, hc⟩ := hu.exists_cons
  rw [List.cons_append, List.head?_cons]
  intro heq
  obtain rfl := Option.some.inj heq
  exact absurd hc (by decide)

/-- Behind a text that lacks just a value a number with too many digits ends the read. -/
theorem readWhole_append_of_long {front x rest : Text} {n : Numeral} {count : Nat}
    (h : readWhole front = .error (.fault .expectedValue []))
    (hscan : Numeral.scan x = some (n, rest)) (hn : n.IsLong count) :
    readWhole (front ++ x) = .error (.tooManyDigits count) := by
  obtain ⟨hmark, hread⟩ := (readWhole_eq_error_iff .missing).1 h
  obtain ⟨p, y, hspace, hy, hleads⟩ := leads_of_skipSpace .missing hread
  cases hy
  obtain ⟨w, rfl, hskip⟩ := exists_space_of_skipSpace hspace
  have hx := fails_of_long hscan hn
  have hread' := hleads (callBound ((w ++ (p ++ [])) ++ x)) x _ hx (by simp [callBound]; omega)
  refine (readWhole_eq_error_iff .long).2 ⟨?_, ?_⟩
  · cases hfront : w ++ (p ++ []) with
    | nil => exact head?_ne_mark_of_scan hscan
    | cons c front => rwa [hfront] at hmark
  · rw [← hskip x (.inr hx.space)] at hread'
    simpa using hread'

theorem exists_of_readWhole {t : Text} {count : Nat} (h : readWhole t = .error (.tooManyDigits count)) :
    ∃ front x n rest, t = front ++ x ∧ readWhole front = .error (.fault .expectedValue []) ∧
      Numeral.scan x = some (n, rest) ∧ n.IsLong count := by
  obtain ⟨hmark, hread⟩ := (readWhole_eq_error_iff .long).1 h
  obtain ⟨p, y, hspace, hy, hleads⟩ := leads_of_skipSpace .long hread
  cases hy with
  | long hscan hn =>
    obtain ⟨w, rfl, hskip⟩ := exists_space_of_skipSpace hspace
    refine ⟨w ++ p, y, _, _, by simp, (readWhole_eq_error_iff .missing).2 ⟨?_, ?_⟩, hscan, hn⟩
    · intro hhead
      refine hmark ?_
      rw [← List.append_assoc, List.head?_append, hhead]
      rfl
    · have hspace' := hskip [] (.inr rfl)
      rw [List.append_nil] at hspace'
      rw [hspace']
      have := hleads (callBound (w ++ p)) [] _ fails_nil (by simp [callBound]; omega)
      rwa [List.append_nil] at this

theorem read_eq_missing_iff {t : Text} :
    read t = .error (.malformed ⟨.expectedValue, .ofOffset t t.length⟩) ↔
      readWhole t = .error (.fault .expectedValue []) := by
  rw [read]
  constructor
  · intro h
    split at h
    · rename_i e he
      cases e with
      | tooManyDigits count => cases h
      | fault cause rest =>
        simp only [Stop.toError, Except.error.injEq, ReadError.malformed.injEq, Fault.mk.injEq] at h
        obtain ⟨rfl, hposition⟩ := h
        have hoffset : t.length - rest.length = t.length := congrArg Position.offset hposition
        cases t with
        | nil => rfl
        | cons c t =>
          rw [List.length_cons] at hoffset
          obtain rfl : rest = [] := List.length_eq_zero_iff.1 (by omega)
          exact he
    · cases h
  · intro h
    rw [h]
    simp [Stop.toError]

theorem read_eq_tooManyDigits_iff {t : Text} {count : Nat} :
    read t = .error (.tooManyDigits count) ↔ LongNumber t count := by
  have hwhole : read t = .error (.tooManyDigits count) ↔
      readWhole t = .error (.tooManyDigits count) := by
    rw [read]
    cases readWhole t with
    | ok v => simp
    | error e => cases e <;> simp [Stop.toError]
  rw [hwhole]
  constructor
  · intro h
    obtain ⟨front, x, n, rest, rfl, hfront, hscan, hn⟩ := exists_of_readWhole h
    obtain ⟨num, rfl, hnum, hrest⟩ := Numeral.scan_eq_some_iff.1 hscan
    exact ⟨front, num, rest, n, rfl, read_eq_missing_iff.2 hfront, hnum, hn, hrest⟩
  · rintro ⟨front, num, rest, n, rfl, hfront, hnum, hn, hrest⟩
    exact readWhole_append_of_long (read_eq_missing_iff.1 hfront)
      (Numeral.scan_eq_some_iff.2 ⟨num, rfl, hnum, hrest⟩) hn

end JsonShape.Json
