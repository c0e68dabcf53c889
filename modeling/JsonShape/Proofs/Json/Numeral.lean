import JsonShape.Json.Reader
/-!
# JsonShape.Proofs.Json.Numeral

How numerals are spelled, and that the scanner takes the longest one.

* `Numeral.Spells`: the texts that spell a numeral.
* `Numeral.Continues`: what behind a numeral belongs to a longer one.
* `Numeral.scan_eq_some_iff`: the scanner takes a numeral that its rest does not continue.
* `Numeral.value_eq_error_iff`: the numerals that have no value.
-/

namespace JsonShape.Json.Numeral

/-! ## Spelling -/

def IsDigits (ds : Text) : Prop := ∀ d ∈ ds, d.isDigit = true

/-- No digit is next. -/
def EndsDigits (t : Text) : Prop := ∀ c ∈ t.head?, c.isDigit = false

/-- A zero, or digits that do not begin with one. -/
inductive IsWhole : Text → Prop where
  | zero : IsWhole [CodePoint.ofChar '0']
  | digits {d : CodePoint} {ds : Text} : d ≠ '0' → IsDigits (d :: ds) → IsWhole (d :: ds)

def signText (negative : Bool) : Text := if negative then "-" else []

/-- A point and digits behind it; without digits there is no point either. -/
def fractionText (ds : Text) : Text := if ds = [] then [] else CodePoint.ofChar '.' :: ds

inductive IsSign : Bool → Text → Prop where
  | none : IsSign false []
  | plus : IsSign false [CodePoint.ofChar '+']
  | minus : IsSign true [CodePoint.ofChar '-']

inductive IsExponent : Option Int → Text → Prop where
  | none : IsExponent none []
  | some {c : CodePoint} {negative : Bool} {sign ds : Text} : c = 'e' ∨ c = 'E' →
      IsSign negative sign → ds ≠ [] → IsDigits ds →
      IsExponent (some (if negative then -(Text.digitsValue ds : Int) else Text.digitsValue ds))
        (c :: (sign ++ ds))

/-- The text is one of those that spell the numeral. -/
structure Spells (n : Numeral) (u : Text) : Prop where
  whole : IsWhole n.whole
  fraction : IsDigits n.fraction
  exponent : ∃ x, IsExponent n.exponent x ∧
    u = signText n.negative ++ (n.whole ++ (fractionText n.fraction ++ x))

/-- The text makes the numeral in front of it longer: by a digit, a fraction or an exponent. Behind a
leading zero there is no digit. -/
inductive Continues (n : Numeral) : Text → Prop where
  | digit {d : CodePoint} {t : Text} : n.whole ≠ "0" ∨ n.fraction ≠ [] ∨ n.exponent ≠ none →
      d.isDigit = true → Continues n (d :: t)
  | fraction {d : CodePoint} {t : Text} : n.fraction = [] → n.exponent = none → d.isDigit = true →
      Continues n (CodePoint.ofChar '.' :: d :: t)
  | exponent {c d : CodePoint} {negative : Bool} {sign t : Text} : n.exponent = none →
      c = 'e' ∨ c = 'E' → IsSign negative sign → d.isDigit = true → Continues n (c :: (sign ++ d :: t))

/-! ## Digits -/

theorem digits_append {ds rest : Text} (hds : IsDigits ds) (hrest : EndsDigits rest) :
    digits (ds ++ rest) = (ds, rest) := by
  have hstop : rest.takeWhile CodePoint.isDigit = [] ∧ rest.dropWhile CodePoint.isDigit = rest := by
    cases rest with
    | nil => exact ⟨rfl, rfl⟩
    | cons c rest =>
      have hc : c.isDigit = false := hrest c rfl
      simp [hc]
  rw [digits, List.takeWhile_append_of_pos hds, List.dropWhile_append_of_pos hds, hstop.1, hstop.2,
    List.append_nil]

theorem digits_eq_iff {t ds rest : Text} :
    digits t = (ds, rest) ↔ t = ds ++ rest ∧ IsDigits ds ∧ EndsDigits rest := by
  constructor
  · intro h
    cases h
    refine ⟨List.takeWhile_append_dropWhile.symm, fun d hd => List.all_eq_true.1 List.all_takeWhile d hd,
      fun c hc => ?_⟩
    have hstop := List.head?_dropWhile_not CodePoint.isDigit t
    rw [Option.mem_def.1 hc] at hstop
    exact hstop
  · rintro ⟨rfl, hds, hrest⟩
    exact digits_append hds hrest

/-! ## Parts of a numeral -/

theorem scanWhole_eq_some_iff {t w rest : Text} :
    scanWhole t = some (w, rest) ↔ t = w ++ rest ∧ IsWhole w ∧ (w ≠ "0" → EndsDigits rest) := by
  constructor
  · intro h
    cases t with
    | nil => cases h
    | cons c t =>
      rw [scanWhole] at h
      split at h
      · rename_i hc
        cases h
        subst hc
        exact ⟨rfl, .zero, fun hne => absurd rfl hne⟩
      · rename_i hc
        split at h
        · rename_i hdigit
          obtain ⟨ht, hw, hrest⟩ := digits_eq_iff.1 (Option.some.inj h)
          cases w with
          | nil =>
            rw [List.nil_append] at ht
            exact absurd (hrest c (ht ▸ rfl)) (by simp [hdigit])
          | cons d ds =>
            obtain rfl : c = d := (List.cons.inj ht).1
            exact ⟨ht, .digits hc hw, fun _ => hrest⟩
        · cases h
  · rintro ⟨rfl, hw, hrest⟩
    cases hw with
    | zero => rfl
    | @digits d ds hd hds =>
      have hne : d :: ds ≠ ("0" : Text) := fun heq => hd (List.cons.inj heq).1
      rw [List.cons_append, scanWhole, if_neg hd, if_pos (hds d List.mem_cons_self), ← List.cons_append,
        digits_append hds (hrest hne)]

/-- A point with a digit behind it is next. -/
def BeginsFraction (t : Text) : Prop :=
  ∃ d rest, t = CodePoint.ofChar '.' :: d :: rest ∧ d.isDigit = true

theorem exists_digits {d : CodePoint} (hd : d.isDigit = true) (t : Text) :
    ∃ ds rest, d :: t = ds ++ rest ∧ ds ≠ [] ∧ IsDigits ds ∧ EndsDigits rest := by
  obtain ⟨ht, hds, hrest⟩ := digits_eq_iff.1 (rfl : digits (d :: t) = _)
  exact ⟨_, _, ht, by simp [hd], hds, hrest⟩

theorem scanFraction_of_not {t : Text} (h : ¬BeginsFraction t) : scanFraction t = ([], t) := by
  cases t with
  | nil => rfl
  | cons c t =>
    rw [scanFraction]
    split
    · rename_i hc
      split
      · rfl
      · rename_i hne
        cases t with
        | nil => exact absurd rfl (hne [])
        | cons d t =>
          cases hd : d.isDigit with
          | true => exact absurd ⟨d, t, by rw [hc], hd⟩ h
          | false => exact absurd (by simp [digits, hd]) (hne (d :: t))
    · rfl

theorem scanFraction_point {ds rest : Text} (hne : ds ≠ []) (hds : IsDigits ds)
    (hrest : EndsDigits rest) : scanFraction (CodePoint.ofChar '.' :: (ds ++ rest)) = (ds, rest) := by
  rw [scanFraction, if_pos rfl, digits_append hds hrest]
  cases ds with
  | nil => exact absurd rfl hne
  | cons d ds => rfl

theorem scanFraction_eq_iff {t ds rest : Text} :
    scanFraction t = (ds, rest) ↔ t = fractionText ds ++ rest ∧ IsDigits ds ∧
      (ds = [] → ¬BeginsFraction rest) ∧ (ds ≠ [] → EndsDigits rest) := by
  constructor
  · intro h
    by_cases hbegins : BeginsFraction t
    · obtain ⟨d, more, rfl, hd⟩ := hbegins
      obtain ⟨ds', rest', hmore, hne, hds, hrest⟩ := exists_digits hd more
      rw [hmore, scanFraction_point hne hds hrest] at h
      cases h
      refine ⟨?_, hds, fun heq => absurd heq hne, fun _ => hrest⟩
      rw [hmore, fractionText, if_neg hne, List.cons_append]
    · rw [scanFraction_of_not hbegins] at h
      cases h
      exact ⟨rfl, by simp [IsDigits], fun _ => hbegins, fun hne => absurd rfl hne⟩
  · rintro ⟨rfl, hds, hnone, hsome⟩
    by_cases hne : ds = []
    · subst hne
      exact scanFraction_of_not (hnone rfl)
    · rw [fractionText, if_neg hne]
      exact scanFraction_point hne hds (hsome hne)

/-- An exponent is next. -/
def BeginsExponent (t : Text) : Prop :=
  ∃ c negative sign d rest, t = c :: (sign ++ d :: rest) ∧
    (c = CodePoint.ofChar 'e' ∨ c = CodePoint.ofChar 'E') ∧
    IsSign negative sign ∧ d.isDigit = true

/-- Splits off the sign of an exponent. -/
def splitSign (t : Text) : Bool × Text :=
  match t with
  | [] => (false, t)
  | s :: more => if s = '-' then (true, more) else if s = '+' then (false, more) else (false, t)

theorem scanExponent_cons (c : CodePoint) (t : Text) :
    scanExponent (c :: t) =
      if c = 'e' || c = 'E' then
        match digits (splitSign t).2 with
        | ([], _) => (none, c :: t)
        | (ds, rest) =>
          (some (if (splitSign t).1 then -(Text.digitsValue ds : Int) else Text.digitsValue ds), rest)
      else (none, c :: t) := rfl

theorem exists_splitSign (t : Text) :
    ∃ sign, IsSign (splitSign t).1 sign ∧ t = sign ++ (splitSign t).2 := by
  cases t with
  | nil => exact ⟨[], .none, rfl⟩
  | cons s t =>
    rw [splitSign]
    split
    · rename_i hs
      exact ⟨_, .minus, by rw [hs]; rfl⟩
    · split
      · rename_i hs
        exact ⟨_, .plus, by rw [hs]; rfl⟩
      · exact ⟨_, .none, rfl⟩

theorem splitSign_append {negative : Bool} {sign : Text} (hsign : IsSign negative sign) {d : CodePoint}
    (hd : d.isDigit = true) (t : Text) : splitSign (sign ++ d :: t) = (negative, d :: t) := by
  cases hsign with
  | none =>
    have hminus : d ≠ '-' := by
      rintro rfl
      cases hd
    have hplus : d ≠ '+' := by
      rintro rfl
      cases hd
    rw [List.nil_append, splitSign, if_neg hminus, if_neg hplus]
  | plus => rfl
  | minus => rfl

theorem scanExponent_of_not {t : Text} (h : ¬BeginsExponent t) : scanExponent t = (none, t) := by
  cases t with
  | nil => rfl
  | cons c t =>
    obtain ⟨sign, hsign, ht⟩ := exists_splitSign t
    rw [scanExponent_cons]
    split
    · rename_i hc
      generalize hmore : (splitSign t).2 = more at ht
      cases more with
      | nil => rfl
      | cons d more =>
        cases hd : d.isDigit with
        | true => exact absurd ⟨c, _, sign, d, more, by rw [← ht], by simpa using hc, hsign, hd⟩ h
        | false => simp [digits, hd]
    · rfl

theorem scanExponent_letter {c : CodePoint} {negative : Bool} {sign ds rest : Text}
    (hc : c = 'e' ∨ c = 'E') (hsign : IsSign negative sign) (hne : ds ≠ []) (hds : IsDigits ds)
    (hrest : EndsDigits rest) :
    scanExponent (c :: (sign ++ (ds ++ rest))) =
      (some (if negative then -(Text.digitsValue ds : Int) else Text.digitsValue ds), rest) := by
  have hdigits := digits_append hds hrest
  obtain ⟨d, ds, rfl⟩ := List.exists_cons_of_ne_nil hne
  rw [scanExponent_cons, if_pos (by simpa using hc), List.cons_append,
    splitSign_append hsign (hds d List.mem_cons_self)]
  dsimp only
  rw [← List.cons_append, hdigits]

theorem scanExponent_eq_iff {t rest : Text} {e : Option Int} :
    scanExponent t = (e, rest) ↔ ∃ x, t = x ++ rest ∧ IsExponent e x ∧
      (e = none → ¬BeginsExponent rest) ∧ (e ≠ none → EndsDigits rest) := by
  constructor
  · intro h
    by_cases hbegins : BeginsExponent t
    · obtain ⟨c, negative, sign, d, more, rfl, hc, hsign, hd⟩ := hbegins
      obtain ⟨ds, rest', hmore, hne, hds, hrest⟩ := exists_digits hd more
      rw [hmore, scanExponent_letter hc hsign hne hds hrest] at h
      cases h
      refine ⟨c :: (sign ++ ds), ?_, .some hc hsign hne hds, fun heq => ?_, fun _ => hrest⟩
      · rw [hmore, List.cons_append, List.append_assoc]
      · cases heq
    · rw [scanExponent_of_not hbegins] at h
      cases h
      exact ⟨[], rfl, .none, fun _ => hbegins, fun hne => absurd rfl hne⟩
  · rintro ⟨x, rfl, hx, hnone, hsome⟩
    cases hx with
    | none => exact scanExponent_of_not (hnone rfl)
    | some hc hsign hne hds =>
      rw [List.cons_append, List.append_assoc]
      exact scanExponent_letter hc hsign hne hds (hsome (by simp))

/-! ## Whole numerals -/

/-- Splits off the sign of a numeral. -/
def splitMinus (t : Text) : Bool × Text :=
  match t with
  | [] => (false, t)
  | c :: rest => if c = '-' then (true, rest) else (false, t)

theorem splitMinus_eq_iff {t u : Text} {negative : Bool} :
    splitMinus t = (negative, u) ↔
      t = signText negative ++ u ∧ (negative = false → u.head? ≠ some (CodePoint.ofChar '-')) := by
  constructor
  · intro h
    cases t with
    | nil =>
      cases h
      exact ⟨rfl, by simp⟩
    | cons c t =>
      rw [splitMinus] at h
      split at h
      · rename_i hc
        cases h
        exact ⟨by rw [hc]; rfl, by simp⟩
      · rename_i hc
        cases h
        exact ⟨rfl, by simpa using hc⟩
  · rintro ⟨rfl, hu⟩
    cases negative with
    | true => rfl
    | false =>
      cases u with
      | nil => rfl
      | cons c u =>
        have hc : c ≠ '-' := by simpa using hu rfl
        exact if_neg hc

theorem scan_eq (t : Text) :
    scan t = match scanWhole (splitMinus t).2 with
      | none => none
      | some (whole, t') =>
        some (⟨(splitMinus t).1, whole, (scanFraction t').1, (scanExponent (scanFraction t').2).1⟩,
          (scanExponent (scanFraction t').2).2) := rfl

theorem scan_eq_some_iff_parts {t rest : Text} {n : Numeral} :
    scan t = some (n, rest) ↔ ∃ u f x, splitMinus t = (n.negative, u) ∧
      scanWhole u = some (n.whole, f) ∧ scanFraction f = (n.fraction, x) ∧
      scanExponent x = (n.exponent, rest) := by
  rw [scan_eq]
  constructor
  · intro h
    split at h
    · cases h
    · rename_i whole f hwhole
      cases h
      exact ⟨_, f, _, rfl, hwhole, rfl, rfl⟩
  · rintro ⟨u, f, x, hsign, hwhole, hfraction, hexponent⟩
    rw [hsign]
    dsimp only
    rw [hwhole]
    dsimp only
    rw [hfraction]
    dsimp only
    rw [hexponent]

theorem not_continues_iff {n : Numeral} {rest : Text} :
    ¬n.Continues rest ↔ (n.whole ≠ "0" ∨ n.fraction ≠ [] ∨ n.exponent ≠ none → EndsDigits rest) ∧
      (n.fraction = [] → n.exponent = none → ¬BeginsFraction rest) ∧
      (n.exponent = none → ¬BeginsExponent rest) := by
  constructor
  · intro h
    refine ⟨fun hparts c hc => ?_, ?_, ?_⟩
    · cases hdigit : c.isDigit with
      | false => rfl
      | true =>
        obtain ⟨more, rfl⟩ := List.head?_eq_some_iff.1 hc
        exact absurd (.digit hparts hdigit) h
    · rintro hfraction hexponent ⟨d, more, rfl, hd⟩
      exact h (.fraction hfraction hexponent hd)
    · rintro hexponent ⟨c, negative, sign, d, more, rfl, hc, hsign, hd⟩
      exact h (.exponent hexponent hc hsign hd)
  · rintro ⟨hdigit, hfraction, hexponent⟩ h
    cases h with
    | digit hparts hd => exact absurd (hdigit hparts _ rfl) (by simp [hd])
    | fraction hf he hd => exact hfraction hf he ⟨_, _, rfl, hd⟩
    | exponent he hc hsign hd => exact hexponent he ⟨_, _, _, _, _, rfl, hc, hsign, hd⟩

section Parts

variable {e : Option Int} {x rest : Text}

/-- An exponent begins with a letter. -/
theorem exponent_cases (h : IsExponent e x) :
    e = none ∧ x = [] ∨
      e ≠ none ∧ ∃ c y, x = c :: y ∧ c.isDigit = false ∧ c ≠ CodePoint.ofChar '.' := by
  cases h with
  | none => exact .inl ⟨rfl, rfl⟩
  | some hc =>
    refine .inr ⟨by simp, _, _, rfl, ?_⟩
    rcases hc with rfl | rfl <;> decide

theorem endsDigits_exponent_iff (h : IsExponent e x) :
    EndsDigits (x ++ rest) ↔ (e = none → EndsDigits rest) := by
  rcases exponent_cases h with ⟨rfl, rfl⟩ | ⟨he, c, y, rfl, hc, -⟩
  · simp
  · simp [EndsDigits, hc, he]

theorem beginsFraction_exponent_iff (h : IsExponent e x) :
    BeginsFraction (x ++ rest) ↔ e = none ∧ BeginsFraction rest := by
  rcases exponent_cases h with ⟨rfl, rfl⟩ | ⟨he, c, y, rfl, -, hc⟩
  · simp
  · simp [BeginsFraction, hc, he]

theorem endsDigits_fraction_iff {ds : Text} :
    EndsDigits (fractionText ds ++ rest) ↔ (ds = [] → EndsDigits rest) := by
  rw [fractionText]
  split
  · rename_i hds
    simp [hds]
  · rename_i hds
    simp [hds, EndsDigits]
    decide

end Parts

/-- Each part of a numeral ends where the next one begins. -/
theorem not_continues_iff_parts {n : Numeral} {x rest : Text} (h : IsExponent n.exponent x) :
    ¬n.Continues rest ↔
      (n.whole ≠ "0" → EndsDigits (fractionText n.fraction ++ (x ++ rest))) ∧
      ((n.fraction = [] → ¬BeginsFraction (x ++ rest)) ∧
        (n.fraction ≠ [] → EndsDigits (x ++ rest))) ∧
      (n.exponent = none → ¬BeginsExponent rest) ∧ (n.exponent ≠ none → EndsDigits rest) := by
  rw [not_continues_iff, endsDigits_fraction_iff, endsDigits_exponent_iff h,
    beginsFraction_exponent_iff h]
  by_cases hfraction : n.fraction = []
  · by_cases hexponent : n.exponent = none
    · simp [hfraction, hexponent]
    · simp [hfraction, hexponent]
  · by_cases hexponent : n.exponent = none
    · simp [hfraction, hexponent]
    · simp [hfraction, hexponent]

/-- The first character of a whole number is a digit. -/
theorem IsWhole.exists_digit {w : Text} (h : IsWhole w) : ∃ d ds, w = d :: ds ∧ d.isDigit = true := by
  cases h with
  | zero => exact ⟨_, _, rfl, rfl⟩
  | digits _ hds => exact ⟨_, _, rfl, hds _ List.mem_cons_self⟩

theorem Spells.exists_cons {n : Numeral} {u : Text} (h : n.Spells u) :
    ∃ c rest, u = c :: rest ∧ (c.isDigit = true ∨ c = CodePoint.ofChar '-') := by
  obtain ⟨hwhole, -, x, -, rfl⟩ := h
  obtain ⟨d, ds, hds, hd⟩ := hwhole.exists_digit
  rw [hds]
  cases n.negative with
  | false => exact ⟨_, _, rfl, .inl hd⟩
  | true => exact ⟨_, _, rfl, .inr rfl⟩

/-- The scanner takes the longest numeral that a text begins with. -/
theorem scan_eq_some_iff {t rest : Text} {n : Numeral} :
    scan t = some (n, rest) ↔ ∃ u, t = u ++ rest ∧ n.Spells u ∧ ¬n.Continues rest := by
  simp only [scan_eq_some_iff_parts, splitMinus_eq_iff, scanWhole_eq_some_iff, scanFraction_eq_iff,
    scanExponent_eq_iff]
  constructor
  · rintro ⟨_, _, _, ⟨rfl, -⟩, ⟨rfl, hwhole, hdigit⟩, ⟨rfl, hfraction, hpoint⟩,
      x, rfl, hexponent, hletter⟩
    refine ⟨signText n.negative ++ (n.whole ++ (fractionText n.fraction ++ x)), ?_,
      ⟨hwhole, hfraction, x, hexponent, rfl⟩,
      (not_continues_iff_parts hexponent).2 ⟨hdigit, hpoint, hletter⟩⟩
    simp only [List.append_assoc]
  · rintro ⟨u, rfl, ⟨hwhole, hfraction, x, hexponent, rfl⟩, hcontinues⟩
    obtain ⟨hdigit, hpoint, hletter⟩ := (not_continues_iff_parts hexponent).1 hcontinues
    obtain ⟨d, ds, hds, hd⟩ := hwhole.exists_digit
    have hminus : (n.whole ++ (fractionText n.fraction ++ (x ++ rest))).head? ≠
        some (CodePoint.ofChar '-') := by
      rw [hds, List.cons_append, List.head?_cons]
      rintro heq
      cases Option.some.inj heq
      cases hd
    refine ⟨_, _, _, ⟨?_, fun _ => hminus⟩, ⟨rfl, hwhole, hdigit⟩, ⟨rfl, hfraction, hpoint⟩,
      x, rfl,
      hexponent, hletter⟩
    simp only [List.append_assoc]

/-! ## Values -/

/-- A numeral is a whole number and has more digits than are read. -/
structure IsLong (n : Numeral) (count : Nat) : Prop where
  fraction : n.fraction = []
  exponent : n.exponent = none
  length : n.whole.length = count
  limit : digitLimit < count

/-- Only such a number has no value. -/
theorem value_eq_error_iff {n : Numeral} {count : Nat} :
    n.value = .error count ↔ n.IsLong count := by
  rw [value]
  constructor
  · intro h
    split at h
    · rename_i hwhole
      obtain ⟨hfraction, hexponent⟩ := Bool.and_eq_true_iff.1 hwhole
      split at h
      · rename_i hlimit
        cases h
        exact ⟨List.isEmpty_iff.1 hfraction, Option.isNone_iff_eq_none.1 hexponent, rfl, hlimit⟩
      · cases h
    · cases h
  · rintro ⟨hfraction, hexponent, rfl, hlimit⟩
    have hwhole : (n.fraction.isEmpty && n.exponent.isNone) = true := by
      rw [hfraction, hexponent]
      rfl
    rw [if_pos hwhole, if_pos hlimit]

end JsonShape.Json.Numeral
