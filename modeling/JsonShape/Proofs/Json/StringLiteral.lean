import JsonShape.Json.StringLiteral
/-!
# JsonShape.Proofs.Json.StringLiteral

String literals, written and read.

* `Text.unpaired`: no two surrogates that stand side by side make a pair.
* `StringLiteral.scan_write`: the literal of such a text is read back as that text.
* `StringLiteral.unpaired_of_scan`: every literal in a text without surrogates is read as such a text.
* `StringLiteral.scanFrom_local`: a literal is read the same, whatever follows it.
* `StringLiteral.isPlain_of_mem_write`: literals are written in printable ASCII.
-/

namespace JsonShape

namespace CodePoint

/-- Printable ASCII. -/
def isPlain (c : CodePoint) : Bool := 0x20 ≤ c.toNat && c.toNat ≤ 0x7E

theorem hexDigit_hexValue : ∀ d : Fin 16, (hexDigit d).hexValue? = some d.val := by decide

theorem hexValue?_hexDigit {d : Nat} (h : d < 16) : (hexDigit d).hexValue? = some d :=
  hexDigit_hexValue ⟨d, h⟩

theorem isPlain_hexDigit {d : Nat} (h : d < 16) : (hexDigit d).isPlain = true := by
  have hall : ∀ d : Fin 16, (hexDigit d).isPlain = true := by decide
  exact hall ⟨d, h⟩

end CodePoint

/-- No first half of a pair of surrogates stands right before a second half. -/
def Text.unpaired : Text → Bool
  | [] => true
  | c :: t => !(c.isHighSurrogate && t.head?.any CodePoint.isLowSurrogate) && unpaired t

namespace Json

namespace StringLiteral

theorem isHighSurrogate_ofNat (n : Nat) : (CodePoint.ofNat n).isHighSurrogate = isHigh n := by
  rw [CodePoint.ofNat]
  split
  · rfl
  · rename_i h
    have hn : ¬n ≤ 0xDBFF := by omega
    rw [isHigh, decide_eq_false hn, Bool.and_false]
    decide

theorem isLowSurrogate_ofNat (n : Nat) : (CodePoint.ofNat n).isLowSurrogate = isLow n := by
  rw [CodePoint.ofNat]
  split
  · rfl
  · rename_i h
    have hn : ¬n ≤ 0xDFFF := by omega
    rw [isLow, decide_eq_false hn, Bool.and_false]
    decide

theorem isScalar_pair {high low : Nat} (hhigh : isHigh high = true) (hlow : isLow low = true) :
    (pair high low).isScalar = true := by
  simp only [isHigh, isLow, Bool.and_eq_true, decide_eq_true_eq] at hhigh hlow
  have hn : 0x10000 + (high - 0xD800) * 0x400 + (low - 0xDC00) < 0x110000 := by omega
  simp only [pair, CodePoint.isScalar, CodePoint.isHighSurrogate, CodePoint.isLowSurrogate,
    CodePoint.toNat_ofNat hn, Bool.not_eq_true', Bool.or_eq_false_iff, Bool.and_eq_false_iff,
    decide_eq_false_iff_not]
  omega

theorem isScalar_iff {c : CodePoint} :
    c.isScalar = true ↔ c.isHighSurrogate = false ∧ c.isLowSurrogate = false := by
  rw [CodePoint.isScalar, Bool.not_eq_true', Bool.or_eq_false_iff]

/-! ## What literals are read as -/

/-- Characters that stand for themselves are no surrogates. -/
def Piece.Sound : Piece → Prop
  | .plain c => c.isScalar = true
  | .unit _ => True

/-- What assembling leaves: a unit that a pair might still take in is named, and nothing else begins
with a second half. -/
structure Assembled (state : Option Nat × Text) : Prop where
  unpaired : state.2.unpaired = true
  head : ∀ n ∈ state.1, state.2.head? = some (CodePoint.ofNat n)
  closed : state.1 = none → state.2.head?.any CodePoint.isLowSurrogate = false

theorem unpaired_tail {t : Text} (h : t.unpaired = true) : Text.unpaired t.tail = true := by
  cases t with
  | nil => rfl
  | cons c t =>
    rw [Text.unpaired, Bool.and_eq_true] at h
    exact h.2

/-- A character that is no surrogate in front. -/
theorem assembled_scalar {c : CodePoint} (hc : c.isScalar = true) {t : Text}
    (ht : t.unpaired = true) : Assembled (none, c :: t) := by
  obtain ⟨hhigh, hlow⟩ := isScalar_iff.1 hc
  exact ⟨by simp [Text.unpaired, hhigh, ht], by simp, fun _ => by simp [hlow]⟩

theorem assembled_unit {n : Nat} {t : Text} (ht : t.unpaired = true)
    (hpair : (isHigh n && t.head?.any CodePoint.isLowSurrogate) = false) :
    Assembled (some n, CodePoint.ofNat n :: t) := by
  refine ⟨?_, by simp, by simp⟩
  rw [Text.unpaired, isHighSurrogate_ofNat, hpair, ht]
  rfl

theorem assembled_step {p : Piece} (hp : p.Sound) {state : Option Nat × Text} (h : Assembled state) :
    Assembled (assembleStep p state) := by
  obtain ⟨u, t⟩ := state
  cases p with
  | plain c => exact assembled_scalar hp h.unpaired
  | unit n =>
    cases u with
    | none => exact assembled_unit h.unpaired (by rw [h.closed rfl, Bool.and_false])
    | some m =>
      rw [assembleStep]
      split
      · rename_i hpair
        rw [Bool.and_eq_true] at hpair
        exact assembled_scalar (isScalar_pair hpair.1 hpair.2) (unpaired_tail h.unpaired)
      · rename_i hpair
        have hhead : t.head? = some (CodePoint.ofNat m) := h.head m rfl
        refine assembled_unit h.unpaired ?_
        rw [hhead, Option.any_some, isLowSurrogate_ofNat]
        exact Bool.eq_false_iff.2 hpair

theorem unpaired_assemble {ps : List Piece} (hps : ∀ p ∈ ps, p.Sound) :
    (assemble ps).unpaired = true := by
  suffices h : Assembled (ps.foldr assembleStep (none, [])) from h.unpaired
  induction ps with
  | nil => exact ⟨rfl, by simp, fun _ => rfl⟩
  | cons p ps ih =>
    obtain ⟨hp, hps⟩ := List.forall_mem_cons.1 hps
    exact assembled_step hp (ih hps)

theorem isScalar_of_shortEscape? {c e : CodePoint} (h : shortEscape? c = some e) :
    e.isScalar = true := by
  unfold shortEscape? at h
  repeat' split at h
  all_goals cases h
  all_goals rfl

/-- The pieces of a literal come from its text. -/
theorem sound_of_scanFrom {opening t : Text} {state : State} {done ps : List Piece} {rest : Text}
    (h : scanFrom opening t state done = .ok (ps, rest)) (ht : ∀ c ∈ t, c.isScalar = true)
    (hdone : ∀ p ∈ done, p.Sound) : ∀ p ∈ ps, p.Sound := by
  fun_induction scanFrom opening t state done with
  | case1 | case2 | case3 | case6 | case10 | case11 | case13 => cases h
  | case4 t done =>
    cases h
    exact hdone
  | case5 t done _ ih | case8 t _ done ih | case12 _ t _ _ _ done _ _ _ ih =>
    exact ih h (List.forall_mem_cons.1 ht).2 hdone
  | case7 c t done _ _ _ ih =>
    obtain ⟨hc, ht⟩ := List.forall_mem_cons.1 ht
    exact ih h ht (List.forall_mem_cons.2 ⟨hc, hdone⟩)
  | case9 c t here done _ e he ih =>
    have he := isScalar_of_shortEscape? he
    exact ih h (List.forall_mem_cons.1 ht).2 (List.forall_mem_cons.2 ⟨he, hdone⟩)
  | case14 c t here count value done d _ _ _ ih =>
    exact ih h (List.forall_mem_cons.1 ht).2 (List.forall_mem_cons.2 ⟨trivial, hdone⟩)

theorem unpaired_of_scan {t s rest : Text} (ht : ∀ c ∈ t, c.isScalar = true)
    (h : scan t = .ok (s, rest)) : s.unpaired = true := by
  rw [scan] at h
  split at h
  · cases h
  · rename_i hscan
    cases h
    have hsound := sound_of_scanFrom hscan (fun c hc => ht c (List.mem_of_mem_tail hc)) (by simp)
    exact unpaired_assemble fun p hp => hsound p (List.mem_reverse.1 hp)

/-! ## What follows a literal -/

/-- The reader stands at the same place of a literal, in texts that differ behind it. -/
inductive State.Alike : State → State → Prop where
  | plain : Alike .plain .plain
  | escape (here here' : Text) : Alike (.escape here) (.escape here')
  | unit (here here' : Text) (count value : Nat) : Alike (.unit here count value) (.unit here' count value)

theorem scanFrom_local {opening t rest : Text} {state : State} {done ps : List Piece}
    (h : scanFrom opening t state done = .ok (ps, rest)) :
    ∃ u, u ≠ [] ∧ t = u ++ rest ∧ ∀ opening' rest' state', state.Alike state' →
      scanFrom opening' (u ++ rest') state' done = .ok (ps, rest') := by
  fun_induction scanFrom opening t state done with
  | case1 | case2 | case3 | case6 | case10 | case11 | case13 => cases h
  | case4 t done =>
    cases h
    refine ⟨[CodePoint.ofChar '"'], by simp, rfl, fun opening' rest' state' hstate => ?_⟩
    cases hstate
    rfl
  | case5 t done _ ih =>
    obtain ⟨u, -, rfl, hlocal⟩ := ih h
    refine ⟨_ :: u, by simp, rfl, fun opening' rest' state' hstate => ?_⟩
    cases hstate
    exact hlocal _ _ _ (.escape _ _)
  | case7 c t done hquote hslash hcontrol ih =>
    obtain ⟨u, -, rfl, hlocal⟩ := ih h
    refine ⟨c :: u, by simp, rfl, fun opening' rest' state' hstate => ?_⟩
    cases hstate
    rw [List.cons_append, scanFrom, if_neg hquote, if_neg hslash, if_neg hcontrol]
    exact hlocal _ _ _ .plain
  | case8 t here done ih =>
    obtain ⟨u, -, rfl, hlocal⟩ := ih h
    refine ⟨_ :: u, by simp, rfl, fun opening' rest' state' hstate => ?_⟩
    cases hstate
    exact hlocal _ _ _ (.unit _ _ _ _)
  | case9 c t here done hu e he ih =>
    obtain ⟨u, -, rfl, hlocal⟩ := ih h
    refine ⟨c :: u, by simp, rfl, fun opening' rest' state' hstate => ?_⟩
    cases hstate
    rw [List.cons_append, scanFrom, if_neg hu, he]
    exact hlocal _ _ _ .plain
  | case12 c t here count value done d hd hcount ih =>
    obtain ⟨u, -, rfl, hlocal⟩ := ih h
    refine ⟨c :: u, by simp, rfl, fun opening' rest' state' hstate => ?_⟩
    cases hstate
    rw [List.cons_append, scanFrom, hd]
    dsimp only
    rw [if_pos hcount]
    exact hlocal _ _ _ (.unit _ _ _ _)
  | case14 c t here count value done d hd hcount hmore ih =>
    obtain ⟨u, hne, rfl, hlocal⟩ := ih h
    refine ⟨c :: u, by simp, rfl, fun opening' rest' state' hstate => ?_⟩
    cases hstate
    rw [List.cons_append, scanFrom, hd]
    dsimp only
    rw [if_neg hcount, if_neg (by simp [hne])]
    exact hlocal _ _ _ .plain

/-! ## Writing -/

/-- The pieces that a character is written as. -/
def pieces (c : CodePoint) : List Piece :=
  if c.isPlain || [8, 9, 10, 12, 13].contains c.toNat then [.plain c]
  else if c.toNat < 0x10000 then [.unit c.toNat]
  else
    let n := c.toNat - 0x10000
    [.unit (0xD800 + n / 0x400), .unit (0xDC00 + n % 0x400)]

theorem hex_four (n : Nat) : Text.hex n 4 =
    [CodePoint.hexDigit (n / 16 / 16 / 16 % 16), CodePoint.hexDigit (n / 16 / 16 % 16),
      CodePoint.hexDigit (n / 16 % 16), CodePoint.hexDigit (n % 16)] := rfl

/-- A unit that something follows. -/
theorem scanFrom_writeUnit {n : Nat} (hn : n < 0x10000) (opening : Text) {rest : Text}
    (hrest : rest ≠ []) (done : List Piece) :
    scanFrom opening (writeUnit n ++ rest) .plain done =
      scanFrom opening rest .plain (.unit n :: done) := by
  have hdigit : ∀ m, (CodePoint.hexDigit (m % 16)).hexValue? = some (m % 16) :=
    fun m => CodePoint.hexValue?_hexDigit (Nat.mod_lt m (by decide))
  have hvalue : 16 * (16 * (16 * (16 * 0 + n / 16 / 16 / 16 % 16) + n / 16 / 16 % 16) + n / 16 % 16) +
      n % 16 = n := by omega
  have hne : ¬rest.isEmpty = true := by simpa using hrest
  rw [writeUnit, hex_four]
  show scanFrom opening (CodePoint.hexDigit _ :: CodePoint.hexDigit _ :: CodePoint.hexDigit _ ::
    CodePoint.hexDigit _ :: rest) (.unit _ 0 0) done = _
  simp only [scanFrom, hdigit, hne, hvalue]
  rfl

/-- The four ways in which a character is written: as itself, by a letter, as one unit, as two. -/
inductive Written (c : CodePoint) : Text → List Piece → Prop where
  | self : c.isPlain = true → c ≠ '"' → c ≠ '\\' → Written c [c] [.plain c]
  | letter {e : CodePoint} : shortEscape? e = some c → e.isPlain = true → e ≠ 'u' →
      Written c [CodePoint.ofChar '\\', e] [.plain c]
  | unit : c.toNat < 0x10000 → Written c (writeUnit c.toNat) [.unit c.toNat]
  | units {high low : Nat} : isHigh high = true → isLow low = true → pair high low = c →
      Written c (writeUnit high ++ writeUnit low) [.unit high, .unit low]

theorem written_letter {c e : CodePoint} (hwrite : writeOne c = [CodePoint.ofChar '\\', e])
    (hpieces : pieces c = [.plain c]) (hescape : shortEscape? e = some c) (hplain : e.isPlain = true)
    (hne : e ≠ 'u') : Written c (writeOne c) (pieces c) := by
  rw [hwrite, hpieces]
  exact .letter hescape hplain hne

theorem written (c : CodePoint) : Written c (writeOne c) (pieces c) := by
  by_cases hquote : c = '"'
  · subst hquote
    exact written_letter (e := '"') rfl rfl rfl rfl (by decide)
  by_cases hbackslash : c = '\\'
  · subst hbackslash
    exact written_letter (e := '\\') rfl rfl rfl rfl (by decide)
  by_cases hnewline : c = '\n'
  · subst hnewline
    exact written_letter (e := 'n') rfl rfl rfl rfl (by decide)
  by_cases hreturn : c = '\r'
  · subst hreturn
    exact written_letter (e := 'r') rfl rfl rfl rfl (by decide)
  by_cases htab : c = '\t'
  · subst htab
    exact written_letter (e := 't') rfl rfl rfl rfl (by decide)
  by_cases hback : c.toNat = 8
  · obtain rfl : c = CodePoint.ofNat 8 := CodePoint.ext hback
    exact written_letter (e := 'b') rfl rfl rfl rfl (by decide)
  by_cases hfeed : c.toNat = 12
  · obtain rfl : c = CodePoint.ofNat 12 := CodePoint.ext hfeed
    exact written_letter (e := 'f') rfl rfl rfl rfl (by decide)
  -- no letter is left
  have hnot : [8, 9, 10, 12, 13].contains c.toNat = false := by
    have hnewline : c.toNat ≠ 10 := fun h => hnewline (CodePoint.ext h)
    have hreturn : c.toNat ≠ 13 := fun h => hreturn (CodePoint.ext h)
    have htab : c.toNat ≠ 9 := fun h => htab (CodePoint.ext h)
    simp [hback, htab, hnewline, hfeed, hreturn]
  rw [writeOne, if_neg hquote, if_neg hbackslash, if_neg hnewline, if_neg hreturn, if_neg htab,
    if_neg hback, if_neg hfeed, pieces, hnot, Bool.or_false]
  by_cases hplain : c.isPlain = true
  · have hbounds : 0x20 ≤ c.toNat ∧ c.toNat ≤ 0x7E := by
      simpa [CodePoint.isPlain] using hplain
    rw [if_pos hplain, if_pos hbounds]
    exact .self hplain hquote hbackslash
  · have hbounds : ¬(0x20 ≤ c.toNat ∧ c.toNat ≤ 0x7E) := by
      simpa [CodePoint.isPlain] using hplain
    rw [if_neg hplain, if_neg hbounds]
    by_cases hunit : c.toNat < 0x10000
    · rw [if_pos hunit, if_pos hunit]
      exact .unit hunit
    · rw [if_neg hunit, if_neg hunit]
      have hlt := c.isLt
      refine .units ?_ ?_ ?_
      · simp only [isHigh, Bool.and_eq_true, decide_eq_true_eq]
        omega
      · simp only [isLow, Bool.and_eq_true, decide_eq_true_eq]
        omega
      · refine CodePoint.ext ?_
        rw [pair, CodePoint.toNat_ofNat (by omega)]
        omega

theorem scanFrom_writeOne (c : CodePoint) (opening : Text) {rest : Text} (hrest : rest ≠ [])
    (done : List Piece) :
    scanFrom opening (writeOne c ++ rest) .plain done =
      scanFrom opening rest .plain ((pieces c).reverse ++ done) := by
  have h := written c
  generalize writeOne c = text, pieces c = ps at h ⊢
  cases h with
  | self hplain hquote hbackslash =>
    rw [CodePoint.isPlain, Bool.and_eq_true, decide_eq_true_eq] at hplain
    rw [List.singleton_append, scanFrom, if_neg hquote, if_neg hbackslash,
      if_neg (Nat.not_lt.2 hplain.1)]
    rfl
  | @letter e hescape _ hu =>
    show scanFrom opening (e :: rest) (.escape _) done = _
    rw [scanFrom, if_neg hu, hescape]
    rfl
  | unit hlt => exact scanFrom_writeUnit hlt opening hrest done
  | units hhigh hlow _ =>
    simp only [isHigh, isLow, Bool.and_eq_true, decide_eq_true_eq] at hhigh hlow
    rw [List.append_assoc, scanFrom_writeUnit (by omega) opening (by simp [hrest]),
      scanFrom_writeUnit (by omega) opening hrest]
    rfl

theorem scanFrom_write (t opening rest : Text) (done : List Piece) :
    scanFrom opening (t.flatMap writeOne ++ quote :: rest) .plain done =
      .ok ((t.flatMap pieces).reverse ++ done, rest) := by
  induction t generalizing done with
  | nil => rfl
  | cons c t ih =>
    rw [List.flatMap_cons, List.append_assoc, scanFrom_writeOne c opening (by simp), ih,
      List.flatMap_cons, List.reverse_append, List.append_assoc]

/-- Pieces go together again, because no pair arises between the units of neighbours. -/
theorem foldr_assembleStep_pieces {t : Text} (ht : t.unpaired = true) :
    ∃ u, (t.flatMap pieces).foldr assembleStep (none, []) = (u, t) ∧
      ∀ n ∈ u, t.head? = some (CodePoint.ofNat n) := by
  induction t with
  | nil => exact ⟨none, rfl, by simp⟩
  | cons c t ih =>
    rw [Text.unpaired, Bool.and_eq_true, Bool.not_eq_true'] at ht
    obtain ⟨hc, ht⟩ := ht
    obtain ⟨u, hfold, hu⟩ := ih ht
    rw [List.flatMap_cons, List.foldr_append, hfold]
    have h := written c
    generalize writeOne c = text, pieces c = ps at h ⊢
    cases h with
    | self => exact ⟨none, rfl, by simp⟩
    | letter => exact ⟨none, rfl, by simp⟩
    | unit =>
      rw [List.foldr_cons, List.foldr_nil]
      refine ⟨some c.toNat, ?_, by simp [CodePoint.ofNat_toNat]⟩
      cases u with
      | none => rw [assembleStep, CodePoint.ofNat_toNat]
      | some m =>
        rw [hu m rfl, Option.any_some, isLowSurrogate_ofNat] at hc
        have hnot : ¬(isHigh c.toNat && isLow m) = true := Bool.eq_false_iff.1 hc
        rw [assembleStep, if_neg hnot, CodePoint.ofNat_toNat]
    | @units high low hhigh hlow hpair =>
      rw [List.foldr_cons, List.foldr_cons, List.foldr_nil]
      -- the second half is no first half, so what follows cannot join it
      have hnot : isHigh low = false := by
        simp only [isLow, isHigh, Bool.and_eq_true, Bool.and_eq_false_iff, decide_eq_true_eq,
          decide_eq_false_iff_not] at hlow ⊢
        omega
      have hlast : assembleStep (.unit low) (u, t) = (some low, CodePoint.ofNat low :: t) := by
        cases u with
        | none => rfl
        | some m => rw [assembleStep, hnot, Bool.false_and, if_neg Bool.false_ne_true]
      refine ⟨none, ?_, by simp⟩
      rw [hlast, assembleStep, hhigh, hlow, Bool.and_self, if_pos rfl, hpair, List.tail_cons]

theorem scan_write {t : Text} (ht : t.unpaired = true) (rest : Text) :
    scan (write t ++ rest) = .ok (t, rest) := by
  obtain ⟨u, hfold, -⟩ := foldr_assembleStep_pieces ht
  have hopening : write t ++ rest = quote :: (t.flatMap writeOne ++ quote :: rest) := by
    rw [write, List.cons_append, List.append_assoc, List.singleton_append]
  rw [scan, hopening, List.tail_cons, scanFrom_write, List.append_nil]
  dsimp only
  rw [List.reverse_reverse, assemble, hfold]

theorem isPlain_of_mem_writeUnit {n : Nat} {c : CodePoint} (hc : c ∈ writeUnit n) :
    c.isPlain = true := by
  have hdigit : ∀ m, (CodePoint.hexDigit (m % 16)).isPlain = true :=
    fun m => CodePoint.isPlain_hexDigit (Nat.mod_lt m (by decide))
  have hescape : ∀ c ∈ ("\\u" : Text), c.isPlain = true := by decide
  rw [writeUnit, hex_four] at hc
  rcases List.mem_append.1 hc with hc | hc
  · exact hescape c hc
  · simp only [List.mem_cons, List.not_mem_nil, or_false] at hc
    rcases hc with rfl | rfl | rfl | rfl <;> exact hdigit _

theorem isPlain_of_mem_writeOne {c d : CodePoint} (hd : d ∈ writeOne c) : d.isPlain = true := by
  have h := written c
  generalize writeOne c = text, pieces c = ps at h hd
  cases h with
  | self hplain => exact List.mem_singleton.1 hd ▸ hplain
  | letter _ hplain =>
    rw [List.mem_cons, List.mem_singleton] at hd
    rcases hd with rfl | rfl
    · rfl
    · exact hplain
  | unit => exact isPlain_of_mem_writeUnit hd
  | units => exact (List.mem_append.1 hd).elim isPlain_of_mem_writeUnit isPlain_of_mem_writeUnit

theorem isPlain_of_mem_write {t : Text} {c : CodePoint} (hc : c ∈ write t) : c.isPlain = true := by
  simp only [write, List.mem_cons, List.mem_append, List.not_mem_nil, or_false] at hc
  rcases hc with rfl | hc | rfl
  · rfl
  · obtain ⟨d, -, hc⟩ := List.mem_flatMap.1 hc
    exact isPlain_of_mem_writeOne hc
  · rfl

end StringLiteral

end Json

end JsonShape
