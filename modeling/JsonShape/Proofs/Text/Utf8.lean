import Mathlib.Algebra.Group.Nat.Defs
import Mathlib.Data.List.TakeWhile
import JsonShape.Text.Newlines
import JsonShape.Text.Utf8
/-!
# JsonShape.Proofs.Text.Utf8

Text to bytes and back.

* `Utf8.decode_encode`: the bytes of a text without surrogates decode to that text.
* `Utf8.encode_of_decode`: bytes that decode are those of their text.
* `Utf8.isScalar_of_mem_decode`: what bytes decode to has no surrogates.
* `Text.unifyNewlines_of_not_mem`: a text without carriage returns keeps its line ends.
-/

namespace JsonShape

namespace Utf8

theorem toNat_toUInt8 {n : Nat} (h : n < 0x100) : n.toUInt8.toNat = n := by
  simpa using h

/-! ## From text to bytes and back -/

theorem start_one {n : Nat} (h : n < 0x80) : start n.toUInt8 = .whole (CodePoint.ofNat n) := by
  have hn : n.toUInt8.toNat = n := toNat_toUInt8 (by omega)
  simp only [start, hn]
  rw [if_pos h]

theorem start_two {n : Nat} (hlow : 2 ≤ n) (hhigh : n < 0x20) :
    start (0xC0 + n).toUInt8 = .pending ⟨(0xC0 + n).toUInt8, n, 1, 0, 0x80, 0xBF⟩ := by
  have hn : (0xC0 + n).toUInt8.toNat = 0xC0 + n := toNat_toUInt8 (by omega)
  simp only [start, hn]
  rw [if_neg (by omega), if_neg (by omega), if_pos (by omega), Nat.add_sub_cancel_left]

theorem start_three {n : Nat} (h : n < 0x10) :
    start (0xE0 + n).toUInt8 = .pending ⟨(0xE0 + n).toUInt8, n, 1, 1,
      if n = 0 then 0xA0 else 0x80, if n = 0xD then 0x9F else 0xBF⟩ := by
  have hn : (0xE0 + n).toUInt8.toNat = 0xE0 + n := toNat_toUInt8 (by omega)
  have hlow : (0xE0 + n = 0xE0) = (n = 0) := propext (by omega)
  have hhigh : (0xE0 + n = 0xED) = (n = 0xD) := propext (by omega)
  simp only [start, hn]
  rw [if_neg (by omega), if_neg (by omega), if_neg (by omega), if_pos (by omega),
    Nat.add_sub_cancel_left]
  simp only [hlow, hhigh]

theorem start_four {n : Nat} (h : n < 5) :
    start (0xF0 + n).toUInt8 = .pending ⟨(0xF0 + n).toUInt8, n, 1, 2,
      if n = 0 then 0x90 else 0x80, if n = 4 then 0x8F else 0xBF⟩ := by
  have hn : (0xF0 + n).toUInt8.toNat = 0xF0 + n := toNat_toUInt8 (by omega)
  have hlow : (0xF0 + n = 0xF0) = (n = 0) := propext (by omega)
  have hhigh : (0xF0 + n = 0xF4) = (n = 4) := propext (by omega)
  simp only [start, hn]
  rw [if_neg (by omega), if_neg (by omega), if_neg (by omega), if_neg (by omega), if_pos (by omega),
    Nat.add_sub_cancel_left]
  simp only [hlow, hhigh]

/-- A byte that continues a character and is not its last. -/
theorem decodeFrom_middle {n : Nat} (hn : n < 0x40) {lead : UInt8} {bits taken more low high : Nat}
    (hlow : low ≤ 0x80 + n) (hhigh : 0x80 + n ≤ high) (bs : Bytes) (offset : Nat) (done : Text) :
    decodeFrom ((0x80 + n).toUInt8 :: bs) offset (some ⟨lead, bits, taken, more + 1, low, high⟩) done =
      decodeFrom bs (offset + 1) (some ⟨lead, bits * 64 + n, taken + 1, more, 0x80, 0xBF⟩) done := by
  have hb : (0x80 + n).toUInt8.toNat = 0x80 + n := toNat_toUInt8 (by omega)
  rw [decodeFrom]
  simp only [hb]
  rw [if_pos ⟨hlow, hhigh⟩, Nat.add_sub_cancel_left]

/-- The last byte of a character. -/
theorem decodeFrom_last {n : Nat} (hn : n < 0x40) {lead : UInt8} {bits taken low high : Nat}
    (hlow : low ≤ 0x80 + n) (hhigh : 0x80 + n ≤ high) (bs : Bytes) (offset : Nat) (done : Text) :
    decodeFrom ((0x80 + n).toUInt8 :: bs) offset (some ⟨lead, bits, taken, 0, low, high⟩) done =
      decodeFrom bs (offset + 1) none (CodePoint.ofNat (bits * 64 + n) :: done) := by
  have hb : (0x80 + n).toUInt8.toNat = 0x80 + n := toNat_toUInt8 (by omega)
  rw [decodeFrom]
  simp only [hb]
  rw [if_pos ⟨hlow, hhigh⟩, Nat.add_sub_cancel_left]

theorem decodeFrom_encodeOne {c : CodePoint} (hc : c.isScalar = true) (bs : Bytes) (offset : Nat)
    (done : Text) :
    decodeFrom (encodeOne c ++ bs) offset none done =
      decodeFrom bs (offset + (encodeOne c).length) none (c :: done) := by
  obtain ⟨n, hn⟩ := c
  simp only [CodePoint.isScalar, CodePoint.isHighSurrogate, CodePoint.isLowSurrogate, Bool.not_eq_true',
    Bool.or_eq_false_iff, Bool.and_eq_false_iff, decide_eq_false_iff_not] at hc
  have hwhole : ∀ m, m = n → CodePoint.ofNat m = ⟨n, hn⟩ := by
    rintro m rfl
    exact CodePoint.ofNat_toNat ⟨m, hn⟩
  have hmod : n % 64 < 0x40 := Nat.mod_lt _ (by decide)
  have hmod' : n / 64 % 64 < 0x40 := Nat.mod_lt _ (by decide)
  have hmod'' : n / 4096 % 64 < 0x40 := Nat.mod_lt _ (by decide)
  rw [encodeOne]
  dsimp only
  split
  · rename_i h
    rw [List.singleton_append, decodeFrom, start_one h, hwhole n rfl]
    rfl
  · split
    · rename_i hlow hhigh
      rw [List.cons_append, List.singleton_append, decodeFrom, start_two (by omega) (by omega)]
      dsimp only
      rw [decodeFrom_last hmod (by omega) (by omega), hwhole _ (by omega)]
      rfl
    · split
      · rename_i hlow hhigh
        rw [List.cons_append, List.cons_append, List.singleton_append, decodeFrom,
          start_three (by omega)]
        dsimp only
        rw [decodeFrom_middle hmod' (by split <;> omega) (by split <;> omega),
          decodeFrom_last hmod (by omega) (by omega), hwhole _ (by omega)]
        rfl
      · rw [List.cons_append, List.cons_append, List.cons_append, List.singleton_append, decodeFrom,
          start_four (by omega)]
        dsimp only
        rw [decodeFrom_middle hmod'' (by split <;> omega) (by split <;> omega),
          decodeFrom_middle hmod' (by omega) (by omega), decodeFrom_last hmod (by omega) (by omega),
          hwhole _ (by omega)]
        rfl

theorem decodeFrom_encode {t : Text} (ht : ∀ c ∈ t, c.isScalar = true) (bs : Bytes) (offset : Nat)
    (done : Text) :
    decodeFrom (encode t ++ bs) offset none done =
      decodeFrom bs (offset + (encode t).length) none (t.reverse ++ done) := by
  induction t generalizing offset done with
  | nil => rfl
  | cons c t ih =>
    obtain ⟨hc, ht⟩ := List.forall_mem_cons.1 ht
    rw [encode, List.flatMap_cons, List.append_assoc, decodeFrom_encodeOne hc, ← encode, ih ht,
      List.length_append, Nat.add_assoc, List.reverse_cons, List.append_assoc, List.singleton_append]

theorem decode_encode {t : Text} (ht : ∀ c ∈ t, c.isScalar = true) : decode (encode t) = .ok t := by
  have h := decodeFrom_encode ht [] 0 []
  rw [List.append_nil, List.append_nil] at h
  rw [decode, h, decodeFrom, List.reverse_reverse]

theorem surrogates?_eq_none_iff {allowed : CodePoint → Bool} {t : Text} :
    surrogates? allowed t = none ↔ ∀ c ∈ t, allowed c = true := by
  rw [← List.dropWhile_eq_nil_iff, surrogates?]
  cases List.dropWhile allowed t <;> simp

theorem encode?_eq_ok_iff {t : Text} {bs : Bytes} :
    encode? t = .ok bs ↔ (∀ c ∈ t, c.isScalar = true) ∧ bs = encode t := by
  rw [← surrogates?_eq_none_iff, encode?]
  cases surrogates? CodePoint.isScalar t <;> simp [eq_comm]

theorem encode?_eq_ok {t : Text} {bs : Bytes} (h : encode? t = .ok bs) : bs = encode t :=
  (encode?_eq_ok_iff.1 h).2

/-- A text that has bytes is read back from them. -/
theorem decode_of_encode? {t : Text} {bs : Bytes} (h : encode? t = .ok bs) :
    decode (encode t) = .ok t :=
  decode_encode (encode?_eq_ok_iff.1 h).1

/-- The bytes of a character beyond ASCII are beyond it too. -/
theorem toNat_of_mem_encodeOne {c : CodePoint} {b : UInt8} (hb : b ∈ encodeOne c) :
    b.toNat = c.toNat ∨ 0x80 ≤ b.toNat := by
  have hc := c.isLt
  rw [encodeOne] at hb
  split at hb
  · rw [List.mem_singleton.1 hb]
    exact .inl (toNat_toUInt8 (by omega))
  · right
    have hle : ∀ n, 0x80 ≤ n → n < 0x100 → 0x80 ≤ n.toUInt8.toNat := by
      intro n hn hlt
      rwa [toNat_toUInt8 hlt]
    split at hb
    · simp only [List.mem_cons, List.not_mem_nil, or_false] at hb
      rcases hb with rfl | rfl <;> exact hle _ (by omega) (by omega)
    · split at hb
      · simp only [List.mem_cons, List.not_mem_nil, or_false] at hb
        rcases hb with rfl | rfl | rfl <;> exact hle _ (by omega) (by omega)
      · simp only [List.mem_cons, List.not_mem_nil, or_false] at hb
        rcases hb with rfl | rfl | rfl | rfl <;> exact hle _ (by omega) (by omega)

/-! ## What bytes decode to -/

theorem isScalar_ofNat {n : Nat} (h : n < 0xD800 ∨ 0xDFFF < n) :
    (CodePoint.ofNat n).isScalar = true := by
  rw [CodePoint.ofNat]
  split
  · simp only [CodePoint.isScalar, CodePoint.isHighSurrogate, CodePoint.isLowSurrogate,
      Bool.not_eq_true', Bool.or_eq_false_iff, Bool.and_eq_false_iff, decide_eq_false_iff_not]
    omega
  · decide

/-- Whether a pending character can become the one of this number. -/
def Pending.Reaches (p : Pending) (n : Nat) : Prop :=
  (p.bits * 64 + (p.low - 0x80)) * 64 ^ p.more ≤ n ∧
    n < (p.bits * 64 + (p.high - 0x80) + 1) * 64 ^ p.more

/-- The bounds of the next byte keep surrogates out of reach. -/
def Pending.Scalar (p : Pending) : Prop :=
  0x80 ≤ p.low ∧ ∀ n, p.Reaches n → (CodePoint.ofNat n).isScalar = true

theorem scalar_of_start {b : UInt8} {p : Pending} (h : start b = .pending p) : p.Scalar := by
  unfold start at h
  dsimp only at h
  split at h
  · cases h
  · split at h
    · cases h
    · split at h
      · cases h
        refine ⟨Nat.le_refl _, fun n hn => isScalar_ofNat ?_⟩
        simp only [Pending.Reaches] at hn
        omega
      · split at h
        · cases h
          refine ⟨by dsimp only; split <;> decide, fun n hn => isScalar_ofNat ?_⟩
          simp only [Pending.Reaches] at hn
          split at hn <;> split at hn <;> omega
        · split at h
          · cases h
            refine ⟨by dsimp only; split <;> decide, fun n hn => isScalar_ofNat ?_⟩
            simp only [Pending.Reaches] at hn
            split at hn <;> split at hn <;> omega
          · cases h

theorem Pending.reaches_last {p : Pending} (hmore : p.more = 0) {n : Nat} (hlow : p.low ≤ n)
    (hhigh : n ≤ p.high) : p.Reaches (p.bits * 64 + (n - 0x80)) := by
  rw [Reaches, hmore]
  omega

theorem Pending.reaches_full_iff {lead : UInt8} {bits taken more m : Nat} :
    Pending.Reaches ⟨lead, bits, taken, more, 0x80, 0xBF⟩ m ↔
      bits * 64 ^ (more + 1) ≤ m ∧ m < (bits + 1) * 64 ^ (more + 1) := by
  have hlower : (bits * 64 + (0x80 - 0x80)) * 64 ^ more = bits * 64 ^ (more + 1) := by
    rw [Nat.sub_self, Nat.add_zero, Nat.pow_succ', Nat.mul_assoc]
  have hupper : (bits * 64 + (0xBF - 0x80) + 1) * 64 ^ more = (bits + 1) * 64 ^ (more + 1) := by
    rw [Nat.pow_succ', ← Nat.mul_assoc, Nat.add_mul bits]
  rw [Reaches]
  dsimp only
  rw [hlower, hupper]

/-- What a pending character can become after one more byte it could become before. -/
theorem Pending.reaches_of_next {p : Pending} (h80 : 0x80 ≤ p.low) {more : Nat}
    (hmore : p.more = more + 1) {n : Nat} (hlow : p.low ≤ n) (hhigh : n ≤ p.high) {m : Nat}
    (hm : Pending.Reaches ⟨p.lead, p.bits * 64 + (n - 0x80), p.taken + 1, more, 0x80, 0xBF⟩ m) :
    p.Reaches m := by
  obtain ⟨hlower, hupper⟩ := reaches_full_iff.1 hm
  rw [Reaches, hmore]
  exact ⟨Nat.le_trans (Nat.mul_le_mul_right _ (by omega)) hlower,
    Nat.lt_of_lt_of_le hupper (Nat.mul_le_mul_right _ (by omega))⟩

theorem Pending.Scalar.last {p : Pending} (hp : p.Scalar) (hmore : p.more = 0) {n : Nat}
    (hlow : p.low ≤ n) (hhigh : n ≤ p.high) :
    (CodePoint.ofNat (p.bits * 64 + (n - 0x80))).isScalar = true :=
  hp.2 _ (reaches_last hmore hlow hhigh)

theorem Pending.Scalar.next {p : Pending} (hp : p.Scalar) {more : Nat} (hmore : p.more = more + 1)
    {n : Nat} (hlow : p.low ≤ n) (hhigh : n ≤ p.high) :
    Pending.Scalar ⟨p.lead, p.bits * 64 + (n - 0x80), p.taken + 1, more, 0x80, 0xBF⟩ :=
  ⟨Nat.le_refl _, fun m hm => hp.2 m (reaches_of_next hp.1 hmore hlow hhigh hm)⟩

theorem isScalar_of_start {b : UInt8} {c : CodePoint} (h : start b = .whole c) : c.isScalar = true := by
  unfold start at h
  dsimp only at h
  split at h
  · cases h
    exact isScalar_ofNat (.inl (by omega))
  · split at h
    · cases h
    · split at h
      · cases h
      · split at h
        · cases h
        · split at h <;> cases h

theorem isScalar_of_mem_decodeFrom {bs : Bytes} {offset : Nat} {pending : Option Pending}
    {done t : Text} (hpending : ∀ p ∈ pending, p.Scalar) (hdone : ∀ c ∈ done, c.isScalar = true)
    (h : decodeFrom bs offset pending done = .ok t) : ∀ c ∈ t, c.isScalar = true := by
  fun_induction decodeFrom bs offset pending done with
  | case1 offset done =>
    cases h
    exact fun c hc => hdone c (List.mem_reverse.1 hc)
  | case2 => cases h
  | case3 b bs offset done c hstart ih =>
    exact ih (by simp) (List.forall_mem_cons.2 ⟨isScalar_of_start hstart, hdone⟩) h
  | case4 b bs offset done p hstart ih =>
    refine ih ?_ hdone h
    rintro _ ⟨⟩
    exact scalar_of_start hstart
  | case5 => cases h
  | case6 b bs offset p done hbounds bits hmore ih =>
    have hlast := (hpending p rfl).last hmore hbounds.1 hbounds.2
    exact ih (by simp) (List.forall_mem_cons.2 ⟨hlast, hdone⟩) h
  | case7 b bs offset p done hbounds bits more hmore ih =>
    refine ih ?_ hdone h
    rintro _ ⟨⟩
    exact (hpending p rfl).next hmore hbounds.1 hbounds.2
  | case8 => cases h

theorem isScalar_of_mem_decode {bs : Bytes} {t : Text} (h : decode bs = .ok t) :
    ∀ c ∈ t, c.isScalar = true :=
  isScalar_of_mem_decodeFrom (by simp) (by simp) h

/-! ## From bytes to text and back -/

/-- The last `count` bytes of the character of number `n`. -/
def continuation (n : Nat) : (count : Nat) → Bytes
  | 0 => []
  | k + 1 => (0x80 + n / 64 ^ k % 64).toUInt8 :: continuation n k

theorem encodeOne_one {n : Nat} (h : n < 0x80) : encodeOne (CodePoint.ofNat n) = [n.toUInt8] := by
  rw [encodeOne, CodePoint.toNat_ofNat (by omega)]
  exact if_pos h

theorem encodeOne_two {n : Nat} (hlow : 0x80 ≤ n) (hhigh : n < 0x800) :
    encodeOne (CodePoint.ofNat n) = (0xC0 + n / 64).toUInt8 :: continuation n 1 := by
  rw [encodeOne, CodePoint.toNat_ofNat (by omega)]
  rw [if_neg (by omega), if_pos hhigh]
  simp [continuation]

theorem encodeOne_three {n : Nat} (hlow : 0x800 ≤ n) (hhigh : n < 0x10000) :
    encodeOne (CodePoint.ofNat n) = (0xE0 + n / 4096).toUInt8 :: continuation n 2 := by
  rw [encodeOne, CodePoint.toNat_ofNat (by omega)]
  rw [if_neg (by omega), if_neg (by omega), if_pos hhigh]
  simp [continuation]

theorem encodeOne_four {n : Nat} (hlow : 0x10000 ≤ n) (hhigh : n < 0x110000) :
    encodeOne (CodePoint.ofNat n) = (0xF0 + n / 262144).toUInt8 :: continuation n 3 := by
  rw [encodeOne, CodePoint.toNat_ofNat hhigh]
  rw [if_neg (by omega), if_neg (by omega), if_neg (by omega)]
  simp [continuation]

/-- The bytes read so far begin every character that a pending one can become. -/
structure Pending.Begun (p : Pending) (read : Bytes) : Prop where
  low : 0x80 ≤ p.low
  high : p.high ≤ 0xBF
  encodes : ∀ n, p.Reaches n →
    encodeOne (CodePoint.ofNat n) = read ++ continuation n (p.more + 1)

theorem begun_of_start {b : UInt8} {p : Pending} (h : start b = .pending p) : p.Begun [b] := by
  have hlead : ∀ n, n = b.toNat → n.toUInt8 = b := by
    rintro _ rfl
    exact UInt8.ofNat_toNat
  have hbyte := b.toNat_lt
  unfold start at h
  dsimp only at h
  split at h
  · cases h
  · split at h
    · cases h
    · split at h
      · cases h
        refine ⟨Nat.le_refl _, Nat.le_refl _, fun n hn => ?_⟩
        simp only [Pending.Reaches] at hn
        rw [encodeOne_two (by omega) (by omega), hlead _ (by omega)]
        rfl
      · split at h
        · cases h
          refine ⟨by dsimp only; split <;> decide, by dsimp only; split <;> decide, fun n hn => ?_⟩
          simp only [Pending.Reaches] at hn
          have : 0x800 ≤ n ∧ n < 0x10000 ∧ 0xE0 + n / 4096 = b.toNat := by
            split at hn <;> split at hn <;> omega
          rw [encodeOne_three this.1 this.2.1, hlead _ this.2.2]
          rfl
        · split at h
          · cases h
            refine ⟨by dsimp only; split <;> decide, by dsimp only; split <;> decide, fun n hn => ?_⟩
            simp only [Pending.Reaches] at hn
            have : 0x10000 ≤ n ∧ n < 0x110000 ∧ 0xF0 + n / 262144 = b.toNat := by
              split at hn <;> split at hn <;> omega
            rw [encodeOne_four this.1 this.2.1, hlead _ this.2.2]
            rfl
          · cases h

theorem Pending.Begun.last {p : Pending} {read : Bytes} (hp : p.Begun read) (hmore : p.more = 0)
    {b : UInt8} (hlow : p.low ≤ b.toNat) (hhigh : b.toNat ≤ p.high) :
    encodeOne (CodePoint.ofNat (p.bits * 64 + (b.toNat - 0x80))) = read ++ [b] := by
  have := hp.low
  have := hp.high
  rw [hp.encodes _ (reaches_last hmore hlow hhigh), hmore, continuation, continuation, Nat.pow_zero,
    Nat.div_one, show 0x80 + (p.bits * 64 + (b.toNat - 0x80)) % 64 = b.toNat by omega]
  exact congrArg (read ++ [·]) UInt8.ofNat_toNat

theorem Pending.Begun.next {p : Pending} {read : Bytes} (hp : p.Begun read) {more : Nat}
    (hmore : p.more = more + 1) {b : UInt8} (hlow : p.low ≤ b.toNat) (hhigh : b.toNat ≤ p.high) :
    Pending.Begun ⟨p.lead, p.bits * 64 + (b.toNat - 0x80), p.taken + 1, more, 0x80, 0xBF⟩
      (read ++ [b]) := by
  have h80 := hp.low
  have hBF := hp.high
  refine ⟨Nat.le_refl _, Nat.le_refl _, fun m hm => ?_⟩
  rw [hp.encodes m (reaches_of_next h80 hmore hlow hhigh hm), hmore, continuation]
  obtain ⟨hlower, hupper⟩ := reaches_full_iff.1 hm
  have hdiv := Nat.div_eq_of_lt_le hlower hupper
  rw [hdiv, show 0x80 + (p.bits * 64 + (b.toNat - 0x80)) % 64 = b.toNat by omega, List.append_assoc]
  exact congrArg (read ++ · :: _) UInt8.ofNat_toNat

theorem encode_of_start {b : UInt8} {c : CodePoint} (h : start b = .whole c) : encodeOne c = [b] := by
  unfold start at h
  dsimp only at h
  split at h
  · cases h
    rw [encodeOne_one (by assumption)]
    exact congrArg ([·]) UInt8.ofNat_toNat
  · split at h
    · cases h
    · split at h
      · cases h
      · split at h
        · cases h
        · split at h <;> cases h

theorem encode_append (s t : Text) : encode (s ++ t) = encode s ++ encode t := List.flatMap_append

theorem encode_of_decodeFrom {bs : Bytes} (read : Bytes) {offset : Nat} {pending : Option Pending}
    {done t : Text} (hpending : ∀ p ∈ pending, p.Begun read) (hnone : pending = none → read = [])
    (h : decodeFrom bs offset pending done = .ok t) : encode t = encode done.reverse ++ read ++ bs := by
  fun_induction decodeFrom bs offset pending done generalizing read with
  | case1 offset done =>
    cases h
    rw [hnone rfl, List.append_nil, List.append_nil]
  | case2 => cases h
  | case3 b bs offset done c hstart ih =>
    have hone : encode [c] = [b] := by simpa [encode] using encode_of_start hstart
    rw [ih [] (by simp) (fun _ => rfl) h, hnone rfl, List.reverse_cons, encode_append, hone]
    simp
  | case4 b bs offset done p hstart ih =>
    have hbegun : ∀ q ∈ some p, q.Begun [b] := by
      rintro _ ⟨⟩
      exact begun_of_start hstart
    rw [ih [b] hbegun (by simp) h, hnone rfl]
    simp
  | case5 => cases h
  | case6 b bs offset p done hbounds bits hmore =>
    rename_i ih
    have hone : encode [CodePoint.ofNat (p.bits * 64 + (b.toNat - 0x80))] = read ++ [b] := by
      simpa [encode] using (hpending p rfl).last hmore hbounds.1 hbounds.2
    rw [ih [] (by simp) (fun _ => rfl) h, List.reverse_cons, encode_append, hone]
    simp
  | case7 b bs offset p done hbounds bits more hmore =>
    rename_i ih
    have hnext := (hpending p rfl).next hmore hbounds.1 hbounds.2
    rw [ih (read ++ [b]) (by rintro _ ⟨⟩; exact hnext) (by simp) h]
    simp
  | case8 => cases h

/-- Bytes that decode are those of their text. -/
theorem encode_of_decode {bs : Bytes} {t : Text} (h : decode bs = .ok t) : encode t = bs := by
  rw [encode_of_decodeFrom [] (by simp) (fun _ => rfl) h]
  rfl

end Utf8

namespace Text

/-- The text with its line ends unified, behind a line feed made of a carriage return if one is
`pending`. -/
def unifiedFrom : (pending : Bool) → Text → Text
  | _, [] => []
  | pending, c :: t =>
    if c = .carriageReturn then .newline :: unifiedFrom true t
    else if c = .newline && pending then unifiedFrom false t
    else c :: unifiedFrom false t

theorem foldl_newlineStep (t : Text) (pending : Bool) (done : Text) :
    (t.foldl newlineStep (pending, done)).2 = (unifiedFrom pending t).reverse ++ done := by
  induction t generalizing pending done with
  | nil => rfl
  | cons c t ih =>
    rw [List.foldl_cons, newlineStep, unifiedFrom]
    split
    · rw [ih, List.reverse_cons, List.append_assoc, List.singleton_append]
    · split
      · rw [ih]
      · rw [ih, List.reverse_cons, List.append_assoc, List.singleton_append]

theorem unifyNewlines_eq (t : Text) : unifyNewlines t = unifiedFrom false t := by
  rw [unifyNewlines, foldl_newlineStep, List.append_nil, List.reverse_reverse]

theorem unifyNewlines_of_not_mem {t : Text} (ht : CodePoint.carriageReturn ∉ t) :
    unifyNewlines t = t := by
  rw [unifyNewlines_eq]
  induction t with
  | nil => rfl
  | cons c t ih =>
    rw [List.mem_cons, not_or] at ht
    rw [unifiedFrom, if_neg (Ne.symm ht.1), Bool.and_false, if_neg Bool.false_ne_true, ih ht.2]

end Text

end JsonShape
