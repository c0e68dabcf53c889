import JsonShape.Proofs.Text.Utf8
/-!
# JsonShape.Proofs.Text.IllFormed

Where bytes cease to be text in UTF-8.

* `Utf8.IsText`: the bytes of characters and nothing else.
* `Utf8.IllFormedAt`: all bytes in front of an offset are of characters, and no character is next.
* `Utf8.isText_or_illFormedAt`: one or the other holds, the second of one offset only.
* `Utf8.illFormedAt_of_decode`: a failed decoding names that offset.
-/

namespace JsonShape.Utf8

/-- The bytes of characters, surrogates not among them. -/
def IsText (bs : Bytes) : Prop := ∃ t : Text, (∀ c ∈ t, c.isScalar = true) ∧ encode t = bs

/-- The first ill-formed sequence begins behind the first `offset` bytes: these are text, more bytes
follow, and they begin with no character. -/
structure IllFormedAt (bs : Bytes) (offset : Nat) : Prop where
  lt : offset < bs.length
  text : IsText (bs.take offset)
  next : ∀ c : CodePoint, c.isScalar = true → ¬encodeOne c <+: bs.drop offset

/-! ## Text -/

theorem encodeOne_ne_nil (c : CodePoint) : encodeOne c ≠ [] := by
  rw [encodeOne]
  split
  · simp
  · split
    · simp
    · split <;> simp

theorem isText_nil : IsText [] := ⟨[], by simp, rfl⟩

theorem IsText.append {as bs : Bytes} (ha : IsText as) (hb : IsText bs) : IsText (as ++ bs) := by
  obtain ⟨s, hs, rfl⟩ := ha
  obtain ⟨t, ht, rfl⟩ := hb
  exact ⟨s ++ t, List.forall_mem_append.2 ⟨hs, ht⟩, encode_append s t⟩

theorem isText_encodeOne {c : CodePoint} (hc : c.isScalar = true) : IsText (encodeOne c) :=
  ⟨[c], by simpa using hc, by simp [encode]⟩

theorem isText_of_ascii {bs : Bytes} (h : ∀ b ∈ bs, b.toNat < 0x80) : IsText bs := by
  induction bs with
  | nil => exact isText_nil
  | cons b bs ih =>
    obtain ⟨hb, hbs⟩ := List.forall_mem_cons.1 h
    have hone : encodeOne (CodePoint.ofNat b.toNat) = [b] := by
      rw [encodeOne_one hb]
      exact congrArg ([·]) UInt8.ofNat_toNat
    have := (isText_encodeOne (isScalar_ofNat (n := b.toNat) (.inl (by omega)))).append (ih hbs)
    rwa [hone] at this

theorem isText_iff_decode {bs : Bytes} : IsText bs ↔ ∃ t, decode bs = .ok t := by
  constructor
  · rintro ⟨t, ht, rfl⟩
    exact ⟨t, decode_encode ht⟩
  · rintro ⟨t, h⟩
    exact ⟨t, isScalar_of_mem_decode h, encode_of_decode h⟩

/-! ## Where it ends -/

theorem IllFormedAt.append_left {as bs : Bytes} {offset : Nat} (ha : IsText as)
    (h : IllFormedAt bs offset) : IllFormedAt (as ++ bs) (as.length + offset) where
  lt := by
    have := h.lt
    simp only [List.length_append]
    omega
  text := by
    rw [List.take_length_add_append]
    exact ha.append h.text
  next := by
    rw [List.drop_length_add_append]
    exact h.next

/-- Bytes of ASCII continue no character. -/
theorem IllFormedAt.append_right {as bs : Bytes} {offset : Nat} (ha : ∀ b ∈ as, b.toNat < 0x80)
    (h : IllFormedAt bs offset) : IllFormedAt (bs ++ as) offset where
  lt := by
    have := h.lt
    simp only [List.length_append]
    omega
  text := by
    rw [List.take_append_of_le_length (Nat.le_of_lt h.lt)]
    exact h.text
  next := by
    intro c hc hprefix
    rw [List.drop_append_of_le_length (Nat.le_of_lt h.lt)] at hprefix
    obtain ⟨rest, hrest⟩ := hprefix
    rcases List.append_eq_append_iff.1 hrest with ⟨more, hmore, -⟩ | ⟨more, hmore, has⟩
    · exact h.next c hc ⟨more, hmore.symm⟩
    · cases more with
      | nil =>
        rw [List.append_nil] at hmore
        exact h.next c hc (hmore ▸ List.prefix_refl _)
      | cons b more =>
        have hb : b.toNat < 0x80 := ha b (by simp [has])
        have hmem : b ∈ encodeOne c := by simp [hmore]
        have hone : (encodeOne c).length = 1 := by
          rcases toNat_of_mem_encodeOne hmem with hnat | hnat
          · simp only [encodeOne]
            rw [if_pos (by omega)]
            rfl
          · omega
        have hlen := h.lt
        rw [hmore, List.length_append, List.length_drop, List.length_cons] at hone
        omega

theorem isText_or_illFormedAt (bs : Bytes) : IsText bs ∨ ∃ offset, IllFormedAt bs offset := by
  induction hn : bs.length using Nat.strongRecOn generalizing bs with
  | ind n ih =>
    by_cases hempty : bs = []
    · exact .inl (hempty ▸ isText_nil)
    by_cases hnext : ∃ c : CodePoint, c.isScalar = true ∧ encodeOne c <+: bs
    · obtain ⟨c, hc, rest, rfl⟩ := hnext
      have hlen : rest.length < n := by
        have := List.length_pos_iff.2 (encodeOne_ne_nil c)
        rw [← hn, List.length_append]
        omega
      rcases ih _ hlen rest rfl with htext | ⟨offset, hoffset⟩
      · exact .inl ((isText_encodeOne hc).append htext)
      · exact .inr ⟨_, hoffset.append_left (isText_encodeOne hc)⟩
    · refine .inr ⟨0, List.length_pos_iff.2 hempty, isText_nil, fun c hc hprefix => ?_⟩
      exact hnext ⟨c, hc, hprefix⟩

/-! ## Decoding -/

theorem taken_of_start {b : UInt8} {p : Pending} (h : start b = .pending p) : p.taken = 1 := by
  unfold start at h
  dsimp only at h
  split at h
  · cases h
  · split at h
    · cases h
    · split at h
      · cases h; rfl
      · split at h
        · cases h; rfl
        · split at h <;> cases h; rfl

/-- Where no character is completed, the character that was begun is the fault. -/
theorem decodeFrom_pending {p : Pending} {read bs : Bytes} (hp : p.Begun read) (hscalar : p.Scalar)
    (h : ∀ c : CodePoint, c.isScalar = true → ¬encodeOne c <+: read ++ bs) (offset : Nat) (done : Text) :
    ∃ f, decodeFrom bs offset (some p) done = .error f ∧ f.start = offset - p.taken := by
  induction bs generalizing p read offset with
  | nil => exact ⟨_, rfl, rfl⟩
  | cons b bs ih =>
    rw [decodeFrom]
    split
    · rename_i hbounds
      dsimp only
      split
      · rename_i hmore
        refine absurd ?_ (h _ (hscalar.last hmore hbounds.1 hbounds.2))
        rw [hp.last hmore hbounds.1 hbounds.2]
        exact ⟨bs, by simp⟩
      · rename_i more hmore
        obtain ⟨f, hf, hstart⟩ := ih (hp.next hmore hbounds.1 hbounds.2)
          (hscalar.next hmore hbounds.1 hbounds.2) (by simpa using h) (offset + 1)
        exact ⟨f, hf, by simpa using hstart⟩
    · exact ⟨_, rfl, rfl⟩

theorem decodeFrom_of_not_prefix {bs : Bytes} (hne : bs ≠ [])
    (h : ∀ c : CodePoint, c.isScalar = true → ¬encodeOne c <+: bs) (offset : Nat) (done : Text) :
    ∃ f, decodeFrom bs offset none done = .error f ∧ f.start = offset := by
  cases bs with
  | nil => exact absurd rfl hne
  | cons b bs =>
    rw [decodeFrom]
    split
    · rename_i c hstart
      refine absurd ?_ (h c (isScalar_of_start hstart))
      rw [encode_of_start hstart]
      exact ⟨bs, rfl⟩
    · rename_i p hstart
      obtain ⟨f, hf, hoffset⟩ := decodeFrom_pending (begun_of_start hstart) (scalar_of_start hstart) h
        (offset + 1) done
      exact ⟨f, hf, by rw [hoffset, taken_of_start hstart, Nat.add_sub_cancel]⟩
    · exact ⟨_, rfl, rfl⟩

theorem IllFormedAt.decode {bs : Bytes} {offset : Nat} (h : IllFormedAt bs offset) :
    ∃ f, decode bs = .error f ∧ f.start = offset := by
  obtain ⟨t, ht, htake⟩ := h.text
  have hlen : (encode t).length = offset := by
    rw [htake, List.length_take, Nat.min_eq_left (Nat.le_of_lt h.lt)]
  have hne : bs.drop offset ≠ [] := by
    rw [ne_eq, List.drop_eq_nil_iff]
    exact Nat.not_le.2 h.lt
  obtain ⟨f, hf, hstart⟩ := decodeFrom_of_not_prefix hne h.next offset (t.reverse ++ [])
  refine ⟨f, ?_, hstart⟩
  have hdecode := decodeFrom_encode ht (bs.drop offset) 0 []
  rw [htake, List.take_append_drop, ← htake, hlen, Nat.zero_add, hf] at hdecode
  exact hdecode

theorem IllFormedAt.unique {bs : Bytes} {offset offset' : Nat} (h : IllFormedAt bs offset)
    (h' : IllFormedAt bs offset') : offset = offset' := by
  obtain ⟨f, hf, rfl⟩ := h.decode
  obtain ⟨f', hf', rfl⟩ := h'.decode
  rw [hf] at hf'
  cases hf'
  rfl

theorem IllFormedAt.not_isText {bs : Bytes} {offset : Nat} (h : IllFormedAt bs offset) :
    ¬IsText bs := by
  intro htext
  obtain ⟨t, ht⟩ := isText_iff_decode.1 htext
  obtain ⟨f, hf, -⟩ := h.decode
  rw [ht] at hf
  cases hf

/-- Decoding fails at the first ill-formed sequence. -/
theorem illFormedAt_of_decode {bs : Bytes} {f : Fault} (h : decode bs = .error f) :
    IllFormedAt bs f.start := by
  rcases isText_or_illFormedAt bs with htext | ⟨offset, hoffset⟩
  · obtain ⟨t, ht⟩ := isText_iff_decode.1 htext
    rw [h] at ht
    cases ht
  · obtain ⟨f', hf', rfl⟩ := hoffset.decode
    rw [h] at hf'
    cases hf'
    exact hoffset

end JsonShape.Utf8
