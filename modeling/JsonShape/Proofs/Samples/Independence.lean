import JsonShape.Proofs.Samples.Stream
/-!
# JsonShape.Proofs.Samples.Independence

A line says nothing about the others but how many there are before them.

* `Sample.below`: a sample some lines further down.
* `Stream.ofLines_append`, `Stream.ofLines_add`: lines behind others, and lines numbered from further
  down.
* `Stream.ofContent_append`: a content behind another one and a line feed.
* `Stream.lines_are_independent`: with what one line may change.
-/

namespace JsonShape.Samples

/-- The same sample `k` lines further down, which shows in its fault alone. -/
def Sample.below (k : Nat) (s : Sample) : Sample := s.mapError fun f => { f with line := f.line + k }

namespace Stream

/-- The samples of a stream `k` lines further down. -/
def below (k : Nat) (s : Stream) : Stream := ⟨s.items.map (Sample.below k), s.failure⟩

/-! ## Lines one after the other -/

theorem append_of_failure_eq_none {s : Stream} (h : s.failure = none) (t : Stream) :
    s.append t = ⟨s.items ++ t.items, t.failure⟩ := by
  rw [append, h]

theorem cons_append (a : Sample) (s t : Stream) : (cons a s).append t = cons a (s.append t) := by
  cases h : s.failure <;> simp [cons, append, h]

theorem ofLines_append (source : Text) (line : Nat) (ls ms : List Bytes) :
    ofLines source line (ls ++ ms) =
      (ofLines source line ls).append (ofLines source (line + ls.length) ms) := by
  induction ls generalizing line with
  | nil => rfl
  | cons l ls ih =>
    have hnumber : line + (l :: ls).length = line + 1 + ls.length := by
      simp only [List.length_cons]
      omega
    rw [List.cons_append, ofLines, ofLines, hnumber, ih]
    split
    · rfl
    · split
      · rw [cons_append]
      · rw [cons_append]
      · rfl

theorem decodeBytes_add (bs : Bytes) (source : Text) (line k : Nat) :
    decodeBytes bs source ((line + k : Nat) : Int) =
      match decodeBytes bs source line with
      | .ok v => .ok v
      | .error (.skip f) => .error (.skip { f with line := f.line + k })
      | .error (.tooManyDigits n) => .error (.tooManyDigits n) := by
  simp only [decodeBytes]
  cases Utf8.decodeMarked bs with
  | error f => simp
  | ok t =>
    simp only [decodeText]
    cases Json.read t with
    | ok v => rfl
    | error e => cases e <;> simp

theorem place_of_decodeBytes {bs : Bytes} {source : Text} {line : Int} {f : SampleFault}
    (h : decodeBytes bs source line = .error (.skip f)) : f.source = source ∧ f.line = line := by
  rw [decodeBytes] at h
  split at h
  · cases h
    exact ⟨rfl, rfl⟩
  · rw [decodeText] at h
    split at h <;> cases h
    exact ⟨rfl, rfl⟩

theorem ofLines_add (source : Text) (line k : Nat) (ls : List Bytes) :
    ofLines source (line + k) ls = (ofLines source line ls).below k := by
  induction ls generalizing line with
  | nil => rfl
  | cons l ls ih =>
    have ih := ih (line + 1)
    rw [Nat.add_right_comm] at ih
    rw [ofLines, ofLines, ih, decodeBytes_add]
    split
    · rfl
    · cases hdecode : decodeBytes (trim l) source line with
      | ok v => rfl
      | error e => cases e <;> rfl

/-! ## Contents one after the other -/

theorem lines_append (c d : Bytes) : lines (c ++ lineFeed :: d) = lines c ++ lines d := by
  simp only [lines_eq_pieces]
  exact pieces_append_cons (by simp) c d

theorem length_lines (c : Bytes) : (lines c).length = c.count lineFeed + 1 := by
  induction c with
  | nil => rfl
  | cons b c ih =>
    simp only [lines_eq_pieces] at ih ⊢
    by_cases hb : b = lineFeed
    · rw [pieces_cons_of_ends (by simpa using hb), List.length_cons, ih, hb, List.count_cons_self]
    · obtain ⟨l, ls, hpieces⟩ := exists_pieces_eq_cons (· = lineFeed) c
      rw [pieces_cons_of_not_ends (by simpa using hb) hpieces, List.count_cons_of_ne hb, ← ih, hpieces]
      rfl

theorem ofContent_append (source : Text) (c d : Bytes) :
    ofContent source (c ++ lineFeed :: d) =
      (ofContent source c).append ((ofContent source d).below (c.count lineFeed + 1)) := by
  rw [ofContent, lines_append, ofLines_append, ofLines_add, length_lines]
  rfl

/-! ## One line among others -/

theorem length_items_ofLines_le (source : Text) (line : Nat) (ls : List Bytes) :
    (ofLines source line ls).items.length ≤ ls.length := by
  induction ls generalizing line with
  | nil => exact Nat.le_refl 0
  | cons l ls ih =>
    have ih := ih (line + 1)
    rw [ofLines]
    split
    · exact Nat.le_succ_of_le ih
    · split
      · exact Nat.succ_le_succ ih
      · exact Nat.succ_le_succ ih
      · exact Nat.zero_le _

/-- Faults have the numbers of their lines. -/
theorem line_of_mem_ofLines {source : Text} {line : Nat} {ls : List Bytes} {f : SampleFault}
    (h : .error f ∈ (ofLines source line ls).items) :
    line ≤ f.line ∧ f.line < (line + ls.length : Nat) := by
  induction ls generalizing line with
  | nil => cases h
  | cons l ls ih =>
    have hlater : .error f ∈ (ofLines source (line + 1) ls).items →
        line ≤ f.line ∧ f.line < (line + (l :: ls).length : Nat) := by
      intro h
      obtain ⟨hlow, hhigh⟩ := ih h
      simp only [List.length_cons]
      omega
    rw [ofLines] at h
    split at h
    · exact hlater h
    · split at h
      · exact (List.mem_cons.1 h).elim (fun heq => by cases heq) hlater
      · rename_i g hdecode
        refine (List.mem_cons.1 h).elim (fun heq => ?_) hlater
        cases heq
        obtain ⟨-, hline⟩ := place_of_decodeBytes hdecode
        simp only [List.length_cons]
        omega
      · cases h

/-- Whether what follows some bytes begins a line. -/
def EndsLine (front : Bytes) : Prop := front = [] ∨ ∃ c, front = c ++ [lineFeed]

/-- Whether what stands before some bytes ends a line. -/
def BeginsLine (back : Bytes) : Prop := back = [] ∨ ∃ d, back = lineFeed :: d

/-- A line is replaced by another one between the same lines. -/
theorem exists_lines_around {front back : Bytes} (hfront : EndsLine front) (hback : BeginsLine back) :
    ∃ before after : List Bytes, before.length = front.count lineFeed ∧
      ∀ l, lineFeed ∉ l → lines (front ++ (l ++ back)) = before ++ l :: after := by
  obtain ⟨after, hafter⟩ : ∃ after, ∀ l, lineFeed ∉ l → lines (l ++ back) = l :: after := by
    have hone : ∀ l, lineFeed ∉ l → lines l = [l] := by
      intro l hl
      rw [lines_eq_pieces]
      exact pieces_of_not_ends fun b hb => decide_eq_false (ne_of_mem_of_not_mem hb hl)
    rcases hback with rfl | ⟨d, rfl⟩
    · exact ⟨[], fun l hl => by rw [List.append_nil, hone l hl]⟩
    · exact ⟨lines d, fun l hl => by rw [lines_append, hone l hl, List.singleton_append]⟩
  rcases hfront with rfl | ⟨c, rfl⟩
  · exact ⟨[], after, rfl, hafter⟩
  · refine ⟨lines c, after, by simp [length_lines], fun l hl => ?_⟩
    rw [List.append_assoc, List.singleton_append, lines_append, hafter l hl]

/-- The samples of the lines around one line do not depend on it, if the reading gets to its end. -/
theorem items_around {source : Text} {line : Nat} {before after : List Bytes} {l : Bytes}
    (h : (ofLines source line (before ++ l :: after)).failure = none) :
    (ofLines source line (before ++ l :: after)).items =
      (ofLines source line before).items ++ ((ofLines source (line + before.length) [l]).items ++
        (ofLines source (line + before.length + 1) after).items) := by
  have happend : ∀ {s t : Stream}, (s.append t).failure = none →
      (s.append t).items = s.items ++ t.items ∧ t.failure = none := by
    intro s t hst
    cases hs : s.failure with
    | some f => simp [append, hs] at hst
    | none => simpa [append, hs] using hst
  rw [ofLines_append] at h ⊢
  obtain ⟨hitems, hrest⟩ := happend h
  rw [← List.singleton_append, ofLines_append] at hrest hitems ⊢
  rw [hitems, (happend hrest).1]
  rfl

/-- What stands behind a content and a line feed is read as it is alone, further down. Around one line
the samples are the same, with their line numbers, whatever bytes stand in the line, as long as the
reading gets to its end; the line itself gives one sample at most. -/
theorem lines_are_independent (source : Text) :
    (∀ c d : Bytes, (ofContent source c).failure = none → (ofContent source d).failure = none →
      (ofContent source (c ++ lineFeed :: d)).failure = none ∧
      (ofContent source (c ++ lineFeed :: d)).items =
        (ofContent source c).items ++
          (ofContent source d).items.map (Sample.below (c.count lineFeed + 1))) ∧
    ∀ front back : Bytes, EndsLine front → BeginsLine back → ∃ above under : List Sample,
      (∀ f : SampleFault, .error f ∈ above → f.line ≤ front.count lineFeed) ∧
      (∀ f : SampleFault, .error f ∈ under → front.count lineFeed + 1 < f.line) ∧
      ∀ l : Bytes, lineFeed ∉ l → (ofContent source (front ++ (l ++ back))).failure = none →
        ∃ own : List Sample,
          (ofContent source (front ++ (l ++ back))).items = above ++ (own ++ under) ∧
          own.length ≤ 1 ∧ ∀ f : SampleFault, .error f ∈ own → f.line = front.count lineFeed + 1 := by
  refine ⟨fun c d hc hd => ?_, fun front back hfront hback => ?_⟩
  · rw [ofContent_append, append_of_failure_eq_none hc]
    exact ⟨hd, rfl⟩
  · obtain ⟨before, after, hlength, hlines⟩ := exists_lines_around hfront hback
    refine ⟨(ofLines source 1 before).items, (ofLines source (1 + before.length + 1) after).items,
      fun f hf => ?_, fun f hf => ?_, fun l hl h => ?_⟩
    · have := line_of_mem_ofLines hf
      omega
    · have := line_of_mem_ofLines hf
      omega
    · rw [ofContent, hlines l hl] at h ⊢
      refine ⟨_, items_around h, length_items_ofLines_le _ _ [l], fun f hf => ?_⟩
      have := line_of_mem_ofLines hf
      simp only [List.length_singleton] at this
      omega

/-- A content that ends within a character, a second one that begins with a byte order mark and an
open bracket, and a blank line that becomes one with an ill-formed byte. -/
theorem lines_are_independent_open_line :
    let c : Bytes := [0x31, 0x0A, 0x0D, 0x0A, 0x22, 0xE2, 0x82]
    let d : Bytes := [0xEF, 0xBB, 0xBF, 0x5B, 0x0A, 0x32]
    let front : Bytes := [0x31, 0x0A]
    let back : Bytes := [0x0A, 0x5B]
    ((ofContent "s" c).failure = none ∧ (ofContent "s" d).failure = none ∧ EndsLine front ∧
      BeginsLine back ∧ lineFeed ∉ ([0x20] : Bytes) ∧ lineFeed ∉ ([0xFF] : Bytes) ∧
      (ofContent "s" (front ++ ([0x20] ++ back))).failure = none ∧
      (ofContent "s" (front ++ ([0xFF] ++ back))).failure = none) ∧
    (ofContent "s" (c ++ lineFeed :: d)).items =
      (ofContent "s" c).items ++ (ofContent "s" d).items.map (Sample.below 3) ∧
    ∃ above own own' under : List Sample,
      (ofContent "s" (front ++ ([0x20] ++ back))).items = above ++ (own ++ under) ∧
      (ofContent "s" (front ++ ([0xFF] ++ back))).items = above ++ (own' ++ under) ∧
      own.length ≤ 1 ∧ own'.length ≤ 1 := by
  intro c d front back
  have hc : (ofContent "s" c).failure = none := by decide
  have hd : (ofContent "s" d).failure = none := by decide
  have hfront : EndsLine front := .inr ⟨[0x31], rfl⟩
  have hback : BeginsLine back := .inr ⟨[0x5B], rfl⟩
  have hblank : (ofContent "s" (front ++ ([0x20] ++ back))).failure = none := by decide
  have hbyte : (ofContent "s" (front ++ ([0xFF] ++ back))).failure = none := by decide
  have hfree : lineFeed ∉ ([0x20] : Bytes) ∧ lineFeed ∉ ([0xFF] : Bytes) := by decide
  obtain ⟨hbehind, haround⟩ := lines_are_independent "s"
  obtain ⟨above, under, -, -, hline⟩ := haround front back hfront hback
  obtain ⟨own, hown, hlen, -⟩ := hline _ hfree.1 hblank
  obtain ⟨own', hown', hlen', -⟩ := hline _ hfree.2 hbyte
  exact ⟨⟨hc, hd, hfront, hback, hfree.1, hfree.2, hblank, hbyte⟩, (hbehind c d hc hd).2,
    above, own, own', under, hown, hown', hlen, hlen'⟩

end Stream

end JsonShape.Samples
