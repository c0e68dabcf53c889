import JsonShape.Proofs.Samples.Independence
import JsonShape.Proofs.Text.IllFormed
/-!
# JsonShape.Proofs.Samples.Positions

Where a line that is not text is said to be ill-formed. Its number is that of the line in the file. Its
column counts from what is decoded, which begins behind the space in front of it and behind a byte
order mark.

* `Samples.margin`: the bytes of a line that its columns leave out.
* `Samples.decodeBytes_of_illFormed`: the fault of one line.
* `Samples.Stream.fault_of_illFormed`: the fault of a line among others, and when its column is that of
  the first ill-formed sequence in the line.
-/

namespace JsonShape.Samples

/-- The space in front of a line and the byte order mark behind it, in bytes. -/
def margin (l : Bytes) : Nat :=
  (l.takeWhile isSpaceByte).length + if Utf8.mark.isPrefixOf (trim l) then Utf8.mark.length else 0

theorem toNat_lt_of_isSpace {l : Bytes} (hl : IsSpace l) : ∀ b ∈ l, b.toNat < 0x80 := by
  intro b hb
  have := hl b hb
  simp only [isSpaceByte, Bool.or_eq_true, Bool.and_eq_true, decide_eq_true_eq, UInt8.le_iff_toNat_le]
    at this
  rcases this with rfl | ⟨-, hle⟩
  · decide
  · exact Nat.lt_of_le_of_lt hle (by decide)

theorem isText_mark : Utf8.IsText Utf8.mark := ⟨[CodePoint.ofNat 0xFEFF], by decide, by decide⟩

/-- What is decoded of a line stands behind its margin. -/
theorem exists_margin_around (l : Bytes) : ∃ a m b, Utf8.IsText a ∧ a.length = margin l ∧
    (∀ c ∈ b, c.toNat < 0x80) ∧ l = a ++ (m ++ b) ∧ Utf8.decodeMarked (trim l) = Utf8.decode m := by
  obtain ⟨b, hb, hl⟩ := exists_space_behind l
  have hspace := Utf8.isText_of_ascii (toNat_lt_of_isSpace (isSpace_takeWhile l))
  by_cases hmark : Utf8.mark.isPrefixOf (trim l) = true
  · obtain ⟨m, hm⟩ := List.isPrefixOf_iff_prefix.1 hmark
    refine ⟨l.takeWhile isSpaceByte ++ Utf8.mark, m, b, hspace.append isText_mark, ?_,
      toNat_lt_of_isSpace hb, ?_, ?_⟩
    · rw [margin, if_pos hmark, List.length_append]
    · rw [List.append_assoc, ← List.append_assoc Utf8.mark, hm, ← hl]
    · rw [Utf8.decodeMarked, if_pos hmark, ← hm]
      rfl
  · refine ⟨l.takeWhile isSpaceByte, trim l, b, hspace, ?_, toNat_lt_of_isSpace hb, hl, ?_⟩
    · rw [margin, if_neg hmark, Nat.add_zero]
    · rw [Utf8.decodeMarked, if_neg hmark]

/-- The fault of a line that is not text lies at its first ill-formed sequence, counted from behind
the margin. -/
theorem decodeBytes_of_illFormed {l : Bytes} {offset : Nat} (h : Utf8.IllFormedAt l offset)
    (source : Text) (line : Int) :
    ∃ f, decodeBytes (trim l) source line = .error (.skip f) ∧ f.column = offset + 1 - margin l := by
  obtain ⟨a, m, b, ha, hmargin, hb, hl, hdecode⟩ := exists_margin_around l
  have hm : ¬Utf8.IsText m := by
    intro hm
    refine h.not_isText ?_
    rw [hl]
    exact ha.append (hm.append (Utf8.isText_of_ascii hb))
  obtain ⟨o, ho⟩ := (Utf8.isText_or_illFormedAt m).resolve_left hm
  have hwhole : Utf8.IllFormedAt l (margin l + o) := by
    have := (ho.append_right hb).append_left ha
    rwa [← hl, hmargin] at this
  obtain ⟨f, hf, hstart⟩ := ho.decode
  refine ⟨⟨source, line, f.start + 1, f.reason.message⟩, ?_, ?_⟩
  · rw [decodeBytes, hdecode, hf]
  · rw [h.unique hwhole, hstart]
    push_cast
    omega

theorem not_isEmpty_trim {l : Bytes} (hl : ¬Utf8.IsText l) : (trim l).isEmpty = false := by
  rw [List.isEmpty_eq_false_iff]
  intro hempty
  obtain ⟨a, b, ha, hb, hsplit⟩ := exists_space_around l
  refine hl (Utf8.isText_of_ascii (toNat_lt_of_isSpace ?_))
  rw [hsplit, hempty]
  exact List.forall_mem_append.2 ⟨ha, hb⟩

namespace Stream

/-- A line that is not text has one first ill-formed sequence. If the reading gets to the line, it gives
one fault there, under the number of the line, and goes on with the next one. The column is that of the
ill-formed sequence, less what stands in the margin: it is right just where the line has none. -/
theorem fault_of_illFormed (source : Text) {content : Bytes} {before after : List Bytes} {l : Bytes}
    (hlines : lines content = before ++ l :: after) (hl : ¬Utf8.IsText l)
    (hbefore : (ofLines source 1 before).failure = none) :
    ∃ offset, (∀ o, Utf8.IllFormedAt l o ↔ o = offset) ∧ ∃ f : SampleFault,
      (ofContent source content).items = (ofLines source 1 before).items ++
        .error f :: (ofLines source (before.length + 2) after).items ∧
      f.source = source ∧ f.line = before.length + 1 ∧ f.column = offset + 1 - margin l ∧
      (f.column = offset + 1 ↔ margin l = 0) := by
  obtain ⟨offset, hoffset⟩ := (Utf8.isText_or_illFormedAt l).resolve_left hl
  refine ⟨offset, fun o => ⟨fun h => h.unique hoffset, fun h => h ▸ hoffset⟩, ?_⟩
  obtain ⟨f, hf, hcolumn⟩ := decodeBytes_of_illFormed hoffset source ((1 + before.length : Nat) : Int)
  obtain ⟨hsource, hline⟩ := place_of_decodeBytes hf
  have hrest : ofLines source (1 + before.length) (l :: after) =
      cons (.error f) (ofLines source (1 + before.length + 1) after) := by
    rw [ofLines, not_isEmpty_trim hl, hf]
    rfl
  have hnumber : 1 + before.length + 1 = before.length + 2 := by omega
  refine ⟨f, ?_, hsource, ?_, hcolumn, ?_⟩
  · rw [ofContent, hlines, ofLines_append, append_of_failure_eq_none hbefore, hrest, hnumber]
    rfl
  · rw [hline]
    omega
  · rw [hcolumn]
    omega

/-- An unfinished character behind a quote, in an indented line with a byte order mark, the third of a
content. -/
theorem fault_of_illFormed_marked :
    let content : Bytes := [0x31, 0x0A, 0x0D, 0x0A, 0x20, 0xEF, 0xBB, 0xBF, 0x22, 0xC3, 0x0A, 0x32]
    let l : Bytes := [0x20, 0xEF, 0xBB, 0xBF, 0x22, 0xC3]
    (lines content = [[0x31], [0x0D]] ++ l :: [[0x32]] ∧ ¬Utf8.IsText l ∧
      (ofLines "s" 1 [[0x31], [0x0D]]).failure = none) ∧
    ∃ offset, (∀ o, Utf8.IllFormedAt l o ↔ o = offset) ∧ ∃ f : SampleFault,
      (ofContent "s" content).items = (ofLines "s" 1 [[0x31], [0x0D]]).items ++
        .error f :: (ofLines "s" 4 [[0x32]]).items ∧
      f.line = 3 ∧ f.column = offset + 1 - margin l := by
  intro content l
  have hlines : lines content = [[0x31], [0x0D]] ++ l :: [[0x32]] := by decide
  have hdecode : Utf8.decode l = .error ⟨.endOfData, 5, 0xC3, 1⟩ := rfl
  have hl : ¬Utf8.IsText l := (Utf8.illFormedAt_of_decode hdecode).not_isText
  have hbefore : (ofLines "s" 1 [[0x31], [0x0D]]).failure = none := by decide
  obtain ⟨offset, hoffset, f, hitems, -, hline, hcolumn, -⟩ :=
    fault_of_illFormed "s" hlines hl hbefore
  exact ⟨⟨hlines, hl, hbefore⟩, offset, hoffset, f, hitems, hline, hcolumn⟩

/-- The first ill-formed sequence of an indented line is its third byte, and the fault has column 1. -/
theorem column_of_indented_line :
    let content : Bytes := [0x20, 0x20, 0xFF, 0x0A]
    lines content = [] ++ [0x20, 0x20, 0xFF] :: [[]] ∧ Utf8.IllFormedAt [0x20, 0x20, 0xFF] 2 ∧
      (ofContent "s.jsonl" content).items = [.error ⟨"s.jsonl", 1, 1, "invalid start byte"⟩] := by
  have hdecode : Utf8.decode [0x20, 0x20, 0xFF] = .error ⟨.startByte, 2, 0xFF, 1⟩ := rfl
  exact ⟨by decide, Utf8.illFormedAt_of_decode hdecode, rfl⟩

end Stream

end JsonShape.Samples
