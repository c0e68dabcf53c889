import JsonShape.Proofs.Json.LongNumbers
import JsonShape.Proofs.Samples.Independence
/-!
# JsonShape.Proofs.Samples.Completion

What becomes of each line, and which contents are read to their end.

* `Samples.numbered`: the lines that are not blank, trimmed, with their numbers.
* `Samples.TooLong`: a line that ends the reading, by a number with too many digits.
* `Samples.Stream.completes_iff`: no other line does; each of them gives one sample.
-/

namespace JsonShape.Samples

/-- The lines that are not blank, without the space around them, with their numbers from `line` on. -/
def numbered (line : Nat) (ls : List Bytes) : List (Bytes × Nat) :=
  ((ls.map trim).zipIdx line).filter fun s => !s.1.isEmpty

theorem numbered_cons (line : Nat) (l : Bytes) (ls : List Bytes) :
    numbered line (l :: ls) =
      if (trim l).isEmpty then numbered (line + 1) ls else (trim l, line) :: numbered (line + 1) ls := by
  rw [numbered, List.map_cons, List.zipIdx_cons]
  split
  · rename_i hblank
    exact List.filter_cons_of_neg (by simp [hblank])
  · rename_i hblank
    exact List.filter_cons_of_pos (by simp [hblank])

/-- The bytes are of a text in which a number with `count` digits stands where a value is due. -/
def TooLong (bs : Bytes) (count : Nat) : Prop :=
  ∃ t, Utf8.decodeMarked bs = .ok t ∧ Json.LongNumber t count

theorem decodeBytes_eq_tooManyDigits_iff {bs : Bytes} {source : Text} {line : Int} {count : Nat} :
    decodeBytes bs source line = .error (.tooManyDigits count) ↔ TooLong bs count := by
  rw [TooLong, decodeBytes]
  cases Utf8.decodeMarked bs with
  | error f => simp
  | ok t =>
    simp only [← Json.read_eq_tooManyDigits_iff, Except.ok.injEq, exists_eq_left', decodeText]
    cases Json.read t with
    | ok v => simp
    | error e => cases e <;> simp

/-- A line that is not too long gives a value or a fault. -/
theorem exists_sample_or_tooLong (bs : Bytes) (source : Text) (line : Int) :
    (∃ a : Sample, decodeBytes bs source line = a.mapError .skip ∧ ∀ count, ¬TooLong bs count) ∨
      ∃ count, decodeBytes bs source line = .error (.tooManyDigits count) ∧ TooLong bs count := by
  have hnot : ∀ a : Sample, decodeBytes bs source line = a.mapError .skip → ∀ count, ¬TooLong bs count := by
    intro a h count hlong
    rw [decodeBytes_eq_tooManyDigits_iff.2 hlong] at h
    cases a <;> cases h
  cases h : decodeBytes bs source line with
  | ok v => exact .inl ⟨.ok v, rfl, hnot (.ok v) h⟩
  | error e =>
    cases e with
    | skip f => exact .inl ⟨.error f, rfl, hnot (.error f) h⟩
    | tooManyDigits count => exact .inr ⟨count, rfl, decodeBytes_eq_tooManyDigits_iff.1 h⟩

namespace Stream

theorem ofLines_cons_of_sample {source : Text} {line : Nat} {l : Bytes} (hblank : ¬(trim l).isEmpty = true)
    {a : Sample} (h : decodeBytes (trim l) source line = a.mapError .skip) (ls : List Bytes) :
    ofLines source line (l :: ls) = cons a (ofLines source (line + 1) ls) := by
  rw [ofLines, if_neg hblank, h]
  cases a <;> rfl

theorem ofLines_cons_of_tooLong {source : Text} {line count : Nat} {l : Bytes}
    (hblank : ¬(trim l).isEmpty = true) (h : TooLong (trim l) count) (ls : List Bytes) :
    ofLines source line (l :: ls) = ⟨[], some (.tooManyDigits count)⟩ := by
  rw [ofLines, if_neg hblank, decodeBytes_eq_tooManyDigits_iff.2 h]

/-- Each line that is not blank gives one sample in its turn, up to the first that is too long. -/
theorem exists_read (source : Text) (line : Nat) (ls : List Bytes) : ∃ read rest,
    numbered line ls = read ++ rest ∧
    (ofLines source line ls).items.map (Except.mapError .skip) =
      read.map (fun s => decodeBytes s.1 source s.2) ∧
    (∀ s ∈ read, ∀ count, ¬TooLong s.1 count) ∧
    (rest = [] ∧ (ofLines source line ls).failure = none ∨
      ∃ s more count, rest = s :: more ∧ TooLong s.1 count ∧
        (ofLines source line ls).failure = some (.tooManyDigits count)) := by
  induction ls generalizing line with
  | nil => exact ⟨[], [], rfl, rfl, by simp, .inl ⟨rfl, rfl⟩⟩
  | cons l ls ih =>
    obtain ⟨read, rest, hsplit, hitems, hread, hrest⟩ := ih (line + 1)
    rw [numbered_cons]
    by_cases hblank : (trim l).isEmpty = true
    · rw [if_pos hblank, ofLines, if_pos hblank]
      exact ⟨read, rest, hsplit, hitems, hread, hrest⟩
    · rw [if_neg hblank]
      rcases exists_sample_or_tooLong (trim l) source line with ⟨a, hdecode, hshort⟩ | ⟨count, -, hlong⟩
      · rw [ofLines_cons_of_sample hblank hdecode]
        refine ⟨(trim l, line) :: read, rest, by rw [hsplit, List.cons_append], ?_,
          List.forall_mem_cons.2 ⟨hshort, hread⟩, hrest⟩
        rw [List.map_cons, hdecode, ← hitems]
        rfl
      · rw [ofLines_cons_of_tooLong hblank hlong]
        exact ⟨[], _, rfl, rfl, by simp, .inr ⟨_, _, count, rfl, hlong, rfl⟩⟩

/-- The reading gets to the end of the content unless a line is too long. What is read before are the
samples of the lines that are not blank, one for each. -/
theorem completes_iff (source : Text) (content : Bytes) :
    ((ofContent source content).failure = none ↔
      ∀ s ∈ numbered 1 (lines content), ∀ count, ¬TooLong s.1 count) ∧
    ∃ read rest, numbered 1 (lines content) = read ++ rest ∧
      (ofContent source content).items.map (Except.mapError .skip) =
        read.map (fun s => decodeBytes s.1 source s.2) ∧
      (∀ s ∈ read, ∀ count, ¬TooLong s.1 count) ∧
      (rest = [] ∧ (ofContent source content).failure = none ∨
        ∃ s more count, rest = s :: more ∧ TooLong s.1 count ∧
          (ofContent source content).failure = some (.tooManyDigits count)) := by
  obtain ⟨read, rest, hsplit, hitems, hread, hrest⟩ := exists_read source 1 (lines content)
  refine ⟨?_, read, rest, hsplit, hitems, hread, hrest⟩
  rw [hsplit]
  rcases hrest with ⟨rfl, hnone⟩ | ⟨s, more, count, rfl, hlong, hsome⟩
  · rw [List.append_nil]
    exact ⟨fun _ => hread, fun _ => hnone⟩
  · constructor
    · intro hnone
      rw [ofContent, hsome] at hnone
      cases hnone
    · intro hshort
      exact absurd hlong (hshort s (by simp) count)

/-! ## A line of digits -/

/-- A line of `n` ones. -/
def ones (n : Nat) : Bytes := List.replicate n 0x31

theorem encode_ones (n : Nat) : Utf8.encode (List.replicate n (CodePoint.ofChar '1')) = ones n := by
  induction n with
  | zero => rfl
  | succ n ih =>
    rw [List.replicate_succ, ones, List.replicate_succ, ← ones, ← ih]
    rfl

theorem longNumber_ones {n : Nat} (hn : Json.digitLimit < n) :
    Json.LongNumber (List.replicate n (CodePoint.ofChar '1')) n := by
  obtain ⟨n, rfl⟩ : ∃ m, n = m + 1 := ⟨n - 1, by omega⟩
  have hdigits : Json.Numeral.IsDigits (List.replicate (n + 1) (CodePoint.ofChar '1')) := by
    intro d hd
    rw [List.eq_of_mem_replicate hd]
    rfl
  refine ⟨[], List.replicate (n + 1) (CodePoint.ofChar '1'), [],
    ⟨false, List.replicate (n + 1) (CodePoint.ofChar '1'), [], none⟩, ?_, rfl, ?_, ?_, ?_⟩
  · rw [List.nil_append, List.append_nil]
  · refine ⟨?_, by simp [Json.Numeral.IsDigits], [], .none,
      by simp [Json.Numeral.signText, Json.Numeral.fractionText]⟩
    rw [List.replicate_succ] at hdigits ⊢
    exact .digits (by decide) hdigits
  · exact ⟨rfl, rfl, List.length_replicate, hn⟩
  · exact Json.delimited_nil.not_continues _

theorem tooLong_ones {n : Nat} (hn : Json.digitLimit < n) : TooLong (ones n) n := by
  refine ⟨_, ?_, longNumber_ones hn⟩
  have hscalar : ∀ c ∈ List.replicate n (CodePoint.ofChar '1'), c.isScalar = true := by
    intro c hc
    rw [List.eq_of_mem_replicate hc]
    rfl
  have hmark : ¬Utf8.mark.isPrefixOf (ones n) = true := by
    cases n <;> simp [ones, Utf8.mark, List.replicate_succ]
  rw [Utf8.decodeMarked, if_neg hmark, ← encode_ones, Utf8.decode_encode hscalar]

theorem trim_ones (n : Nat) : trim (ones n) = ones n := by
  have hdrop : ∀ m, (ones m).dropWhile isSpaceByte = ones m := by
    intro m
    cases m <;> rfl
  have hreverse : (ones n).reverse = ones n := List.reverse_replicate
  rw [trim, hdrop, hreverse, hdrop, hreverse]

/-- Behind a line of 4301 ones nothing is read any more, though one more line is not blank. -/
theorem long_number_ends_reading :
    let content : Bytes := ones 4301 ++ lineFeed :: [0x31]
    (numbered 1 (lines content)).map Prod.snd = [1, 2] ∧ (ofContent "s.jsonl" content).items = [] ∧
      (ofContent "s.jsonl" content).failure = some (.tooManyDigits 4301) := by
  intro content
  have hnot : ∀ b ∈ ones 4301, decide (b = lineFeed) = false := by
    intro b hb
    rw [List.eq_of_mem_replicate hb]
    rfl
  have hlines : lines content = [ones 4301, [0x31]] := by
    rw [lines_append, lines_eq_pieces (ones 4301), pieces_of_not_ends hnot]
    rfl
  have hblank : ¬(trim (ones 4301)).isEmpty = true := by
    rw [trim_ones, ones, List.replicate_succ]
    exact Bool.false_ne_true
  have hlong : TooLong (trim (ones 4301)) 4301 := by
    rw [trim_ones]
    exact tooLong_ones (by decide)
  rw [ofContent, hlines, ofLines_cons_of_tooLong hblank hlong, numbered_cons, if_neg hblank]
  exact ⟨rfl, rfl, rfl⟩

end Stream

end JsonShape.Samples
