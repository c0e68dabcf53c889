import JsonShape.Proofs.Text.Pieces
import JsonShape.Proofs.Text.Utf8
import JsonShape.Samples.Line
/-!
# JsonShape.Proofs.Samples.Line

Samples are what is left of lines without the space around them. It does not matter for them whether
carriage returns end lines too, as long as none stands inside a sample.

* `Samples.bare`: the lines that are not blank, trimmed.
* `Samples.bare_lines_unifyNewlines`: unifying line ends makes every carriage return end a line.
* `Samples.bare_lines_unifyNewlines_eq_iff`: so it leaves just the samples without one as they are.
-/

namespace JsonShape.Samples

/-! ## Space -/

/-- The lines that are not blank, without the space around them. -/
def bare (ls : List Bytes) : List Bytes := (ls.map trim).filter fun l => !l.isEmpty

def IsSpace (l : Bytes) : Prop := ∀ b ∈ l, isSpaceByte b = true

theorem trim_space_append {a : Bytes} (ha : IsSpace a) (l : Bytes) : trim (a ++ l) = trim l := by
  rw [trim, List.dropWhile_append_of_pos ha, trim]

theorem trim_append_space {a : Bytes} (ha : IsSpace a) (l : Bytes) : trim (l ++ a) = trim l := by
  have ha' : ∀ b ∈ a.reverse, isSpaceByte b = true := fun b hb => ha b (List.mem_reverse.1 hb)
  rw [trim, trim, List.dropWhile_append]
  split
  · rename_i hblank
    rw [List.isEmpty_iff.1 hblank, ← List.append_nil a, List.dropWhile_append_of_pos ha]
    rfl
  · rw [List.reverse_append, List.dropWhile_append_of_pos ha']

theorem isSpace_takeWhile (l : Bytes) : IsSpace (l.takeWhile isSpaceByte) :=
  fun b hb => List.all_eq_true.1 List.all_takeWhile b hb

/-- Behind its leading space a line begins with its trimmed part. -/
theorem exists_space_behind (l : Bytes) :
    ∃ b, IsSpace b ∧ l = l.takeWhile isSpaceByte ++ (trim l ++ b) := by
  have hright := List.takeWhile_append_dropWhile (p := isSpaceByte) (l := (l.dropWhile isSpaceByte).reverse)
  have hsplit := congrArg List.reverse hright
  rw [List.reverse_append, List.reverse_reverse] at hsplit
  refine ⟨((l.dropWhile isSpaceByte).reverse.takeWhile isSpaceByte).reverse,
    fun b hb => isSpace_takeWhile _ b (List.mem_reverse.1 hb), ?_⟩
  rw [trim, hsplit, List.takeWhile_append_dropWhile]

/-- A line is its trimmed part with space on both sides. -/
theorem exists_space_around (l : Bytes) : ∃ a b, IsSpace a ∧ IsSpace b ∧ l = a ++ (trim l ++ b) := by
  obtain ⟨b, hb, hl⟩ := exists_space_behind l
  exact ⟨_, b, isSpace_takeWhile l, hb, hl⟩

theorem trim_trim (l : Bytes) : trim (trim l) = trim l := by
  obtain ⟨a, b, ha, hb, hl⟩ := exists_space_around l
  have := congrArg trim hl
  rwa [trim_space_append ha, trim_append_space hb, eq_comm] at this

theorem trim_eq_nil_of_isSpace {l : Bytes} (hl : IsSpace l) : trim l = [] := by
  have := trim_space_append hl []
  rwa [List.append_nil] at this

theorem mem_bare {ls : List Bytes} {s : Bytes} : s ∈ bare ls ↔ ∃ l ∈ ls, trim l = s ∧ s ≠ [] := by
  simp only [bare, List.mem_filter, List.mem_map, Bool.not_eq_true', List.isEmpty_eq_false_iff]
  constructor
  · rintro ⟨⟨l, hl, heq⟩, hne⟩
    exact ⟨l, hl, heq, hne⟩
  · rintro ⟨l, hl, heq, hne⟩
    exact ⟨⟨l, hl, heq⟩, hne⟩

theorem bare_append (ls ms : List Bytes) : bare (ls ++ ms) = bare ls ++ bare ms := by
  rw [bare, List.map_append, List.filter_append]
  rfl

theorem bare_cons (l : Bytes) (ls : List Bytes) : bare (l :: ls) = bare [l] ++ bare ls :=
  bare_append [l] ls

theorem bare_flatMap {f : Bytes → List Bytes} {ls : List Bytes}
    (h : ∀ l ∈ ls, bare (f l) = bare [l]) : bare (ls.flatMap f) = bare ls := by
  induction ls with
  | nil => rfl
  | cons l ls ih =>
    obtain ⟨hl, hls⟩ := List.forall_mem_cons.1 h
    rw [List.flatMap_cons, bare_append, hl, ih hls]
    exact (bare_cons l ls).symm

theorem bare_congr {l m : Bytes} (h : trim l = trim m) : bare [l] = bare [m] := by
  rw [bare, bare, List.map_singleton, List.map_singleton, h]

theorem bare_eq_nil {ls : List Bytes} (h : ∀ l ∈ ls, IsSpace l) : bare ls = [] := by
  induction ls with
  | nil => rfl
  | cons l ls ih =>
    obtain ⟨hl, hls⟩ := List.forall_mem_cons.1 h
    rw [bare_cons, ih hls, bare, List.map_singleton, trim_eq_nil_of_isSpace hl]
    rfl

theorem lines_eq_pieces (bs : Bytes) : lines bs = pieces (· = lineFeed) bs := by
  induction bs with
  | nil => rfl
  | cons b bs ih =>
    rw [pieces, ← ih, lines, List.foldr_cons, ← lines]
    by_cases hb : b = lineFeed
    · rw [if_pos hb, if_pos (decide_eq_true hb)]
    · rw [if_neg hb, if_neg (by simpa using hb)]
      cases lines bs <;> rfl

/-! ## Carriage returns -/

def carriageReturn : UInt8 := 0x0D

/-- Whether a byte is a line feed or a carriage return. -/
def endsAnyLine (b : UInt8) : Bool := b = lineFeed || b = carriageReturn

theorem bare_pieces_space_append (ends : UInt8 → Bool) {a : Bytes} (ha : IsSpace a) (x : Bytes) :
    bare (pieces ends (a ++ x)) = bare (pieces ends x) := by
  induction a with
  | nil => rfl
  | cons c a ih =>
    obtain ⟨hc, ha⟩ := List.forall_mem_cons.1 ha
    rw [List.cons_append, ← ih ha]
    by_cases hends : ends c = true
    · rw [pieces_cons_of_ends hends]
      rfl
    · obtain ⟨m, ms, hpieces⟩ := exists_pieces_eq_cons ends (a ++ x)
      have htrim := trim_space_append (List.forall_mem_singleton.2 hc) m
      rw [pieces_cons_of_not_ends (Bool.not_eq_true _ ▸ hends) hpieces, hpieces, bare_cons, bare_cons m]
      exact congrArg (· ++ bare ms) (bare_congr htrim)

/-- Where only the space around a line has bytes that end pieces, the line is in one of them. -/
theorem bare_pieces_of_trim {ends : UInt8 → Bool} {l : Bytes} (hl : ∀ b ∈ trim l, ends b = false) :
    bare (pieces ends l) = bare [l] := by
  obtain ⟨a, b, ha, hb, hsplit⟩ := exists_space_around l
  obtain ⟨m, ms, hpieces⟩ := exists_pieces_eq_cons ends b
  have hspace : ∀ n ∈ m :: ms, IsSpace n := fun n hn c hc =>
    hb c (mem_of_mem_pieces (hpieces ▸ hn) hc).1
  obtain ⟨hm, hms⟩ := List.forall_mem_cons.1 hspace
  have hline : bare (pieces ends l) = bare [trim l ++ m] := by
    rw [hsplit, bare_pieces_space_append ends ha, ← hsplit, pieces_append_of_not_ends hl hpieces, bare_cons,
      bare_eq_nil hms, List.append_nil]
  rw [hline]
  exact bare_congr ((trim_append_space hm _).trans (trim_trim l))

/-- Carriage returns around samples may as well end lines. -/
theorem bare_pieces_of_not_mem {bs : Bytes} (h : ∀ l ∈ lines bs, carriageReturn ∉ trim l) :
    bare (pieces endsAnyLine bs) = bare (lines bs) := by
  have hends : ∀ b, decide (b = lineFeed) = true → endsAnyLine b = true := by
    simp +contextual [endsAnyLine]
  have hlines : ∀ l ∈ lines bs, bare (pieces endsAnyLine l) = bare [l] := by
    intro l hl
    refine bare_pieces_of_trim fun b hb => ?_
    obtain ⟨a, c, -, -, hsplit⟩ := exists_space_around l
    rw [lines_eq_pieces] at hl
    have hmem : b ∈ l := by
      rw [hsplit]
      exact List.mem_append_right a (List.mem_append_left c hb)
    have hfeed := (mem_of_mem_pieces hl hmem).2
    have hreturn : b ≠ carriageReturn := fun e => h l (lines_eq_pieces bs ▸ hl) (e ▸ hb)
    rw [endsAnyLine, hfeed, Bool.false_or]
    exact decide_eq_false hreturn
  rw [pieces_eq_flatMap hends, ← lines_eq_pieces, bare_flatMap hlines]

/-! ## Unifying line ends -/

theorem not_endsAnyLine_of_mem_encodeOne {c : CodePoint} (hfeed : c ≠ .newline)
    (hreturn : c ≠ .carriageReturn) : ∀ b ∈ Utf8.encodeOne c, endsAnyLine b = false := by
  intro b hb
  have hne : ∀ d : CodePoint, c ≠ d → d.toNat < 0x80 → b.toNat ≠ d.toNat := by
    intro d hcd hd heq
    rcases Utf8.toNat_of_mem_encodeOne hb with h | h
    · exact hcd (CodePoint.ext (h.symm.trans heq))
    · omega
  have h₁ : b ≠ lineFeed := fun e => hne _ hfeed (by decide) (e ▸ rfl)
  have h₂ : b ≠ carriageReturn := fun e => hne _ hreturn (by decide) (e ▸ rfl)
  simp [endsAnyLine, h₁, h₂]

theorem bare_lines_of_not_ends {x : Bytes} (hx : ∀ b ∈ x, endsAnyLine b = false) :
    bare (lines x) = bare (pieces endsAnyLine x) := by
  have hx' : ∀ b ∈ x, decide (b = lineFeed) = false := by
    intro b hb
    have := hx b hb
    rw [endsAnyLine, Bool.or_eq_false_iff] at this
    exact this.1
  rw [lines_eq_pieces, pieces_of_not_ends hx, pieces_of_not_ends hx']

/-- Behind the bytes `x` of an unfinished line. After a carriage return there are none. -/
theorem bare_lines_unifiedFrom (t : Text) (pending : Bool) (x : Bytes)
    (hx : ∀ b ∈ x, endsAnyLine b = false) (hpending : pending = true → x = []) :
    bare (lines (x ++ Utf8.encode (Text.unifiedFrom pending t))) =
      bare (pieces endsAnyLine (x ++ Utf8.encode t)) := by
  have hfeed : endsAnyLine lineFeed = true := by decide
  induction t generalizing pending x with
  | nil => simpa [Text.unifiedFrom, Utf8.encode] using bare_lines_of_not_ends hx
  | cons c t ih =>
    have hrest : ∀ p, bare (lines (Utf8.encode (Text.unifiedFrom p t))) =
        bare (pieces endsAnyLine (Utf8.encode t)) := fun p =>
      ih p [] (by simp) (fun _ => rfl)
    have hend : ∀ (b : UInt8) (p : Bool), endsAnyLine b = true →
        bare (lines (x ++ lineFeed :: Utf8.encode (Text.unifiedFrom p t))) =
          bare (pieces endsAnyLine (x ++ b :: Utf8.encode t)) := by
      intro b p hb
      rw [lines_eq_pieces, pieces_append_cons (by decide), pieces_append_cons hb, bare_append, bare_append,
        ← lines_eq_pieces, ← lines_eq_pieces, bare_lines_of_not_ends hx, hrest]
    rw [Text.unifiedFrom]
    split
    · rename_i hc
      subst hc
      exact hend carriageReturn true (by decide)
    · rename_i hreturn
      split
      · rename_i hc
        obtain ⟨hc, hpend⟩ := Bool.and_eq_true_iff.1 hc
        obtain rfl := of_decide_eq_true hc
        obtain rfl := hpending hpend
        -- The line feed behind a carriage return ends a part with nothing in it.
        show bare (lines (Utf8.encode _)) = bare (pieces endsAnyLine (lineFeed :: Utf8.encode t))
        rw [pieces_cons_of_ends hfeed, hrest]
        rfl
      · by_cases hc : c = .newline
        · subst hc
          exact hend lineFeed false hfeed
        · have hone := not_endsAnyLine_of_mem_encodeOne hc hreturn
          have := ih false (x ++ Utf8.encodeOne c) (List.forall_mem_append.2 ⟨hx, hone⟩)
            (fun h => absurd h Bool.false_ne_true)
          rwa [List.append_assoc, List.append_assoc] at this

/-- Text with its line ends unified has the samples of its pieces between any line ends. -/
theorem bare_lines_unifyNewlines {bs : Bytes} {t : Text} (h : Utf8.decode bs = .ok t) :
    bare (lines (Utf8.encode (Text.unifyNewlines t))) = bare (pieces endsAnyLine bs) := by
  rw [Text.unifyNewlines_eq, ← Utf8.encode_of_decode h]
  exact bare_lines_unifiedFrom t false [] (by simp) (fun _ => rfl)

/-- Then the samples are those of the lines just if none has a carriage return in it. -/
theorem bare_lines_unifyNewlines_eq_iff {bs : Bytes} {t : Text} (h : Utf8.decode bs = .ok t) :
    bare (lines (Utf8.encode (Text.unifyNewlines t))) = bare (lines bs) ↔
      ∀ l ∈ lines bs, carriageReturn ∉ trim l := by
  rw [bare_lines_unifyNewlines h]
  refine ⟨fun heq l hl hmem => ?_, bare_pieces_of_not_mem⟩
  have hbare : trim l ∈ bare (pieces endsAnyLine bs) := by
    rw [heq]
    exact mem_bare.2 ⟨l, hl, rfl, List.ne_nil_of_mem hmem⟩
  obtain ⟨piece, hpiece, htrim, -⟩ := mem_bare.1 hbare
  obtain ⟨a, b, -, -, hsplit⟩ := exists_space_around piece
  have hin : carriageReturn ∈ piece := by
    rw [hsplit, htrim]
    exact List.mem_append_right a (List.mem_append_left b hmem)
  exact absurd (mem_of_mem_pieces hpiece hin).2 (by decide)

end JsonShape.Samples
