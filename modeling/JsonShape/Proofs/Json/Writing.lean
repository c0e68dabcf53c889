import JsonShape.Proofs.Json.Reading
import JsonShape.Json.Writer
/-!
# JsonShape.Proofs.Json.Writing

Indented text, read back.

* `Json.Value.Textual`: values of strings, arrays and objects.
* `Json.read_indented`: the indented text of such a value is read as that value.
* `Json.Value.Textual.isLayout_of_mem`: it consists of printable ASCII and line feeds.
-/

namespace JsonShape.Json

/-- Strings, arrays and objects, at any depth, of literals that are read back. -/
inductive Value.Textual : Value → Prop where
  | string {s : Text} : s.unpaired = true → Textual (.string s)
  | array {vs : List Value} : (∀ v ∈ vs, Textual v) → Textual (.array vs)
  | object {fs : List (Text × Value)} : Entries.Distinct fs → (∀ f ∈ fs, f.1.unpaired = true) →
      (∀ f ∈ fs, Textual f.2) → Textual (.object fs)

/-! ## Space between the parts -/

/-- The first character is no space, and closes nothing. -/
def startsVisibly (t : Text) : Prop :=
  ∃ c rest, t = c :: rest ∧ isSpace c = false ∧ c ≠ ']' ∧ c ≠ '}'

theorem skipSpace_of_startsVisibly {t : Text} (h : startsVisibly t) : skipSpace t = t := by
  obtain ⟨c, rest, rfl, hc, -⟩ := h
  rw [skipSpace, List.dropWhile_cons, if_neg (Bool.eq_false_iff.1 hc)]

theorem startsVisibly_append {s : Text} (h : startsVisibly s) (t : Text) : startsVisibly (s ++ t) := by
  obtain ⟨c, rest, rfl, hc⟩ := h
  exact ⟨c, rest ++ t, rfl, hc⟩

theorem skipSpace_comma (t : Text) :
    skipSpace (CodePoint.ofChar ',' :: t) = CodePoint.ofChar ',' :: t :=
  skipSpace_of_startsVisibly ⟨_, t, rfl, rfl, by decide, by decide⟩

theorem skipSpace_colon (t : Text) :
    skipSpace (": " ++ t) = CodePoint.ofChar ':' :: CodePoint.ofChar ' ' :: t := rfl

theorem skipSpace_blank {t : Text} (h : startsVisibly t) :
    skipSpace (CodePoint.ofChar ' ' :: t) = t :=
  skipSpace_of_startsVisibly h

theorem skipSpace_newLine (level : Nat) (t : Text) : skipSpace (newLine level ++ t) = skipSpace t := by
  have hall : ∀ c ∈ newLine level, isSpace c = true := by
    intro c hc
    rcases List.mem_cons.1 hc with rfl | hc
    · rfl
    · rw [(List.mem_replicate.1 hc).2]
      rfl
  rw [skipSpace, List.dropWhile_append_of_pos hall]
  rfl

theorem startsVisibly_write (t : Text) : startsVisibly (StringLiteral.write t) :=
  ⟨_, _, rfl, rfl, by decide, by decide⟩

theorem startsVisibly_block {opening : Text} (h : startsVisibly opening) (closing : Text) (level : Nat)
    (items : List Text) : startsVisibly (block opening closing level items) := by
  rw [block]
  split
  · exact startsVisibly_append h _
  · rw [List.append_assoc, List.append_assoc, List.append_assoc]
    exact startsVisibly_append h _

theorem Value.Textual.startsVisibly {v : Value} (hv : v.Textual) (level : Nat) :
    startsVisibly (v.indentedAt level) := by
  cases hv with
  | string => exact startsVisibly_write _
  | array => exact startsVisibly_block ⟨_, _, rfl, rfl, by decide, by decide⟩ _ _ _
  | object => exact startsVisibly_block ⟨_, _, rfl, rfl, by decide, by decide⟩ _ _ _

/-! ## Steps of the readers -/

section Steps

variable {n : Nat} {t u : Text} {v : Value}

theorem readString_write {s : Text} (hs : s.unpaired = true) (t : Text) :
    ∃ body, StringLiteral.write s ++ t = CodePoint.ofChar '"' :: body ∧
      readString (CodePoint.ofChar '"' :: body) = .ok (s, t) := by
  have hread : readString (StringLiteral.write s ++ t) = .ok (s, t) := by
    rw [readString, StringLiteral.scan_write hs]
  exact ⟨_, rfl, hread⟩

theorem readsName_write {k : Text} (hk : k.unpaired = true) (ht : startsVisibly t) :
    ReadsName (StringLiteral.write k ++ (": " ++ t)) k t := by
  obtain ⟨body, hbody, hread⟩ := readString_write hk (": " ++ t)
  have := ReadsName.intro hread (skipSpace_colon t)
  rwa [skipSpace_blank ht, ← hbody] at this

theorem readValue_string {s : Text} (hs : s.unpaired = true) :
    readValue (n + 1) (StringLiteral.write s ++ t) = .ok (.string s, t) := by
  obtain ⟨body, hbody, hread⟩ := readString_write hs t
  rw [hbody]
  exact (ValueStep.string hread).eq

theorem readValue_array {rest : Text} {vs : List Value} (ht : skipSpace t = u) (hu : startsVisibly u)
    (hvs : readItems n u = .ok (vs, rest)) :
    readValue (n + 1) (CodePoint.ofChar '[' :: t) = .ok (.array vs, rest) := by
  obtain ⟨c, u, rfl, -, hc, -⟩ := hu
  exact (ValueStep.array ht hc hvs).eq

theorem readValue_object {rest : Text} {fs : List (Text × Value)} (ht : skipSpace t = u)
    (hu : startsVisibly u) (hfs : readFields n u = .ok (fs, rest)) :
    readValue (n + 1) (CodePoint.ofChar '{' :: t) = .ok (.object (Entries.ofPairs fs), rest) := by
  obtain ⟨c, u, rfl, -, -, hc⟩ := hu
  exact (ValueStep.object ht hc hfs).eq

end Steps

/-! ## Reading back -/

/-- Calls of twice the length of the text are enough. -/
def ReadsBack (v : Value) : Prop :=
  ∀ n level rest, 2 * (v.indentedAt level).length ≤ n + 1 →
    readValue n (v.indentedAt level ++ rest) = .ok (v, rest)

/-- The items of a block, or its fields, and what closes it. -/
def blockRest (level closing : Nat) (items : List Text) (bracket rest : Text) : Text :=
  Text.join ("," ++ newLine level) items ++ (newLine closing ++ (bracket ++ rest))

theorem blockRest_singleton (level closing : Nat) (t bracket rest : Text) :
    blockRest level closing [t] bracket rest = t ++ (newLine closing ++ (bracket ++ rest)) := by
  rw [blockRest, Text.join_singleton]

theorem blockRest_cons_cons (level closing : Nat) (t u : Text) (ts : List Text) (bracket rest : Text) :
    blockRest level closing (t :: u :: ts) bracket rest = t ++
      (CodePoint.ofChar ',' :: (newLine level ++ blockRest level closing (u :: ts) bracket rest)) := by
  rw [blockRest, Text.join_cons_cons, List.append_assoc, List.append_assoc, List.append_assoc]
  rfl

theorem startsVisibly_blockRest {t : Text} (ht : startsVisibly t) (level closing : Nat) (ts : List Text)
    (bracket rest : Text) : startsVisibly (blockRest level closing (t :: ts) bracket rest) := by
  cases ts with
  | nil =>
    rw [blockRest_singleton]
    exact startsVisibly_append ht _
  | cons u ts =>
    rw [blockRest_cons_cons]
    exact startsVisibly_append ht _

/-- What stands behind a comma. -/
theorem skipSpace_blockRest {t : Text} (ht : startsVisibly t) (level closing : Nat) (ts : List Text)
    (bracket rest : Text) :
    skipSpace (newLine level ++ blockRest level closing (t :: ts) bracket rest) =
      blockRest level closing (t :: ts) bracket rest := by
  have hvisible := startsVisibly_blockRest ht level closing ts bracket rest
  rw [skipSpace_newLine, skipSpace_of_startsVisibly hvisible]

theorem length_join_cons_cons (level : Nat) (t u : Text) (ts : List Text) :
    t.length + (Text.join ("," ++ newLine level) (u :: ts)).length + 1 ≤
      (Text.join ("," ++ newLine level) (t :: u :: ts)).length := by
  have hcomma : ("," : Text).length = 1 := rfl
  rw [Text.join_cons_cons, List.length_append, List.length_append, List.length_append, hcomma]
  omega

theorem readItems_indentedItems {vs : List Value} (hne : vs ≠ []) (htextual : ∀ v ∈ vs, v.Textual)
    (hvs : ∀ v ∈ vs, ReadsBack v) (n level closing : Nat) (rest : Text)
    (hn : 2 * (Text.join ("," ++ newLine level) (indentedItems level vs)).length ≤ n) :
    readItems n (blockRest level closing (indentedItems level vs) "]" rest) = .ok (vs, rest) := by
  induction vs generalizing n with
  | nil => exact absurd rfl hne
  | cons v vs ih =>
    obtain ⟨hv, hvs⟩ := List.forall_mem_cons.1 hvs
    obtain ⟨hvtextual, htextual⟩ := List.forall_mem_cons.1 htextual
    have hpositive : 0 < (v.indentedAt level).length := by
      obtain ⟨c, t, hvisible, -⟩ := hvtextual.startsVisibly level
      rw [hvisible]
      exact Nat.succ_pos _
    cases vs with
    | nil =>
      rw [indentedItems, indentedItems] at hn ⊢
      rw [Text.join_singleton] at hn
      obtain ⟨n, rfl⟩ : ∃ m, n = m + 1 := ⟨n - 1, by omega⟩
      rw [blockRest_singleton]
      exact (ItemsStep.last (hv n level _ (by omega)) (skipSpace_newLine closing _)).eq
    | cons w vs =>
      have hrest := ih (List.cons_ne_nil _ _) htextual hvs
      rw [indentedItems, indentedItems] at hn ⊢
      rw [indentedItems] at hrest
      have hlength := length_join_cons_cons level (v.indentedAt level) (w.indentedAt level)
        (indentedItems level vs)
      obtain ⟨n, rfl⟩ : ∃ m, n = m + 1 := ⟨n - 1, by omega⟩
      rw [blockRest_cons_cons]
      refine (ItemsStep.more (hv n level _ (by omega)) (skipSpace_comma _) ?_).eq
      rw [skipSpace_blockRest ((htextual w List.mem_cons_self).startsVisibly level)]
      exact hrest n (by omega)

theorem readFields_indentedFields {fs : List (Text × Value)} (hne : fs ≠ [])
    (hkeys : ∀ f ∈ fs, f.1.unpaired = true) (htextual : ∀ f ∈ fs, f.2.Textual)
    (hfs : ∀ f ∈ fs, ReadsBack f.2) (n level closing : Nat) (rest : Text)
    (hn : 2 * (Text.join ("," ++ newLine level) (indentedFields level fs)).length ≤ n) :
    readFields n (blockRest level closing (indentedFields level fs) "\x7d" rest) = .ok (fs, rest) := by
  induction fs generalizing n with
  | nil => exact absurd rfl hne
  | cons f fs ih =>
    obtain ⟨k, v⟩ := f
    obtain ⟨hk, hkeys⟩ := List.forall_mem_cons.1 hkeys
    obtain ⟨hv, hfs⟩ : ReadsBack v ∧ ∀ f ∈ fs, ReadsBack f.2 := List.forall_mem_cons.1 hfs
    obtain ⟨hvtextual, htextual⟩ : v.Textual ∧ ∀ f ∈ fs, f.2.Textual := List.forall_mem_cons.1 htextual
    have hvisible : ∀ rest, startsVisibly (v.indentedAt level ++ rest) :=
      startsVisibly_append (hvtextual.startsVisibly level)
    have hcolon : (": " : Text).length = 2 := rfl
    cases fs with
    | nil =>
      have hclose : skipSpace (newLine closing ++ ("\x7d" ++ rest)) = CodePoint.ofChar '}' :: rest :=
        skipSpace_newLine closing _
      rw [indentedFields, indentedFields] at hn ⊢
      rw [Text.join_singleton, List.length_append, List.length_append] at hn
      obtain ⟨n, rfl⟩ : ∃ m, n = m + 1 := ⟨n - 1, by omega⟩
      rw [blockRest_singleton, List.append_assoc, List.append_assoc]
      exact (FieldsStep.last (readsName_write hk (hvisible _)) (hv n level _ (by omega)) hclose).eq
    | cons g fs =>
      obtain ⟨l, w⟩ := g
      have hrest := ih (List.cons_ne_nil _ _) hkeys htextual hfs
      rw [indentedFields, indentedFields] at hn ⊢
      rw [indentedFields] at hrest
      have hlength := length_join_cons_cons level (StringLiteral.write k ++ ": " ++ v.indentedAt level)
        (StringLiteral.write l ++ ": " ++ w.indentedAt level) (indentedFields level fs)
      rw [List.length_append, List.length_append] at hlength
      obtain ⟨n, rfl⟩ : ∃ m, n = m + 1 := ⟨n - 1, by omega⟩
      rw [blockRest_cons_cons, List.append_assoc, List.append_assoc]
      refine (FieldsStep.more (readsName_write hk (hvisible _)) (hv n level _ (by omega))
        (skipSpace_comma _) ?_).eq
      rw [skipSpace_blockRest (startsVisibly_append (startsVisibly_append (startsVisibly_write l) _) _)]
      exact hrest n (by omega)

theorem length_block (opening closing : Text) (level : Nat) (items : List Text) :
    opening.length + (Text.join ("," ++ newLine (level + 1)) items).length + closing.length ≤
      (block opening closing level items).length := by
  rw [block]
  split
  · rename_i h
    rw [List.isEmpty_iff.1 h, List.length_append]
    simp [Text.join]
  · simp only [List.length_append]
    omega

theorem block_append {items : List Text} (h : items ≠ []) (opening closing : Text) (level : Nat)
    (rest : Text) : block opening closing level items ++ rest =
      opening ++ (newLine (level + 1) ++ blockRest (level + 1) level items closing rest) := by
  have hne : ¬items.isEmpty = true := by simpa using h
  rw [block, if_neg hne, blockRest]
  simp only [List.append_assoc]

theorem indentedAt_string (level : Nat) (s : Text) :
    Value.indentedAt level (.string s) = StringLiteral.write s := by
  simp [Value.indentedAt, Value.atom]

theorem readsBack_of_textual {v : Value} (hv : v.Textual) : ReadsBack v := by
  induction hv with
  | @string s hs =>
    intro n level rest hn
    rw [indentedAt_string] at hn ⊢
    obtain ⟨n, rfl⟩ : ∃ m, n = m + 1 := by
      rw [StringLiteral.write, List.length_cons, List.length_append, List.length_singleton] at hn
      exact ⟨n - 1, by omega⟩
    exact readValue_string hs
  | @array vs htextual ih =>
    intro n level rest hn
    rw [Value.indentedAt] at hn ⊢
    have hopening : ("[" : Text).length = 1 := rfl
    have hclosing : ("]" : Text).length = 1 := rfl
    have hlength := length_block "[" "]" level (indentedItems (level + 1) vs)
    obtain ⟨n, rfl⟩ : ∃ m, n = m + 1 := ⟨n - 1, by omega⟩
    cases vs with
    | nil => rfl
    | cons v vs =>
      have hitems := readItems_indentedItems (List.cons_ne_nil v vs) htextual ih n (level + 1) level rest
        (by omega)
      have hvisible := (htextual v List.mem_cons_self).startsVisibly (level + 1)
      rw [indentedItems] at hitems ⊢
      rw [block_append (List.cons_ne_nil _ _)]
      exact readValue_array (skipSpace_blockRest hvisible _ _ _ _ _)
        (startsVisibly_blockRest hvisible _ _ _ _ _) hitems
  | @object fs hd hkeys htextual ih =>
    intro n level rest hn
    rw [Value.indentedAt] at hn ⊢
    have hopening : ("\x7b" : Text).length = 1 := rfl
    have hclosing : ("\x7d" : Text).length = 1 := rfl
    have hlength := length_block "\x7b" "\x7d" level (indentedFields (level + 1) fs)
    obtain ⟨n, rfl⟩ : ∃ m, n = m + 1 := ⟨n - 1, by omega⟩
    cases fs with
    | nil => rfl
    | cons f fs =>
      have hfields := readFields_indentedFields (List.cons_ne_nil f fs) hkeys htextual ih n (level + 1)
        level rest (by omega)
      have hvisible : startsVisibly (StringLiteral.write f.1 ++ ": " ++ f.2.indentedAt (level + 1)) :=
        startsVisibly_append (startsVisibly_append (startsVisibly_write f.1) _) _
      rw [indentedFields] at hfields ⊢
      rw [block_append (List.cons_ne_nil _ _)]
      have hread := readValue_object (skipSpace_blockRest hvisible _ _ _ _ _)
        (startsVisibly_blockRest hvisible _ _ _ _ _) hfields
      rw [Entries.ofPairs_of_distinct hd] at hread
      exact hread

/-! ## The characters of indented text -/

/-- A printable character of ASCII or a line feed. -/
def isLayout (c : CodePoint) : Bool := c.isPlain || c = .newline

theorem isScalar_of_isLayout {c : CodePoint} (h : isLayout c = true) : c.isScalar = true := by
  rw [isLayout, Bool.or_eq_true, decide_eq_true_eq] at h
  rcases h with h | rfl
  · have hbound : c.toNat ≤ 0x7E := of_decide_eq_true (Bool.and_eq_true_iff.1 h).2
    have hhigh : c.isHighSurrogate = false := by
      rw [CodePoint.isHighSurrogate, decide_eq_false (by omega), Bool.false_and]
    have hlow : c.isLowSurrogate = false := by
      rw [CodePoint.isLowSurrogate, decide_eq_false (by omega), Bool.false_and]
    rw [CodePoint.isScalar, hhigh, hlow]
    rfl
  · rfl

theorem mem_join {sep : Text} {ts : List Text} {c : CodePoint} (hc : c ∈ Text.join sep ts) :
    c ∈ sep ∨ ∃ t ∈ ts, c ∈ t := by
  cases ts with
  | nil => cases hc
  | cons t ts =>
    rw [Text.join, List.mem_append, List.mem_flatMap] at hc
    rcases hc with hc | ⟨u, hu, hc⟩
    · exact .inr ⟨t, List.mem_cons_self, hc⟩
    · rcases List.mem_append.1 hc with hc | hc
      · exact .inl hc
      · exact .inr ⟨u, List.mem_cons_of_mem _ hu, hc⟩

theorem isLayout_of_mem_newLine {level : Nat} {c : CodePoint} (hc : c ∈ newLine level) :
    isLayout c = true := by
  rcases List.mem_cons.1 hc with rfl | hc
  · rfl
  · rw [(List.mem_replicate.1 hc).2]
    rfl

theorem isLayout_of_mem_block {opening closing : Text} {level : Nat} {items : List Text}
    (hopening : ∀ c ∈ opening, isLayout c = true) (hclosing : ∀ c ∈ closing, isLayout c = true)
    (hitems : ∀ t ∈ items, ∀ c ∈ t, isLayout c = true) {c : CodePoint}
    (hc : c ∈ block opening closing level items) : isLayout c = true := by
  rw [block] at hc
  split at hc
  · exact (List.mem_append.1 hc).elim (hopening c) (hclosing c)
  · simp only [List.mem_append] at hc
    rcases hc with (((hc | hc) | hc) | hc) | hc
    · exact hopening c hc
    · exact isLayout_of_mem_newLine hc
    · rcases mem_join hc with hc | ⟨t, ht, hc⟩
      · rcases List.mem_append.1 hc with hc | hc
        · rw [List.mem_singleton.1 hc]
          rfl
        · exact isLayout_of_mem_newLine hc
      · exact hitems t ht c hc
    · exact isLayout_of_mem_newLine hc
    · exact hclosing c hc

theorem mem_indentedItems {level : Nat} {vs : List Value} {t : Text} (ht : t ∈ indentedItems level vs) :
    ∃ v ∈ vs, t = v.indentedAt level := by
  induction vs with
  | nil => cases ht
  | cons v vs ih =>
    rw [indentedItems] at ht
    rcases List.mem_cons.1 ht with rfl | ht
    · exact ⟨v, List.mem_cons_self, rfl⟩
    · obtain ⟨w, hw, rfl⟩ := ih ht
      exact ⟨w, List.mem_cons_of_mem _ hw, rfl⟩

theorem mem_indentedFields {level : Nat} {fs : List (Text × Value)} {t : Text}
    (ht : t ∈ indentedFields level fs) :
    ∃ f ∈ fs, t = StringLiteral.write f.1 ++ ": " ++ f.2.indentedAt level := by
  induction fs with
  | nil => cases ht
  | cons f fs ih =>
    rw [indentedFields] at ht
    rcases List.mem_cons.1 ht with rfl | ht
    · exact ⟨f, List.mem_cons_self, rfl⟩
    · obtain ⟨g, hg, rfl⟩ := ih ht
      exact ⟨g, List.mem_cons_of_mem _ hg, rfl⟩

theorem isLayout_of_mem_write {t : Text} {c : CodePoint} (hc : c ∈ StringLiteral.write t) :
    isLayout c = true := by
  rw [isLayout, StringLiteral.isPlain_of_mem_write hc, Bool.true_or]

theorem Value.Textual.isLayout_of_mem {v : Value} (hv : v.Textual) {level : Nat} {c : CodePoint}
    (hc : c ∈ v.indentedAt level) : isLayout c = true := by
  induction hv generalizing level c with
  | string =>
    rw [indentedAt_string] at hc
    exact isLayout_of_mem_write hc
  | array _ ih =>
    rw [Value.indentedAt] at hc
    refine isLayout_of_mem_block (by decide) (by decide) (fun t ht c hc => ?_) hc
    obtain ⟨v, hv, rfl⟩ := mem_indentedItems ht
    exact ih v hv hc
  | object _ _ _ ih =>
    rw [Value.indentedAt] at hc
    refine isLayout_of_mem_block (by decide) (by decide) (fun t ht c hc => ?_) hc
    obtain ⟨f, hf, rfl⟩ := mem_indentedFields ht
    rw [List.mem_append, List.mem_append] at hc
    rcases hc with (hc | hc) | hc
    · exact isLayout_of_mem_write hc
    · have hcolon : ∀ c ∈ (": " : Text), isLayout c = true := by decide
      exact hcolon c hc
    · exact ih f hf hc

/-! ## Whole texts -/

theorem read_indented {v : Value} (hv : v.Textual) : read v.indented = .ok v := by
  have hvisible : startsVisibly v.indented := hv.startsVisibly 0
  have henough : 2 * (v.indentedAt 0).length ≤ callBound v.indented + 1 := by
    rw [callBound, Value.indented]
    omega
  have hread := readsBack_of_textual hv (callBound v.indented) 0 [] henough
  rw [List.append_nil, ← Value.indented] at hread
  have hmark : ¬v.indented.head? = some (CodePoint.ofNat 0xFEFF) := by
    intro hhead
    have := hv.isLayout_of_mem (List.mem_of_mem_head? hhead)
    cases this
  rw [read, readWhole, if_neg hmark, skipSpace_of_startsVisibly hvisible, hread]
  rfl

end JsonShape.Json
