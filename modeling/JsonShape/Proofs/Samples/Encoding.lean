import JsonShape.Proofs.Text.Utf8
import JsonShape.Samples.Decode
/-!
# JsonShape.Proofs.Samples.Encoding

Samples as text and as bytes.

* `Utf8.decodeMarked_encode`: the bytes of a text are read as that text without the mark in front of it.
* `Samples.SampleFault.IsOf`: a fault that tells where a text is no JSON value, by characters.
* `Samples.decodeBytes_encode`: the bytes of a text decode as the text does.
-/

namespace JsonShape

namespace Utf8

/-- The byte order mark as a character. -/
def markCharacter : CodePoint := CodePoint.ofNat 0xFEFF

theorem encode_cons (c : CodePoint) (t : Text) : encode (c :: t) = encodeOne c ++ encode t :=
  List.flatMap_cons

theorem encodeOne_markCharacter : encodeOne markCharacter = mark := by decide

/-- What is decoded stays. -/
theorem reverse_prefix_of_decodeFrom {bs : Bytes} {offset : Nat} {pending : Option Pending}
    {done t : Text} (h : decodeFrom bs offset pending done = .ok t) : done.reverse <+: t := by
  have hcons : ∀ {c : CodePoint} {done : Text}, (c :: done).reverse <+: t → done.reverse <+: t := by
    intro c done h
    rw [List.reverse_cons] at h
    exact (List.prefix_append _ _).trans h
  fun_induction decodeFrom bs offset pending done with
  | case1 =>
    cases h
    exact List.prefix_refl _
  | case2 | case5 | case8 => cases h
  | case3 _ _ _ _ _ _ ih => exact hcons (ih h)
  | case4 _ _ _ _ _ _ ih => exact ih h
  | case6 _ _ _ _ _ _ _ _ ih => exact hcons (ih h)
  | case7 _ _ _ _ _ _ _ _ _ ih => exact ih h

/-- The bytes of the mark begin no other character. -/
theorem mark_prefix_encode_iff {t : Text} (ht : ∀ c ∈ t, c.isScalar = true) :
    mark <+: encode t ↔ t.head? = some markCharacter := by
  constructor
  · rintro ⟨rest, hrest⟩
    have hdecode := decode_encode ht
    have hmark : markCharacter.isScalar = true := by decide
    rw [decode, ← hrest, ← encodeOne_markCharacter, decodeFrom_encodeOne hmark] at hdecode
    obtain ⟨u, rfl⟩ := reverse_prefix_of_decodeFrom hdecode
    rfl
  · intro h
    obtain ⟨u, rfl⟩ := List.head?_eq_some_iff.1 h
    rw [encode_cons, encodeOne_markCharacter]
    exact List.prefix_append _ _

theorem decodeMarked_encode {t : Text} (ht : ∀ c ∈ t, c.isScalar = true) :
    decodeMarked (encode t) = .ok (if t.head? = some markCharacter then t.tail else t) := by
  rw [decodeMarked]
  by_cases hmark : t.head? = some markCharacter
  · rw [if_pos (List.isPrefixOf_iff_prefix.2 ((mark_prefix_encode_iff ht).2 hmark)), if_pos hmark]
    obtain ⟨u, rfl⟩ := List.head?_eq_some_iff.1 hmark
    rw [encode_cons, encodeOne_markCharacter]
    exact decode_encode (List.forall_mem_cons.1 ht).2
  · rw [if_neg fun h => hmark ((mark_prefix_encode_iff ht).1 (List.isPrefixOf_iff_prefix.1 h)),
      if_neg hmark]
    exact decode_encode ht

end Utf8

/-- Places count characters, those before the place and those behind the last line feed among them. -/
theorem Json.exists_before_of_read {t : Text} {f : Json.Fault} (h : Json.read t = .error (.malformed f)) :
    ∃ before here, t = before ++ here ∧ f.position.offset = before.length ∧
      f.position.column = (before.reverse.takeWhile (· ≠ .newline)).length + 1 := by
  rw [Json.read] at h
  split at h
  · rename_i stop hstop
    cases stop with
    | tooManyDigits n => cases h
    | fault cause rest =>
      cases h
      have hlen : (t.take (t.length - rest.length)).length = t.length - rest.length := by
        rw [List.length_take]
        omega
      exact ⟨_, _, (List.take_append_drop (t.length - rest.length) t).symm, hlen.symm, rfl⟩
  · cases h

namespace Samples

/-- The fault is why the text `t` is no JSON value, and its column counts the characters of `t` before the
place that is named, from the last line feed on. -/
def SampleFault.IsOf (f : SampleFault) (t : Text) : Prop :=
  ∃ fault, Json.read t = .error (.malformed fault) ∧ f.message = fault.cause.message ∧
    ∃ before here, t = before ++ here ∧ fault.position.offset = before.length ∧
      f.column = (before.reverse.takeWhile (· ≠ .newline)).length + 1

theorem isOf_of_decodeText {t source : Text} {line : Int} {f : SampleFault}
    (h : decodeText t source line = .error (.skip f)) :
    f.source = source ∧ f.line = line ∧ f.IsOf t := by
  rw [decodeText] at h
  split at h
  · cases h
  · rename_i fault hread
    cases h
    obtain ⟨before, here, ht, hoffset, hcolumn⟩ := Json.exists_before_of_read hread
    refine ⟨rfl, rfl, fault, hread, rfl, before, here, ht, hoffset, ?_⟩
    show (fault.position.column : Int) = _
    rw [hcolumn]
    rfl
  · cases h

/-- The bytes of a text have the value or the fault of the text, or end the reading for the same reason,
wherever the text is from. Of a text that begins with a byte order mark they have what is behind it. Either
way the column of a fault counts characters and not bytes. -/
theorem decodeBytes_encode {t : Text} (ht : ∀ c ∈ t, c.isScalar = true) (source : Text) (line : Int) :
    (t.head? ≠ some Utf8.markCharacter →
      decodeBytes (Utf8.encode t) source line = decodeText t source line ∧
      ∀ f, decodeBytes (Utf8.encode t) source line = .error (.skip f) →
        f.source = source ∧ f.line = line ∧ f.IsOf t) ∧
    ∀ rest, t = Utf8.markCharacter :: rest →
      decodeBytes (Utf8.encode t) source line = decodeText rest source line ∧
      ∀ f, decodeBytes (Utf8.encode t) source line = .error (.skip f) →
        f.source = source ∧ f.line = line ∧ f.IsOf rest := by
  have hdecode : decodeBytes (Utf8.encode t) source line =
      decodeText (if t.head? = some Utf8.markCharacter then t.tail else t) source line := by
    rw [decodeBytes, Utf8.decodeMarked_encode ht]
  constructor
  · intro hmark
    rw [if_neg hmark] at hdecode
    exact ⟨hdecode, fun f hf => isOf_of_decodeText (hdecode ▸ hf)⟩
  · rintro rest rfl
    exact ⟨hdecode, fun f hf => isOf_of_decodeText (hdecode ▸ hf)⟩

/-- Characters of two and of four bytes stand before the place, and a mark in front of the text. -/
theorem decodeBytes_encode_wide :
    let t : Text := "\x7b\"é😀\" 1"
    ((∀ c ∈ Utf8.markCharacter :: t, c.isScalar = true) ∧ t.head? ≠ some Utf8.markCharacter) ∧
      decodeBytes (Utf8.encode t) "s" 3 = .error (.skip ⟨"s", 3, 7, "Expecting ':' delimiter"⟩) ∧
      decodeBytes (Utf8.encode (Utf8.markCharacter :: t)) "s" 3 =
        .error (.skip ⟨"s", 3, 7, "Expecting ':' delimiter"⟩) := by
  intro t
  have hmarked : ∀ c ∈ Utf8.markCharacter :: t, c.isScalar = true := by decide
  have hscalar : ∀ c ∈ t, c.isScalar = true := (List.forall_mem_cons.1 hmarked).2
  have hhead : t.head? ≠ some Utf8.markCharacter := by decide
  have htext : decodeText t "s" 3 = .error (.skip ⟨"s", 3, 7, "Expecting ':' delimiter"⟩) := rfl
  refine ⟨⟨hmarked, hhead⟩, ?_, ?_⟩
  · rw [((decodeBytes_encode hscalar "s" 3).1 hhead).1, htext]
  · rw [((decodeBytes_encode hmarked "s" 3).2 t rfl).1, htext]

end Samples

end JsonShape
