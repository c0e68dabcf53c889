import JsonShape.Proofs.Json.Writing
import JsonShape.Proofs.TypeScript.Expression
/-!
# JsonShape.Proofs.TypeScript.PropertyName

The names of properties and the keys that they stand for.

* `TypeScript.Proper`: a bare name for itself, or a string literal that is read as the key.
* `TypeScript.Property`: what a name in a declaration stands for; space behind it is no part of it.
* `TypeScript.propertyNames_denote`: the names in an interface are proper ones and stand for the keys of
  its object, but for keys that are a bare name and a line feed.
* `TypeScript.final_newline_loses_key`: such a key gets the property of the bare name.
-/

namespace JsonShape

namespace Text

theorem isPropertyCharacter_of_mem {t : Text} (h : isBareName t = true) :
    ∀ c ∈ t, isPropertyCharacter c = true := by
  rw [isBareName, Bool.and_eq_true, List.all_eq_true] at h
  exact h.2

theorem newline_not_mem {t : Text} (h : isBareName t = true) : CodePoint.newline ∉ t := fun hmem =>
  absurd (isPropertyCharacter_of_mem h _ hmem) (by decide)

theorem isPropertyName_eq (t : Text) : isPropertyName t = isBareName (dropFinalNewline t) := by
  rw [isPropertyName]
  generalize dropFinalNewline t = s
  cases s with
  | nil => rfl
  | cons c rest =>
    show (isPropertyStart c && rest.all isPropertyCharacter) = _
    rw [isBareName, List.head?_cons, Option.any_some, List.all_cons, isPropertyCharacter]
    cases isPropertyStart c <;> simp

/-- The test lets a bare name pass, and one with a line feed behind it. -/
theorem isPropertyName_iff {t : Text} : isPropertyName t = true ↔
    isBareName t = true ∨ ∃ b, isBareName b = true ∧ t = b ++ [.newline] := by
  rw [isPropertyName_eq, dropFinalNewline]
  split
  · rename_i hlast
    obtain ⟨b, rfl⟩ := List.getLast?_eq_some_iff.1 hlast
    rw [List.dropLast_concat]
    constructor
    · exact fun h => .inr ⟨b, h, rfl⟩
    · rintro (h | ⟨b', h, heq⟩)
      · exact absurd (by simp) (newline_not_mem h)
      · rwa [List.append_cancel_right heq]
  · rename_i hlast
    constructor
    · exact .inl
    · rintro (h | ⟨b, -, rfl⟩)
      · exact h
      · exact absurd List.getLast?_concat hlast

end Text

namespace TypeScript

open Json.StringLiteral (quote)

/-- How the name of a property is to be written for a key. -/
inductive Proper (key : Text) : (name : Text) → Prop where
  | bare : Text.isBareName key = true → Proper key key
  | literal {body : Text} : (∀ c ∈ body, 0x20 ≤ c.toNat) →
      Json.read (quote :: (body ++ [quote])) = .ok (.string key) → Proper key (quote :: (body ++ [quote]))

/-- What a name in a declaration stands for: a bare name for itself, and space behind it is no part of
it; a string literal for what it is read as. -/
inductive Property : (name key : Text) → Prop where
  | bare {key space : Text} : Text.isBareName key = true → (∀ c ∈ space, Json.isSpace c = true) →
      Property (key ++ space) key
  | literal {name key : Text} : name.head? = some quote → Json.read name = .ok (.string key) →
      Property name key

theorem Proper.property {key name : Text} (h : Proper key name) : Property name key := by
  cases h with
  | bare h =>
    have hname : Property (key ++ []) key := .bare h (by simp)
    rwa [List.append_nil] at hname
  | literal _ h => exact .literal rfl h

theorem takeWhile_bare {key space : Text} (hkey : Text.isBareName key = true)
    (hspace : ∀ c ∈ space, Json.isSpace c = true) :
    (key ++ space).takeWhile Text.isPropertyCharacter = key := by
  have hnone : space.takeWhile Text.isPropertyCharacter = [] := by
    cases space with
    | nil => rfl
    | cons c space =>
      have hc : Text.isPropertyCharacter c = false := by
        have := hspace c List.mem_cons_self
        simp only [Json.isSpace, Bool.or_eq_true, decide_eq_true_eq] at this
        rcases this with ((rfl | rfl) | rfl) | rfl <;> decide
      exact List.takeWhile_cons_of_neg (Bool.eq_false_iff.1 hc)
  rw [List.takeWhile_append_of_pos (Text.isPropertyCharacter_of_mem hkey), hnone, List.append_nil]

theorem head_bare_ne_quote {key : Text} (hkey : Text.isBareName key = true) (space : Text) :
    (key ++ space).head? ≠ some quote := by
  cases key with
  | nil => cases hkey
  | cons c key =>
    intro h
    obtain rfl : c = quote := Option.some.inj h
    exact absurd (Text.isPropertyCharacter_of_mem hkey _ List.mem_cons_self) (by decide)

theorem Property.unique {name key key' : Text} (h : Property name key) (h' : Property name key') :
    key = key' := by
  cases h with
  | @bare _ space hkey hspace =>
    generalize hname : key ++ space = name at h'
    cases h' with
    | @bare _ space' hkey' hspace' =>
      rw [← takeWhile_bare hkey hspace, hname, takeWhile_bare hkey' hspace']
    | literal hquote => exact absurd (hname ▸ hquote) (head_bare_ne_quote hkey space)
  | literal hquote hread =>
    cases h' with
    | bare hkey' => exact absurd hquote (head_bare_ne_quote hkey' _)
    | literal _ hread' =>
      rw [hread] at hread'
      cases hread'
      rfl

/-! ## The names that are written -/

theorem read_write {t : Text} (ht : t.unpaired = true) :
    Json.read (Json.StringLiteral.write t) = .ok (.string t) :=
  Json.read_indented (.string ht)

theorem proper_write {key : Text} (hkey : key.unpaired = true) :
    Proper key (Json.StringLiteral.write key) := by
  refine .literal (fun c hc => ?_) (read_write hkey)
  have hplain : c.isPlain = true := Json.StringLiteral.isPlain_of_mem_write (t := key) <| by
    rw [Json.StringLiteral.write]
    exact List.mem_cons_of_mem _ (List.mem_append_left _ hc)
  rw [CodePoint.isPlain, Bool.and_eq_true, decide_eq_true_eq] at hplain
  exact hplain.1

/-- The key is the bare name `b` and a line feed. -/
def BareLine (b key : Text) : Prop := Text.isBareName b = true ∧ key = b ++ [.newline]

theorem propertyName_of_isBareName {b : Text} (hb : Text.isBareName b = true) : propertyName b = b :=
  if_pos (Text.isPropertyName_iff.2 (.inl hb))

theorem BareLine.propertyName_eq {b key : Text} (h : BareLine b key) : propertyName key = key :=
  if_pos (Text.isPropertyName_iff.2 (.inr ⟨b, h⟩))

theorem BareLine.property {b key : Text} (h : BareLine b key) : Property key b := by
  obtain ⟨hb, rfl⟩ := h
  exact .bare hb (by simp [Json.isSpace, CodePoint.newline])

theorem BareLine.not_proper {b key : Text} (h : BareLine b key) : ¬Proper key (propertyName key) := by
  rw [h.propertyName_eq]
  obtain ⟨hb, hkey⟩ := h
  intro hproper
  generalize hname : key = name at hproper
  cases hproper with
  | bare hbare =>
    refine Text.newline_not_mem hbare ?_
    rw [← hname, hkey]
    simp
  | literal =>
    refine head_bare_ne_quote hb [CodePoint.newline] ?_
    rw [← hkey, hname]
    rfl

theorem proper_of_not_bareLine {key : Text} (hkey : key.unpaired = true) (h : ¬∃ b, BareLine b key) :
    Proper key (propertyName key) := by
  by_cases hbare : Text.isBareName key = true
  · rw [propertyName_of_isBareName hbare]
    exact .bare hbare
  · have hliteral : ¬Text.isPropertyName key = true := fun hname =>
      (Text.isPropertyName_iff.1 hname).elim hbare h
    rw [propertyName, if_neg hliteral]
    exact proper_write hkey

/-- A name stands for its key, or for the bare name before a line feed. -/
theorem exists_property {key : Text} (hkey : key.unpaired = true) :
    ∃ k, Property (propertyName key) k ∧ (k = key ∨ BareLine k key) := by
  by_cases h : ∃ b, BareLine b key
  · obtain ⟨b, hb⟩ := h
    exact ⟨b, hb.propertyName_eq.symm ▸ hb.property, .inr hb⟩
  · exact ⟨key, (proper_of_not_bareLine hkey h).property, .inl rfl⟩

/-- Two keys share a property just if one of them is the other, a bare name, and a line feed. -/
theorem shared_property_iff {key key' : Text} (hkey : key.unpaired = true) (hkey' : key'.unpaired = true)
    (hne : key ≠ key') :
    (∃ k, Property (propertyName key) k ∧ Property (propertyName key') k) ↔
      BareLine key key' ∨ BareLine key' key := by
  have hshared : ∀ {b key : Text}, BareLine b key →
      Property (propertyName b) b ∧ Property (propertyName key) b := fun h =>
    ⟨(propertyName_of_isBareName h.1).symm ▸ (Proper.bare h.1).property,
      h.propertyName_eq.symm ▸ h.property⟩
  constructor
  · rintro ⟨k, hk, hk'⟩
    obtain ⟨p, hp, hor⟩ := exists_property hkey
    obtain ⟨p', hp', hor'⟩ := exists_property hkey'
    obtain rfl := hk.unique hp
    obtain rfl := hk'.unique hp'
    rcases hor with rfl | hline <;> rcases hor' with rfl | hline'
    · exact absurd rfl hne
    · exact .inl hline'
    · exact .inr hline
    · exact absurd (hline.2.trans hline'.2.symm) hne
  · rintro (h | h)
    · exact ⟨_, hshared h⟩
    · exact ⟨_, (hshared h).symm⟩

/-! ## Interfaces -/

theorem map_name_fieldsOf (fs : List (Text × Shape)) (name : Text) (used : List Text) :
    (fieldsOf fs name used).value.map Field.name = fs.map fun f => propertyName f.1 := by
  induction fs generalizing used with
  | nil =>
    rw [fieldsOf]
    rfl
  | cons f fs ih =>
    obtain ⟨key, s⟩ := f
    rw [fieldsOf, List.map_cons, List.map_cons, ih]

/-- The interface of an object has a property for each of its keys, in order. Its name is a proper one for
the key, unless the key is a bare name and a line feed: that is written as it is and stands for the bare
name. So two keys of one object share a property just if they are a bare name without and with a line
feed. Keys with two surrogates that make a pair are left out, since a literal is read as the character that
the pair makes. -/
theorem propertyNames_denote (fs : List (Text × Shape)) (name : Text) (used : List Text) :
    let e := typeOf (.object fs) name used
    ∃ i rest, e.interfaces = i :: rest ∧ i.name = e.value ∧
      i.fields.map Field.name = fs.map (fun f => propertyName f.1) ∧
      ∀ f ∈ fs, f.1.unpaired = true →
        (Proper f.1 (propertyName f.1) ↔ ¬∃ b, BareLine b f.1) ∧
        (∀ b, BareLine b f.1 → propertyName f.1 = f.1 ∧ ∀ k, Property f.1 k ↔ k = b) ∧
        ∀ g ∈ fs, g.1.unpaired = true → f.1 ≠ g.1 →
          ((∃ k, Property (propertyName f.1) k ∧ Property (propertyName g.1) k) ↔
            BareLine f.1 g.1 ∨ BareLine g.1 f.1) := by
  intro e
  have he : e = typeOf (.object fs) name used := rfl
  rw [typeOf] at he
  refine ⟨_, _, congrArg Emitted.interfaces he, (congrArg Emitted.value he).symm,
    map_name_fieldsOf fs name _,
    fun f _ hf => ⟨⟨?_, ?_⟩, fun b hb => ⟨hb.propertyName_eq, fun k => ?_⟩, ?_⟩⟩
  · rintro hproper ⟨b, hb⟩
    exact hb.not_proper hproper
  · exact proper_of_not_bareLine hf
  · exact ⟨fun hk => hk.unique hb.property, fun hk => hk ▸ hb.property⟩
  · exact fun g _ hg hne => shared_property_iff hf hg hne

/-- A key that is no bare name, one that is, and the same with a line feed. -/
theorem propertyNames_denote_newline :
    let fs : List (Text × Shape) := [("a-b", .unknown), ("a", .unknown), ("a\n", .unknown)]
    (∀ f ∈ fs, f.1.unpaired = true) ∧
    ∃ i rest, (typeOf (.object fs) "Document" []).interfaces = i :: rest ∧
      i.fields.map Field.name = (["\"a-b\"", "a", "a\n"] : List Text) ∧
      Proper "a-b" "\"a-b\"" ∧ Proper "a" "a" ∧ ¬Proper "a\n" "a\n" ∧
      ∃ k, Property "a" k ∧ Property "a\n" k := by
  intro fs
  have hkeys : ∀ f ∈ fs, f.1.unpaired = true := by decide
  obtain ⟨i, rest, hinterfaces, -, hnames, hproper⟩ := propertyNames_denote fs "Document" []
  have hline : BareLine "a" "a\n" := ⟨by decide, rfl⟩
  have hnoLine : ∀ {key : Text}, key.getLast? ≠ some .newline → ¬∃ b, BareLine b key := by
    rintro _ hlast ⟨b, -, rfl⟩
    exact hlast List.getLast?_concat
  obtain ⟨h₁, -⟩ := hproper ("a-b", .unknown) (by simp [fs]) (by decide)
  obtain ⟨h₂, -, hshared⟩ := hproper ("a", .unknown) (by simp [fs]) (by decide)
  obtain ⟨h₃, -⟩ := hproper ("a\n", .unknown) (by simp [fs]) (by decide)
  refine ⟨hkeys, i, rest, hinterfaces, hnames, h₁.2 (hnoLine (by decide)), h₂.2 (hnoLine (by decide)),
    fun h => h₃.1 h ⟨_, hline⟩, ?_⟩
  exact (hshared ("a\n", .unknown) (by simp [fs]) (by decide) (by decide)).2 (.inl hline)

/-- The key is written as it is, and stands for the property of the other key. -/
theorem final_newline_loses_key :
    let fs : List (Text × Shape) := [("a", .scalar .number), ("a\n", .scalar .string)]
    (typeOf (.object fs) "Document" []).interfaces.map (fun i => i.fields.map Field.name) =
      [(["a", "a\n"] : List Text)] ∧
    Text.unpaired "a\n" = true ∧ ¬Proper "a\n" "a\n" ∧ Property "a" "a" ∧ Property "a\n" "a" := by
  intro fs
  have hline : BareLine "a" "a\n" := ⟨by decide, rfl⟩
  refine ⟨?_, by decide, hline.not_proper, (Proper.bare hline.1).property, hline.property⟩
  have hnames : propertyName "a" = "a" ∧ propertyName "a\n" = "a\n" := ⟨rfl, rfl⟩
  simp [fs, typeOf, fieldsOf, Shape.strip, hnames]

end TypeScript

end JsonShape
