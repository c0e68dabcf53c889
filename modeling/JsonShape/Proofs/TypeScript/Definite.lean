import JsonShape.Proofs.Shape.Normal
import JsonShape.Proofs.TypeScript.Generation
/-!
# JsonShape.Proofs.TypeScript.Definite

Types that are never absent. In a document for a normal shape absence shows in the question marks of
fields alone.

* `TypeScript.Definite`: a text of a type that does not go on with `undefined`.
* `TypeScript.Definite.bar`, `TypeScript.Definite.arrayOf`: how such texts are put together.
* `TypeScript.definite_of_mem_types`: all types in a document for a normal shape are such.
-/

namespace JsonShape

namespace TypeScript

/-- What follows a type that may be absent. -/
def undefinedMark : Text := bar ++ "undefined"

/-! ## Texts -/

section Characters

variable {α : Type} {p l r : List α} {a : α}

/-- What lacks an element does not reach past it. -/
theorem prefix_of_not_mem (ha : a ∉ p) (h : p <+: l ++ a :: r) : p <+: l := by
  rcases List.prefix_or_prefix_of_prefix h (List.prefix_append l (a :: r)) with h' | ⟨q, rfl⟩
  · exact h'
  · cases q with
    | nil => simp
    | cons b q =>
      obtain ⟨rfl, -⟩ := List.cons_prefix_cons.1 ((List.prefix_append_right_inj l).1 h)
      exact absurd (List.mem_append_right l List.mem_cons_self) ha

theorem infix_of_not_mem (ha : a ∉ p) (h : p <:+: l ++ a :: r) : p <:+: l ∨ p <:+: r := by
  induction l with
  | nil =>
    rcases List.infix_cons_iff.1 h with h | h
    · exact .inl (prefix_of_not_mem (l := []) ha h).isInfix
    · exact .inr h
  | cons b l ih =>
    rcases List.infix_cons_iff.1 h with h | h
    · exact .inl (prefix_of_not_mem (l := b :: l) ha h).isInfix
    · exact (ih h).imp_left fun h => List.infix_cons_iff.2 (.inr h)

end Characters

/-- The text of a type that is not `undefined` and has no such alternative behind another one. -/
structure Definite (t : Text) : Prop where
  front : ¬("undefined" : Text) <+: t
  inside : ¬(" undefined" : Text) <:+: t

namespace Definite

variable {t u : Text}

theorem not_infix_undefinedMark (ht : Definite t) : ¬undefinedMark <:+: t := by
  have hsuffix : (" undefined" : Text) <:+ undefinedMark := ⟨" |", by decide⟩
  exact fun h => ht.inside (hsuffix.isInfix.trans h)

theorem append_cons (ht : Definite t) {c : CodePoint} (hc : c ∉ (" undefined" : Text))
    (hu : ¬(" undefined" : Text) <:+: u) : Definite (t ++ c :: u) := by
  have hc' : c ∉ ("undefined" : Text) := fun h => hc (List.mem_cons_of_mem _ h)
  exact ⟨fun h => ht.front (prefix_of_not_mem hc' h),
    fun h => (infix_of_not_mem hc h).elim ht.inside hu⟩

theorem append_space (ht : Definite t) : Definite (t ++ (" " : Text)) := by
  refine ⟨fun h => ht.front (prefix_of_not_mem (by decide) h), fun h => ?_⟩
  rcases List.infix_concat_iff.1 h with ⟨l, h⟩ | h
  · have hlast := congrArg List.getLast? h
    have hd : (" undefined" : Text).getLast? = some (CodePoint.ofChar 'd') := by decide
    have hspace : (" " : Text).getLast? = some (CodePoint.ofChar ' ') := by decide
    rw [List.getLast?_append, List.getLast?_append, hd, Option.some_or] at hlast
    rw [show List.getLast? [_] = _ from hspace, Option.some_or] at hlast
    exact absurd (Option.some.inj hlast) (by decide)
  · exact ht.inside h

theorem not_infix_space_cons (hu : Definite u) : ¬(" undefined" : Text) <:+: CodePoint.ofChar ' ' :: u := by
  intro h
  rcases List.infix_cons_iff.1 h with h | h
  · exact hu.front (List.cons_prefix_cons.1 h).2
  · exact hu.inside h

theorem bar (ht : Definite t) (hu : Definite u) : Definite (t ++ bar ++ u) := by
  have := ht.append_space.append_cons (c := CodePoint.ofChar '|') (by decide) hu.not_infix_space_cons
  rwa [List.append_assoc] at this ⊢

theorem arrayOf (ht : Definite t) : Definite (arrayOf t) := by
  rw [TypeScript.arrayOf]
  split
  · have hrest : Definite (t ++ (")[]" : Text)) :=
      ht.append_cons (c := CodePoint.ofChar ')') (by decide) (by decide)
    refine ⟨fun h => ?_, fun h => ?_⟩
    · exact absurd (List.cons_prefix_cons.1 h).1 (by decide)
    · rw [List.append_assoc] at h
      rcases List.infix_cons_iff.1 h with h | h
      · exact absurd (List.cons_prefix_cons.1 h).1 (by decide)
      · exact hrest.inside h
  · exact ht.append_cons (c := CodePoint.ofChar '[') (by decide) (by decide)

end Definite

theorem definite_word {n : Text} (hfront : ¬("undefined" : Text) <+: n)
    (hspace : CodePoint.ofChar ' ' ∉ n) : Definite n :=
  ⟨hfront, fun h => hspace (h.subset List.mem_cons_self)⟩

theorem definite_of_isTypeName {n : Text} (hn : Text.IsTypeName n) : Definite n := by
  refine definite_word ?_ fun h => absurd (hn.isNameCharacter _ h) (by decide)
  obtain ⟨c, rest, rfl, hc, -⟩ := hn
  intro h
  obtain ⟨rfl, -⟩ := List.cons_prefix_cons.1 h
  exact absurd hc (by decide)

theorem definite_scalarType (k : Scalar) : Definite (scalarType k) := by
  cases k <;> exact definite_word (by decide) (by decide)

theorem definite_join {ts : List Text} (hts : ∀ t ∈ ts, Definite t) : Definite (Text.join bar ts) := by
  induction ts with
  | nil => exact ⟨by decide, by decide⟩
  | cons t ts ih =>
    obtain ⟨ht, hts⟩ := List.forall_mem_cons.1 hts
    cases ts with
    | nil => rwa [Text.join_singleton]
    | cons u ts =>
      rw [Text.join_cons_cons]
      exact ht.bar (ih hts)

/-! ## The conversion of a shape -/

def FieldsDefinite (is : List Interface) : Prop := ∀ i ∈ is, ∀ f ∈ i.fields, Definite f.type

open Shape (Normal)

theorem definite :
    (∀ s name used, Text.IsTypeName name → s = .unknown ∨ Normal .item s →
      Definite (typeOf s name used).value ∧ FieldsDefinite (typeOf s name used).interfaces) ∧
    (∀ fs name used, Text.IsTypeName name → (∀ f ∈ fs, Normal .field f.2) →
      (∀ f ∈ (fieldsOf fs name used).value, Definite f.type) ∧
        FieldsDefinite (fieldsOf fs name used).interfaces) ∧
    ∀ ms name used, Text.IsTypeName name → (∀ m ∈ ms, Normal .item m) →
      (∀ t ∈ (typesOf ms name used).value, Definite t) ∧
        FieldsDefinite (typesOf ms name used).interfaces := by
  refine typeOf.mutual_induct _ _ _ ?unknown ?scalar ?optional ?array ?absent ?union ?object ?noField
    ?field ?noMember ?member
  case unknown =>
    intro name used _ _
    rw [typeOf]
    exact ⟨definite_word (n := "unknown") (by decide) (by decide), by simp [FieldsDefinite]⟩
  case scalar =>
    intro name used k _ _
    rw [typeOf]
    exact ⟨definite_scalarType k, by simp [FieldsDefinite]⟩
  case optional =>
    intro name used s _ _ hs
    rcases hs with h | h <;> cases h
  case array =>
    intro name used s ih hname hs
    have hitems : s = .unknown ∨ Normal .item s := by
      rcases hs with h | h
      · cases h
      · cases h with
        | emptyArray => exact .inl rfl
        | array h => exact .inr h
    rw [typeOf]
    obtain ⟨hvalue, hfields⟩ := ih (Text.isTypeName_append hname (by decide)) hitems
    exact ⟨hvalue.arrayOf, hfields⟩
  case absent =>
    intro name used ms h _ _ hs
    -- Where nothing may be absent this branch is not taken.
    have hpresent := (hs.resolve_left (by simp)).mayBeAbsent_eq_false
    rw [Shape.strip_optional, hpresent] at h
    cases h
  case union =>
    intro name used ms h ih hname hs
    rw [typeOf, dif_neg h]
    obtain ⟨hvalues, hfields⟩ := ih hname fun m hm => (hs.resolve_left (by simp)).of_mem_alternatives hm
    exact ⟨definite_join hvalues, hfields⟩
  case object =>
    intro name used fs own ih hname hs
    rw [typeOf]
    have hfs : ∀ f ∈ fs, Normal .field f.2 := by
      cases hs.resolve_left (by simp) with
      | object _ hfs => exact hfs
    obtain ⟨hown, hfields⟩ := ih hname hfs
    exact ⟨definite_of_isTypeName (isTypeName_freshName hname used),
      List.forall_mem_cons.2 ⟨hown, hfields⟩⟩
  case noField =>
    intro name used _ _
    rw [fieldsOf]
    exact ⟨by simp, by simp [FieldsDefinite]⟩
  case field =>
    intro name used key s fs e ih ihs hname hfs
    rw [fieldsOf]
    obtain ⟨hs, hfs⟩ := List.forall_mem_cons.1 hfs
    obtain ⟨hvalue, hfields⟩ :=
      ih (Text.isTypeName_append hname (Text.isTypeName_typeName key).isNameCharacter)
        (.inr (Shape.normal_strip hs))
    obtain ⟨hvalues, hrest⟩ := ihs hname hfs
    exact ⟨List.forall_mem_cons.2 ⟨hvalue, hvalues⟩, List.forall_mem_append.2 ⟨hfields, hrest⟩⟩
  case noMember =>
    intro name used _ _
    rw [typesOf]
    exact ⟨by simp, by simp [FieldsDefinite]⟩
  case member =>
    intro name used m ms e ih ihs hname hms
    rw [typesOf]
    obtain ⟨hm, hms⟩ := List.forall_mem_cons.1 hms
    obtain ⟨hvalue, hfields⟩ := ih hname (.inr hm)
    obtain ⟨hvalues, hrest⟩ := ihs hname hms
    exact ⟨List.forall_mem_cons.2 ⟨hvalue, hvalues⟩, List.forall_mem_append.2 ⟨hfields, hrest⟩⟩

theorem definite_of_mem_types {s : Shape} (hs : s = .unknown ∨ Normal .item s)
    {rootName source t : Text} (ht : t ∈ (generate s rootName source).types) : Definite t := by
  obtain ⟨-, used, hinterfaces, -, halias⟩ := generate_root s rootName source
  have hroot := Text.isTypeName_typeName rootName
  obtain ⟨hvalue, hfields⟩ := definite.1 s _ used hroot hs
  rcases List.mem_append.1 ht with ht | ht
  · obtain ⟨a, ha, rfl⟩ := List.mem_map.1 ht
    rw [halias a (Option.mem_toList.1 ha)]
    exact hvalue
  · obtain ⟨i, hi, ht⟩ := List.mem_flatMap.1 ht
    obtain ⟨f, hf, rfl⟩ := List.mem_map.1 ht
    rw [hinterfaces] at hi
    exact hfields i hi f hf

end TypeScript

end JsonShape
