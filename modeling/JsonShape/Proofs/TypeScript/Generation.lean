import JsonShape.Proofs.TypeScript.Interface
import JsonShape.Proofs.TypeScript.Meaning
import JsonShape.Proofs.TypeScript.PropertyName
/-!
# JsonShape.Proofs.TypeScript.Generation

Declarations mean the shape that they were made for.

* `TypeScript.Denotes`: the text of a type and what it means.
* `TypeScript.denotes`: the text for a shape denotes the type of the shape, whatever is declared
  besides its own interfaces.
* `TypeScript.generate_means`: so does the root of a whole document, and every name in it is declared
  once.
-/

namespace JsonShape

namespace Text

theorem isBareName_of_isTypeName {n : Text} (h : IsTypeName n) : isBareName n = true := by
  obtain ⟨c, rest, rfl, hc, hrest⟩ := h
  have hstart : isPropertyStart c = true := by
    rcases hc with hc | rfl
    · simp [isPropertyStart, CodePoint.isLetter, hc]
    · decide
  have hcharacter : ∀ d ∈ rest, isPropertyCharacter d = true := by
    intro d hd
    have := hrest d hd
    simp only [isNameCharacter, isPropertyCharacter, isPropertyStart, Bool.or_eq_true] at this ⊢
    rcases this with (h | h) | h
    · exact .inl (.inl (.inl h))
    · exact .inr h
    · exact .inl (.inl (.inr h))
  rw [isBareName, List.head?_cons, Option.any_some, hstart, Bool.true_and, List.all_cons,
    isPropertyCharacter, hstart, Bool.true_or, Bool.true_and]
  exact List.all_eq_true.2 hcharacter

end Text

namespace TypeScript

/-! ## Texts of types -/

def Denotes (declared : List Interface) (t : Text) (x : List Alternative) : Prop :=
  ∃ es e, Written t es e ∧ MeansAll declared (es ++ [e]) x

section Denotes

variable {declared : List Interface} {s t : Text} {x y : List Alternative}

theorem Denotes.parse (h : Denotes declared t x) : ∃ e, Expr.parse t = some e ∧ Means declared e x := by
  obtain ⟨es, e, ht, hx⟩ := h
  exact ⟨.group es e, ht.reads.parse, means_group hx⟩

theorem denotes_name {n : Text} (hn : Text.isBareName n = true) (h : Means declared (.name n) x) :
    Denotes declared n x :=
  ⟨[], .name n, written_name hn, meansAll_singleton_iff.2 h⟩

theorem denotes_primitive {n : Text} (hn : n ∈ primitives) : Denotes declared n [.primitive n] := by
  have hbare : ∀ n ∈ primitives, Text.isBareName n = true := by decide
  exact denotes_name (hbare n hn) (.primitive hn)

theorem Denotes.bar (hs : Denotes declared s x) (ht : Denotes declared t y) :
    Denotes declared (s ++ bar ++ t) (x ++ y) := by
  obtain ⟨es, e, hs, hx⟩ := hs
  obtain ⟨fs, f, ht, hy⟩ := ht
  refine ⟨es ++ e :: fs, f, written_bar hs ht, ?_⟩
  simpa using hx.append hy

theorem Denotes.orUndefined (ht : Denotes declared t x) :
    Denotes declared (orUndefined t) (x ++ [.primitive "undefined"]) :=
  ht.bar (denotes_primitive (by decide))

theorem Denotes.arrayOf (ht : Denotes declared t x) : Denotes declared (arrayOf t) [.array x] := by
  obtain ⟨es, e, ht, hx⟩ := ht
  exact ⟨[], _, written_arrayOf ht, meansAll_singleton_iff.2 (.array (means_group hx))⟩

end Denotes

/-! ## Names of kinds and keys -/

theorem scalarType_eq_groundName (k : Scalar) : scalarType k = groundName k := by
  cases k <;> rfl

theorem groundName_mem_primitives (k : Scalar) : groundName k ∈ primitives := by
  cases k <;> decide

theorem propertyName_eq_keyName (key : Text) : propertyName key = keyName key := by
  have hbare : Text.isPropertyName key =
      (Text.isBareName key || key.getLast? = some .newline && Text.isBareName key.dropLast) := by
    rw [Text.isPropertyName_eq, Text.dropFinalNewline]
    by_cases hlast : key.getLast? = some .newline
    · have hnot : Text.isBareName key = false := Bool.eq_false_iff.2 fun h =>
        Text.newline_not_mem h (List.mem_of_getLast? hlast)
      rw [if_pos hlast, hnot, decide_eq_true hlast, Bool.false_or, Bool.true_and]
    · rw [if_neg hlast, decide_eq_false hlast, Bool.false_and, Bool.or_false]
  rw [propertyName, keyName, hbare]

/-! ## The conversion of a shape -/

/-- The fields of all these interfaces mean something. -/
def Explained (declared is : List Interface) : Prop :=
  ∀ i ∈ is, ∃ us, MeansFields declared i.fields us

theorem explained_append {declared is js : List Interface} (hi : Explained declared is)
    (hj : Explained declared js) : Explained declared (is ++ js) :=
  fun i hmem => (List.mem_append.1 hmem).elim (hi i) (hj i)

variable (declared : List Interface)

theorem denotes :
    (∀ s name used, Text.IsTypeName name → s.Populated →
      (∀ i ∈ (typeOf s name used).interfaces, i ∈ declared) →
      Denotes declared (typeOf s name used).value s.meaning ∧
        Explained declared (typeOf s name used).interfaces) ∧
    (∀ fs name used, Text.IsTypeName name → (∀ f ∈ fs, f.2.Populated) →
      (∀ i ∈ (fieldsOf fs name used).interfaces, i ∈ declared) →
      MeansFields declared (fieldsOf fs name used).value (Shape.fieldMeanings fs) ∧
        Explained declared (fieldsOf fs name used).interfaces) ∧
    ∀ ms name used, Text.IsTypeName name → (∀ m ∈ ms, m.Populated) →
      (∀ i ∈ (typesOf ms name used).interfaces, i ∈ declared) →
      (ms ≠ [] → Denotes declared (Text.join bar (typesOf ms name used).value)
        (Shape.memberMeanings ms)) ∧
        Explained declared (typesOf ms name used).interfaces := by
  refine typeOf.mutual_induct _ _ _ ?unknown ?scalar ?optional ?array ?absent ?union ?object ?noField
    ?field ?noMember ?member
  case unknown =>
    intro name used _ _ _
    rw [typeOf, Shape.meaning]
    exact ⟨denotes_primitive (n := "unknown") (by decide), by simp [Explained]⟩
  case scalar =>
    intro name used k _ _ _
    rw [typeOf, Shape.meaning, scalarType_eq_groundName]
    exact ⟨denotes_primitive (groundName_mem_primitives k), by simp [Explained]⟩
  case optional =>
    intro name used s ih hname hs hi
    rw [typeOf] at hi ⊢
    obtain ⟨hvalue, hexplained⟩ := ih hname (Shape.populated_optional_iff.1 hs) hi
    rw [Shape.meaning]
    exact ⟨hvalue.orUndefined, hexplained⟩
  case array =>
    intro name used s ih hname hs hi
    rw [typeOf] at hi ⊢
    obtain ⟨hvalue, hexplained⟩ :=
      ih (Text.isTypeName_append hname (by decide)) (Shape.populated_array_iff.1 hs) hi
    rw [Shape.meaning]
    exact ⟨hvalue.arrayOf, hexplained⟩
  case absent =>
    intro name used ms h ih hname hs hi
    rw [typeOf, dif_pos h] at hi ⊢
    obtain ⟨hvalue, hexplained⟩ := ih hname (Shape.populated_strip hs) hi
    rw [Shape.meaning, dif_pos h]
    exact ⟨hvalue.orUndefined, hexplained⟩
  case union =>
    intro name used ms h ih hname hs hi
    rw [typeOf, dif_neg h] at hi ⊢
    obtain ⟨hne, hms⟩ := Shape.populated_union_iff.1 hs
    obtain ⟨hvalue, hexplained⟩ := ih hname hms hi
    rw [Shape.meaning, dif_neg h]
    exact ⟨hvalue hne, hexplained⟩
  case object =>
    intro name used fs own ih hname hs hi
    rw [typeOf] at hi ⊢
    obtain ⟨hown, hi⟩ := List.forall_mem_cons.1 hi
    obtain ⟨hfields, hexplained⟩ := ih hname (Shape.populated_object_iff.1 hs) hi
    rw [Shape.meaning]
    refine ⟨?_, List.forall_mem_cons.2 ⟨⟨_, hfields⟩, hexplained⟩⟩
    have hbare := Text.isBareName_of_isTypeName (isTypeName_freshName hname used)
    exact denotes_name hbare (.interface hown rfl hfields)
  case noField =>
    intro name used _ _ _
    rw [fieldsOf, Shape.fieldMeanings]
    exact ⟨.nil, by simp [Explained]⟩
  case field =>
    intro name used key s fs e ih ihs hname hfs hi
    rw [fieldsOf] at hi ⊢
    obtain ⟨hs, hfs⟩ := List.forall_mem_cons.1 hfs
    obtain ⟨hvalue, hexplained⟩ :=
      ih (Text.isTypeName_append hname (Text.isTypeName_typeName key).isNameCharacter)
        (Shape.populated_strip hs) fun i hmem => hi i (List.mem_append_left _ hmem)
    obtain ⟨hvalues, hrest⟩ := ihs hname hfs fun i hmem => hi i (List.mem_append_right _ hmem)
    obtain ⟨t, hparse, hmeans⟩ := hvalue.parse
    rw [Shape.fieldMeanings, ← propertyName_eq_keyName]
    exact ⟨.cons hparse hmeans hvalues, explained_append hexplained hrest⟩
  case noMember =>
    intro name used _ _ _
    rw [typesOf]
    exact ⟨fun hne => absurd rfl hne, by simp [Explained]⟩
  case member =>
    intro name used m ms e ih ihs hname hms hi
    rw [typesOf] at hi ⊢
    obtain ⟨hm, hms⟩ := List.forall_mem_cons.1 hms
    obtain ⟨hvalue, hexplained⟩ := ih hname hm fun i hmem => hi i (List.mem_append_left _ hmem)
    obtain ⟨hvalues, hrest⟩ := ihs hname hms fun i hmem => hi i (List.mem_append_right _ hmem)
    refine ⟨fun _ => ?_, explained_append hexplained hrest⟩
    rw [Shape.memberMeanings]
    cases ms with
    | nil =>
      rw [typesOf, Shape.memberMeanings, Text.join_singleton, List.append_nil]
      exact hvalue
    | cons m' ms =>
      have hjoin := hvalue.bar (hvalues (List.cons_ne_nil _ _))
      rw [typesOf] at hjoin ⊢
      rw [Text.join_cons_cons]
      exact hjoin

/-! ## Documents -/

/-- What a name stands for: the type of the alias that is called so, or an interface. -/
def Document.definition (d : Document) (n : Text) : Text :=
  match d.rootAlias with
  | some a => if a.name = n then a.type else n
  | none => n

/-- The texts of all types in a document. -/
def Document.types (d : Document) : List Text :=
  d.rootAlias.toList.map Alias.type ++ d.interfaces.flatMap fun i => i.fields.map Field.type

/-- The names that a document declares. -/
def Document.names (d : Document) : List Text :=
  d.rootAlias.toList.map Alias.name ++ d.interfaces.map Interface.name

theorem not_mem_primitives {n : Text} (h : Text.IsTypeName n) : n ∉ primitives := by
  intro hn
  have hfirst : ∀ n ∈ primitives, ∀ c ∈ n.head?,
      c.isUpperLetter = false ∧ c ≠ Text.underscore := by decide
  obtain ⟨c, rest, rfl, hc, -⟩ := h
  obtain ⟨hupper, hne⟩ := hfirst _ hn c rfl
  rcases hc with hc | hc
  · rw [hupper] at hc
    cases hc
  · exact hne hc

theorem Declares.unambiguous {name : Text} {used : List Text} {α : Type} {e : Emitted α}
    (hname : Text.IsTypeName name) (h : Declares name used e) : Unambiguous e.interfaces :=
  ⟨h.distinct, fun i hi => not_mem_primitives (h.typeNames hname i hi)⟩

theorem MeansFields.means {declared : List Interface} {fs : List Field}
    {us : List (Text × Bool × List Alternative)} (h : MeansFields declared fs us) :
    ∀ f ∈ fs, ∃ e x, Expr.parse f.type = some e ∧ Means declared e x := by
  induction fs generalizing us with
  | nil => simp
  | cons f fs ih =>
    cases h with
    | cons hparse h hs => exact List.forall_mem_cons.2 ⟨⟨_, _, hparse, h⟩, ih hs⟩

/-- The root of a document: of an object, its interface; of any other shape, an alias whose name the
interfaces leave alone. -/
theorem generate_root (s : Shape) (rootName source : Text) :
    let d := generate s rootName source
    let root := Text.typeName rootName
    d.names.Nodup ∧ ∃ used, d.interfaces = (typeOf s root used).interfaces ∧
      d.definition root = (typeOf s root used).value ∧
      ∀ a ∈ d.rootAlias, a.type = (typeOf s root used).value := by
  have halias : ∀ root : Text, ((root :: (typeOf s root [root]).interfaces.map Interface.name)).Nodup := by
    intro root
    have h := declares_typeOf s root [root]
    refine List.nodup_cons.2 ⟨fun hmem => ?_, h.distinct⟩
    obtain ⟨i, hi, hroot⟩ := List.mem_map.1 hmem
    exact h.fresh i hi (List.mem_singleton.2 hroot)
  cases s with
  | object fs =>
    refine ⟨(declares_typeOf (.object fs) _ []).distinct, [], rfl, ?_, by simp [generate, declare]⟩
    rw [typeOf]
    rfl
  | _ =>
    refine ⟨halias _, _, rfl, ?_, ?_⟩
    · simp [Document.definition, generate, declare]
    · simp [generate, declare]

/-- Whatever a document declares, each of its types reads as an expression, and the name of the root
means the type of the shape. -/
theorem generate_means (s : Shape) (hs : s.Populated) (rootName source : Text) :
    let d := generate s rootName source
    (∃ e, Expr.parse (d.definition (Text.typeName rootName)) = some e ∧
      ∀ x, Means d.interfaces e x ↔ x = s.meaning) ∧
    ∀ t ∈ d.types, ∃ e, Expr.parse t = some e ∧ ∀ n ∈ e.names, n ∈ primitives ∨ d.names.count n = 1 := by
  intro d
  obtain ⟨hnames, used, hinterfaces, hdefinition, halias⟩ := generate_root s rootName source
  have hroot := Text.isTypeName_typeName rootName
  have hunambiguous : Unambiguous d.interfaces :=
    hinterfaces ▸ (declares_typeOf s _ used).unambiguous hroot
  obtain ⟨hvalue, hexplained⟩ := (denotes d.interfaces).1 s _ used hroot hs fun i hi => hinterfaces ▸ hi
  obtain ⟨e, hparse, hmeans⟩ := hvalue.parse
  have hdeclared : ∀ {e : Expr} {x : List Alternative}, Means d.interfaces e x →
      ∀ n ∈ e.names, n ∈ primitives ∨ d.names.count n = 1 := by
    intro e x h n hn
    refine (h.mem_names n hn).imp_right fun hmem => ?_
    rw [hnames.count]
    exact if_pos (List.mem_append_right _ hmem)
  refine ⟨⟨e, hdefinition ▸ hparse, fun x => ⟨fun hx => hx.unique hunambiguous hmeans, ?_⟩⟩, ?_⟩
  · rintro rfl
    exact hmeans
  · intro t ht
    rcases List.mem_append.1 ht with ht | ht
    · obtain ⟨a, ha, rfl⟩ := List.mem_map.1 ht
      exact ⟨e, halias a (Option.mem_toList.1 ha) ▸ hparse, hdeclared hmeans⟩
    · obtain ⟨i, hi, ht⟩ := List.mem_flatMap.1 ht
      obtain ⟨f, hf, rfl⟩ := List.mem_map.1 ht
      obtain ⟨us, hfields⟩ := hexplained i (hinterfaces ▸ hi)
      obtain ⟨e', x, hparse', hmeans'⟩ := hfields.means f hf
      exact ⟨e', hparse', hdeclared hmeans'⟩

/-- Two keys that make the same name, an array of alternatives, and a union that may be missing. -/
theorem generate_means_clashing_names :
    let s : Shape := .object [("a", .array (.union [.scalar .number, .scalar .string])),
      ("b", .union [.optional (.object []), .scalar .null]), ("B", .object [("x", .unknown)])]
    let d := generate s "Document" "samples"
    s.Populated ∧ ∃ e, Expr.parse (d.definition "Document") = some e ∧
      Means d.interfaces e [.record [
        ("a", false, [.array [.primitive "number", .primitive "string"]]),
        ("b", true, [.record [], .primitive "null"]),
        ("B", false, [.record [("x", false, [.primitive "unknown"])]])]] := by
  intro s d
  have hs : s.Populated := by
    simp [s, Shape.populated_object_iff, Shape.populated_array_iff, Shape.populated_union_iff,
      Shape.populated_optional_iff, Shape.Populated.scalar, Shape.Populated.unknown]
  have hname : Text.typeName "Document" = "Document" := by decide +kernel
  obtain ⟨⟨e, hparse, hmeans⟩, -⟩ := generate_means s hs "Document" "samples"
  refine ⟨hs, e, hname ▸ hparse, (hmeans _).2 ?_⟩
  have hkeys : ∀ key ∈ (["a", "b", "B", "x"] : List Text), keyName key = key := by decide
  have hb : (Shape.union [.optional (.object []), .scalar .null]).strip =
      ⟨true, .union [.object [], .scalar .null]⟩ := by
    simp [Shape.strip, Shape.peel, Shape.unwrap, Shape.unionOf, Shape.alternatives, Shape.firsts,
      Shape.same, Shape.collapse, Shape.isOptional]
  have hlists : ∀ ms : List Shape, ms.any Shape.isOptional = false →
      (Shape.union ms).strip = ⟨false, .union ms⟩ := by
    intro ms h
    rw [Shape.strip, dif_neg (by simp [h])]
  simp [s, Shape.meaning, Shape.fieldMeanings, Shape.memberMeanings, hkeys, hb, hlists,
    Shape.strip, Shape.isOptional, groundName]

end TypeScript

end JsonShape
