import JsonShape.Proofs.TypeScript.Name
/-!
# JsonShape.Proofs.TypeScript.Interface

The interfaces that a conversion declares, and the names that it takes for them.

* `TypeScript.Declares`: distinct names, new ones, and no other name is taken.
* `TypeScript.declares`: so do the conversions of a shape, of fields and of members.
-/

namespace JsonShape

namespace TypeScript

/-- What is declared where the names `used` are taken, for a shape that is to be called `name`. -/
structure Declares (name : Text) (used : List Text) {α : Type} (e : Emitted α) : Prop where
  distinct : (e.interfaces.map Interface.name).Nodup
  fresh : ∀ i ∈ e.interfaces, i.name ∉ used
  used_iff : ∀ n, n ∈ e.used ↔ n ∈ used ∨ ∃ i ∈ e.interfaces, i.name = n
  typeNames : Text.IsTypeName name → ∀ i ∈ e.interfaces, Text.IsTypeName i.name

theorem declares_nothing (name : Text) (used : List Text) {α : Type} (value : α) :
    Declares name used ⟨value, [], used⟩ :=
  ⟨.nil, by simp, by simp, by simp⟩

theorem Declares.value {name : Text} {used : List Text} {α β : Type} {e : Emitted α}
    (h : Declares name used e) (value : β) : Declares name used ⟨value, e.interfaces, e.used⟩ :=
  ⟨h.distinct, h.fresh, h.used_iff, h.typeNames⟩

/-- The name of a part begins with the name of the whole. -/
theorem Declares.of_append {name t : Text} {used : List Text} {α : Type} {e : Emitted α}
    (ht : ∀ c ∈ t, Text.isNameCharacter c = true) (h : Declares (name ++ t) used e) :
    Declares name used e :=
  ⟨h.distinct, h.fresh, h.used_iff, fun hname => h.typeNames (Text.isTypeName_append hname ht)⟩

/-- One conversion after another. -/
theorem Declares.append {name : Text} {used : List Text} {α β γ : Type} {e : Emitted α}
    {es : Emitted β} (h : Declares name used e) (hs : Declares name e.used es) (value : γ) :
    Declares name used ⟨value, e.interfaces ++ es.interfaces, es.used⟩ := by
  refine ⟨?_, fun i hi => ?_, fun n => ?_, fun hname i hi => ?_⟩
  · rw [List.map_append]
    refine List.nodup_append.2 ⟨h.distinct, hs.distinct, fun n hn m hm hnm => ?_⟩
    obtain ⟨i, hi, rfl⟩ := List.mem_map.1 hn
    obtain ⟨j, hj, rfl⟩ := List.mem_map.1 hm
    exact hs.fresh j hj ((h.used_iff _).2 (.inr ⟨i, hi, hnm⟩))
  · rcases List.mem_append.1 hi with hi | hi
    · exact h.fresh i hi
    · exact fun hmem => hs.fresh i hi ((h.used_iff _).2 (.inl hmem))
  · rw [hs.used_iff, h.used_iff, or_assoc]
    simp only [List.mem_append, or_and_right, exists_or]
  · exact (List.mem_append.1 hi).elim (h.typeNames hname i) (hs.typeNames hname i)

/-- An interface of its own before those of its fields. -/
theorem Declares.own {name : Text} {used : List Text} {e : Emitted (List Field)}
    (h : Declares name (freshName used name :: used) e) :
    Declares name used ⟨freshName used name, ⟨freshName used name, e.value⟩ :: e.interfaces, e.used⟩ := by
  refine ⟨?_, ?_, fun n => ?_, fun hname => ?_⟩
  · refine List.nodup_cons.2 ⟨fun hmem => ?_, h.distinct⟩
    obtain ⟨i, hi, hown⟩ := List.mem_map.1 hmem
    exact h.fresh i hi (hown ▸ List.mem_cons_self)
  · refine List.forall_mem_cons.2 ⟨freshName_not_mem used name, fun i hi hmem => ?_⟩
    exact h.fresh i hi (List.mem_cons_of_mem _ hmem)
  · rw [h.used_iff, List.mem_cons]
    simp only [List.mem_cons, exists_eq_or_imp, eq_comm (a := n)]
    rw [or_comm (a := freshName used name = n), or_assoc]
  · exact List.forall_mem_cons.2 ⟨isTypeName_freshName hname used, h.typeNames hname⟩

theorem declares :
    (∀ s name used, Declares name used (typeOf s name used)) ∧
    (∀ fs name used, Declares name used (fieldsOf fs name used)) ∧
    ∀ ms name used, Declares name used (typesOf ms name used) := by
  refine typeOf.mutual_induct _ _ _ ?unknown ?scalar ?optional ?array ?absent ?union ?object ?noField
    ?field ?noMember ?member
  case unknown =>
    intro name used
    rw [typeOf]
    exact declares_nothing name used _
  case scalar =>
    intro name used k
    rw [typeOf]
    exact declares_nothing name used _
  case optional =>
    intro name used s ih
    rw [typeOf]
    exact ih.value _
  case array =>
    intro name used s ih
    rw [typeOf]
    exact (ih.of_append (by decide)).value _
  case absent =>
    intro name used ms h ih
    rw [typeOf, dif_pos h]
    exact ih.value _
  case union =>
    intro name used ms h ih
    rw [typeOf, dif_neg h]
    exact ih.value _
  case object =>
    intro name used fs own ih
    rw [typeOf]
    exact ih.own
  case noField =>
    intro name used
    rw [fieldsOf]
    exact declares_nothing name used _
  case field =>
    intro name used key s fs e ih ihs
    rw [fieldsOf]
    exact (ih.of_append (Text.isTypeName_typeName key).isNameCharacter).append ihs _
  case noMember =>
    intro name used
    rw [typesOf]
    exact declares_nothing name used _
  case member =>
    intro name used m ms e ih ihs
    rw [typesOf]
    exact ih.append ihs _

theorem declares_typeOf (s : Shape) (name : Text) (used : List Text) :
    Declares name used (typeOf s name used) :=
  declares.1 s name used

end TypeScript

end JsonShape
