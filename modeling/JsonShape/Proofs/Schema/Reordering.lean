import Mathlib.Data.Multiset.AddSub
import JsonShape.Proofs.Shape.Reordering
import JsonShape.Proofs.Shape.Strip
import JsonShape.Schema
/-!
# JsonShape.Proofs.Schema.Reordering

Equal shapes have the same schema, up to the order of properties, required keys and branches.

* `Schema.Reordered`: properties, required keys and branches stand in another order, at any depth.
* `Schema.NodeReordered`: the same of schemas as JSON, keyword by keyword.
* `Schema.parts`: a schema and all schemas in it.
* `Schema.reordered_of_same`: equal shapes have reordered schemas.
-/

namespace JsonShape.Schema

open Shape

/-! ## Reordering -/

inductive Reordered : Schema → Schema → Prop where
  | refl (s : Schema) : Reordered s s
  | trans {s t u : Schema} : Reordered s t → Reordered t u → Reordered s u
  | properties {ps qs : List (Text × Schema)} {required : List Text} : ps.Perm qs →
      Reordered (.object ps required) (.object qs required)
  | required {ps : List (Text × Schema)} {required required' : List Text} :
      required.Perm required' → Reordered (.object ps required) (.object ps required')
  | branches {ss ts : List Schema} : ss.Perm ts → Reordered (.anyOf ss) (.anyOf ts)
  | items {s t : Schema} : Reordered s t → Reordered (.array s) (.array t)
  | property {before after : List (Text × Schema)} {key : Text} {s t : Schema}
      {required : List Text} : Reordered s t →
      Reordered (.object (before ++ (key, s) :: after) required)
        (.object (before ++ (key, t) :: after) required)
  | branch {before after : List Schema} {s t : Schema} : Reordered s t →
      Reordered (.anyOf (before ++ s :: after)) (.anyOf (before ++ t :: after))

mutual

/-- Nodes that differ in the order of properties, required keys and branches alone. -/
inductive NodeReordered : Json.Value → Json.Value → Prop where
  | refl (n : Json.Value) : NodeReordered n n
  | trans {n m o : Json.Value} : NodeReordered n m → NodeReordered m o → NodeReordered n o
  | argument {before after : List (Text × Json.Value)} {keyword : Text} {arg arg' : Json.Value} :
      ArgumentReordered keyword arg arg' →
      NodeReordered (.object (before ++ (keyword, arg) :: after))
        (.object (before ++ (keyword, arg') :: after))

/-- What a keyword may have in another order, itself or in a node below it. -/
inductive ArgumentReordered : (keyword : Text) → (arg arg' : Json.Value) → Prop where
  | properties {ps qs : List (Text × Json.Value)} : ps.Perm qs →
      ArgumentReordered "properties" (.object ps) (.object qs)
  | required {names names' : List Json.Value} : names.Perm names' →
      ArgumentReordered "required" (.array names) (.array names')
  | branches {ns ms : List Json.Value} : ns.Perm ms →
      ArgumentReordered "anyOf" (.array ns) (.array ms)
  | items {n m : Json.Value} : NodeReordered n m → ArgumentReordered "items" n m
  | property {before after : List (Text × Json.Value)} {key : Text} {n m : Json.Value} :
      NodeReordered n m →
      ArgumentReordered "properties" (.object (before ++ (key, n) :: after))
        (.object (before ++ (key, m) :: after))
  | branch {before after : List Json.Value} {n m : Json.Value} : NodeReordered n m →
      ArgumentReordered "anyOf" (.array (before ++ n :: after)) (.array (before ++ m :: after))

end

/-! ## Schemas as JSON -/

theorem propertyNodes_eq_map (ps : List (Text × Schema)) :
    propertyNodes ps = ps.map fun p => (p.1, p.2.toNode) := by
  induction ps with
  | nil => rfl
  | cons p ps ih => rw [propertyNodes, ih, List.map_cons]

theorem branchNodes_eq_map (ss : List Schema) : branchNodes ss = ss.map toNode := by
  induction ss with
  | nil => rfl
  | cons s ss ih => rw [branchNodes, ih, List.map_cons]

theorem isEmpty_eq_of_perm {α : Type} {xs ys : List α} (h : xs.Perm ys) : xs.isEmpty = ys.isEmpty := by
  rw [Bool.eq_iff_iff, List.isEmpty_iff, List.isEmpty_iff]
  exact ⟨fun hx => (hx ▸ h).nil_eq.symm, fun hy => (hy ▸ h).eq_nil⟩

theorem nodeReordered_toNode {s t : Schema} (h : s.Reordered t) : NodeReordered s.toNode t.toNode := by
  induction h with
  | refl s => exact .refl _
  | trans _ _ ih₁ ih₂ => exact .trans ih₁ ih₂
  | properties h =>
    simp only [toNode, propertyNodes_eq_map]
    exact @NodeReordered.argument [_] _ _ _ _ (.properties (h.map _))
  | @required ps rs rs' h =>
    simp only [toNode, isEmpty_eq_of_perm h]
    cases rs'.isEmpty with
    | true => exact .refl _
    | false => exact @NodeReordered.argument [_, _] [] _ _ _ (.required (h.map _))
  | branches h =>
    simp only [toNode, branchNodes_eq_map]
    exact @NodeReordered.argument [] _ _ _ _ (.branches (h.map _))
  | items _ ih =>
    simp only [toNode]
    exact @NodeReordered.argument [_] _ _ _ _ (.items ih)
  | property _ ih =>
    simp only [toNode, propertyNodes_eq_map, List.map_append, List.map_cons]
    exact @NodeReordered.argument [_] _ _ _ _ (.property ih)
  | branch _ ih =>
    simp only [toNode, branchNodes_eq_map, List.map_append, List.map_cons]
    exact @NodeReordered.argument [] _ _ _ _ (.branch ih)

/-- Keywords in front of two reordered nodes leave them so. -/
theorem NodeReordered.behind (front : List (Text × Json.Value)) {n m : Json.Value}
    (h : NodeReordered n m) :
    NodeReordered (.object (front ++ fieldsOf n)) (.object (front ++ fieldsOf m)) := by
  -- Only the steps of whole nodes count; nothing is claimed of single arguments.
  refine @NodeReordered.rec
    (fun n m _ => NodeReordered (.object (front ++ fieldsOf n)) (.object (front ++ fieldsOf m)))
    (fun _ _ _ _ => True) (fun _ => .refl _) (fun _ _ ih₁ ih₂ => .trans ih₁ ih₂) ?_ (fun _ => trivial)
    (fun _ => trivial) (fun _ => trivial) (fun _ _ => trivial) (fun _ _ => trivial)
    (fun _ _ => trivial) n m h
  intro before after keyword arg arg' harg _
  simp only [fieldsOf, ← List.append_assoc]
  exact .argument harg

theorem nodeReordered_document {s t : Shape} (h : (ofShape s).Reordered (ofShape t))
    (title : Option Text) : NodeReordered (document s title) (document t title) :=
  (nodeReordered_toNode h).behind [("$schema", .string dialect), ("title", titleNode title)]

/-! ## Equal shapes -/

theorem reordered_object_of_pairs {ps : List ((Text × Schema) × (Text × Schema))}
    (hps : ∀ p ∈ ps, p.1.1 = p.2.1 ∧ p.1.2.Reordered p.2.2) (before : List (Text × Schema))
    (required : List Text) :
    Reordered (.object (before ++ ps.map Prod.fst) required)
      (.object (before ++ ps.map Prod.snd) required) := by
  induction ps generalizing before with
  | nil => exact .refl _
  | cons p ps ih =>
    obtain ⟨⟨key, s⟩, ⟨key', t⟩⟩ := p
    obtain ⟨⟨hkey, hst⟩, htail⟩ := List.forall_mem_cons.1 hps
    obtain rfl : key = key' := hkey
    have hrest := ih htail (before ++ [(key, t)])
    simp only [List.append_assoc, List.singleton_append] at hrest
    exact .trans (.property hst) hrest

theorem reordered_anyOf_of_pairs {ps : List (Schema × Schema)} (hps : ∀ p ∈ ps, p.1.Reordered p.2)
    (before : List Schema) :
    Reordered (.anyOf (before ++ ps.map Prod.fst)) (.anyOf (before ++ ps.map Prod.snd)) := by
  induction ps generalizing before with
  | nil => exact .refl _
  | cons p ps ih =>
    obtain ⟨s, t⟩ := p
    obtain ⟨hst, hps⟩ := List.forall_mem_cons.1 hps
    have hrest := ih hps (before ++ [t])
    simp only [List.append_assoc, List.singleton_append] at hrest
    exact .trans (.branch hst) hrest

theorem requiredKeys_perm {fs gs : List (Text × Shape)} (h : fs.Perm gs) :
    (requiredKeys fs).Perm (requiredKeys gs) := (h.filter _).map _

/-- Partners are required together. -/
theorem requiredKeys_of_pairs {ps : List ((Text × Shape) × (Text × Shape))}
    (hps : ∀ p ∈ ps, p.1.1 = p.2.1 ∧ p.1.2.strip.optional = p.2.2.strip.optional) :
    requiredKeys (ps.map Prod.fst) = requiredKeys (ps.map Prod.snd) := by
  induction ps with
  | nil => rfl
  | cons p ps ih =>
    obtain ⟨⟨hkey, hoptional⟩, hps⟩ := List.forall_mem_cons.1 hps
    have ih := ih hps
    simp only [requiredKeys, List.map_cons, List.filter_cons, hoptional] at ih ⊢
    split
    · simp only [List.map_cons, hkey, ih]
    · exact ih

theorem reordered_ofShape_object_perm {fs gs : List (Text × Shape)} (h : fs.Perm gs) :
    (ofShape (.object fs)).Reordered (ofShape (.object gs)) := by
  rw [ofShape_object, ofShape_object]
  exact .trans (.properties (h.map _)) (.required (requiredKeys_perm h))

theorem reordered_ofShape_object_of_pairs {ps : List ((Text × Shape) × (Text × Shape))}
    (hps : ∀ p ∈ ps, p.1.1 = p.2.1 ∧ p.1.2.strip.optional = p.2.2.strip.optional ∧
      (ofShape p.1.2.strip.present).Reordered (ofShape p.2.2.strip.present)) :
    (ofShape (.object (ps.map Prod.fst))).Reordered (ofShape (.object (ps.map Prod.snd))) := by
  have hkeys := requiredKeys_of_pairs fun p hp => ⟨(hps p hp).1, (hps p hp).2.1⟩
  have hpairs : ∀ p ∈ ps.map fun p =>
      ((p.1.1, ofShape p.1.2.strip.present), (p.2.1, ofShape p.2.2.strip.present)),
      p.1.1 = p.2.1 ∧ p.1.2.Reordered p.2.2 :=
    List.forall_mem_map.2 fun p hp => ⟨(hps p hp).1, (hps p hp).2.2⟩
  have hproperties := reordered_object_of_pairs hpairs [] (requiredKeys (ps.map Prod.fst))
  rw [ofShape_object, ofShape_object, ← hkeys]
  simpa only [List.map_map, Function.comp_def, List.nil_append] using hproperties

theorem reordered_ofShape_branches {ms ns : List Shape} {ps : List (Shape × Shape)}
    (hfst : ps.map Prod.fst = ms) (hperm : (ps.map Prod.snd).Perm ns)
    (hps : ∀ p ∈ ps, (ofShape p.1).Reordered (ofShape p.2)) :
    Reordered (.anyOf (ms.map ofShape)) (.anyOf (ns.map ofShape)) := by
  have hpairs : ∀ p ∈ ps.map fun p => (ofShape p.1, ofShape p.2), p.1.Reordered p.2 :=
    List.forall_mem_map.2 hps
  have hbranches := reordered_anyOf_of_pairs hpairs []
  have hperm := hperm.map ofShape
  rw [← hfst]
  simp only [List.map_map, Function.comp_def, List.nil_append] at hbranches hperm ⊢
  exact .trans hbranches (.branches hperm)

/-- The alternatives of equal unions can be paired with equal ones. -/
theorem exists_pairing_of_alternatives {s t : Shape} (hs : s.WellFormed) (h : s.same t = true)
    (hu : s.isUnion = true) :
    ∃ ps : List (Shape × Shape), ps.map Prod.fst = s.alternatives ∧
      (ps.map Prod.snd).Perm t.alternatives ∧ ∀ p ∈ ps, p.1.same p.2 = true := by
  cases s with
  | union ms =>
    obtain ⟨ns, rfl, hlen, hmn⟩ := same_inv h
    exact exists_full_pairing hmn (pairwise_partners_of_wellFormed hs) (Nat.le_of_eq hlen.symm)
  | _ => cases hu

theorem size_present_lt_of_mem {f : Text × Shape} {fs : List (Text × Shape)} (hf : f ∈ fs) :
    f.2.strip.present.size < (Shape.object fs).size := by
  have := size_le_sizeFields hf
  have := size_strip_le f.2
  simp only [size]
  omega

/-- The partners of fields and members have reordered schemas, and stand in some order themselves. A
union that is stripped to one shape is so on both sides. -/
theorem reordered_of_same {s t : Shape} (hs : s.WellFormed) (ht : t.WellFormed)
    (h : s.same t = true) : (ofShape s).Reordered (ofShape t) := by
  induction hn : s.size using Nat.strongRecOn generalizing s t with
  | ind n ih =>
    subst hn
    cases s with
    | unknown =>
      cases same_inv h
      exact .refl _
    | scalar k =>
      cases same_inv h
      exact .refl _
    | optional a =>
      obtain ⟨b, rfl, hab⟩ := same_inv h
      rw [wellFormed_optional_iff] at hs ht
      simp only [ofShape]
      exact ih a.size (by simp [size]) hs ht hab rfl
    | array a =>
      obtain ⟨b, rfl, hab⟩ := same_inv h
      rw [wellFormed_array_iff] at hs ht
      simp only [ofShape]
      exact .items (ih a.size (by simp [size]) hs ht hab rfl)
    | object fs =>
      obtain ⟨gs, rfl, hlen, hfs⟩ := same_inv h
      obtain ⟨hd, hfwf⟩ := wellFormed_object_iff.1 hs
      obtain ⟨-, hgwf⟩ := wellFormed_object_iff.1 ht
      obtain ⟨ps, rfl, hperm, hps⟩ := exists_full_pairing (field_partners hfs)
        (pairwise_field_partners hd) (Nat.le_of_eq hlen.symm)
      refine .trans (reordered_ofShape_object_of_pairs fun p hp => ?_) (reordered_ofShape_object_perm hperm)
      have hfst : p.1 ∈ ps.map Prod.fst := List.mem_map_of_mem hp
      have hf := hfwf p.1 hfst
      have hg := hgwf p.2 (hperm.mem_iff.1 (List.mem_map_of_mem hp))
      obtain ⟨hoptional, hpresent⟩ := same_strip hf hg (hps p hp).2
      exact ⟨(hps p hp).1, hoptional,
        ih _ (size_present_lt_of_mem hfst) (wellFormed_strip hf) (wellFormed_strip hg) hpresent rfl⟩
    | union ms =>
      obtain ⟨ns, rfl, -⟩ := same_inv h
      obtain ⟨-, hpresent⟩ := same_strip hs ht h
      have hunion := isUnion_eq_of_same hpresent
      have hswf := wellFormed_strip hs
      have htwf := wellFormed_strip ht
      cases hu : (union ms).strip.present.isUnion with
      | true =>
        rw [ofShape_union_of_isUnion hu, ofShape_union_of_isUnion (hunion ▸ hu)]
        obtain ⟨ps, hfst, hperm, hps⟩ := exists_pairing_of_alternatives hswf hpresent hu
        refine reordered_ofShape_branches hfst hperm fun p hp => ?_
        have hm : p.1 ∈ (union ms).strip.present.alternatives := hfst ▸ List.mem_map_of_mem hp
        have hn := hperm.mem_iff.1 (List.mem_map_of_mem hp)
        have hsize : p.1.size < (union ms).size := by
          have := size_lt_of_mem_alternatives hu hm
          have := size_strip_le (union ms)
          omega
        exact ih _ hsize (wellFormed_of_mem_alternatives hswf hm)
          (wellFormed_of_mem_alternatives htwf hn) (hps p hp) rfl
      | false =>
        have hsize : (union ms).strip.present.size < (union ms).size := by
          rcases strip_eq_or_size_lt (union ms) with h | h
          · rw [h] at hu
            cases hu
          · exact h
        rw [ofShape_union_of_not_isUnion hu, ofShape_union_of_not_isUnion (hunion ▸ hu)]
        exact ih _ hsize hswf htwf hpresent rfl

/-! ## What stands in a schema -/

mutual

/-- A schema and all schemas in it. -/
def parts : Schema → List Schema
  | .any => [.any]
  | .scalar k => [.scalar k]
  | .array s => .array s :: s.parts
  | .object ps required => .object ps required :: propertyParts ps
  | .anyOf ss => .anyOf ss :: branchParts ss

def propertyParts : List (Text × Schema) → List Schema
  | [] => []
  | (_, s) :: ps => s.parts ++ propertyParts ps

def branchParts : List Schema → List Schema
  | [] => []
  | s :: ss => s.parts ++ branchParts ss

end

def branches : Schema → List Schema
  | .anyOf ss => ss
  | _ => []

def required : Schema → List Text
  | .object _ required => required
  | _ => []

/-- As many branches and the same required keys. -/
def Alike (s t : Schema) : Prop :=
  s.branches.length = t.branches.length ∧ s.required.Perm t.required

instance : IsTrans Schema Alike where
  trans _ _ _ h₁ h₂ := ⟨h₁.1.trans h₂.1, h₁.2.trans h₂.2⟩

theorem alike_refl (s : Schema) : s.Alike s := ⟨rfl, .refl _⟩

theorem propertyParts_eq_flatMap (ps : List (Text × Schema)) :
    propertyParts ps = ps.flatMap fun p => p.2.parts := by
  induction ps with
  | nil => rfl
  | cons p ps ih => rw [propertyParts, ih, List.flatMap_cons]

theorem branchParts_eq_flatMap (ss : List Schema) : branchParts ss = ss.flatMap parts := by
  induction ss with
  | nil => rfl
  | cons s ss ih => rw [branchParts, ih, List.flatMap_cons]

/-- Whether the elements of two lists can be paired so that partners are alike. -/
def Matched (ss ts : List Schema) : Prop := Multiset.Rel Alike (ss : Multiset Schema) ts

theorem matched_of_perm {ss ts : List Schema} (h : ss.Perm ts) : Matched ss ts := by
  rw [Matched, Multiset.coe_eq_coe.2 h]
  exact Multiset.rel_refl_of_refl_on fun s _ => alike_refl s

theorem Matched.cons {s t : Schema} {ss ts : List Schema} (h : s.Alike t) (hst : Matched ss ts) :
    Matched (s :: ss) (t :: ts) := Multiset.Rel.cons h hst

theorem Matched.append {ss ts ss' ts' : List Schema} (h : Matched ss ts) (h' : Matched ss' ts') :
    Matched (ss ++ ss') (ts ++ ts') := by
  simp only [Matched, ← Multiset.coe_add] at h h' ⊢
  exact h.add h'

/-- A part that is replaced by one whose parts match its own. -/
theorem Matched.between {ss ts : List Schema} (h : Matched ss ts) (before after : List Schema) :
    Matched (before ++ (ss ++ after)) (before ++ (ts ++ after)) :=
  (matched_of_perm (.refl _)).append (h.append (matched_of_perm (.refl _)))

theorem matched_parts {s t : Schema} (h : s.Reordered t) : Matched s.parts t.parts := by
  induction h with
  | refl s => exact matched_of_perm (.refl _)
  | trans _ _ ih₁ ih₂ => exact Multiset.Rel.trans Alike ih₁ ih₂
  | properties h =>
    simp only [parts, propertyParts_eq_flatMap]
    exact (matched_of_perm (h.flatMap_right _)).cons ⟨rfl, .refl _⟩
  | required h => exact (matched_of_perm (.refl _)).cons ⟨rfl, h⟩
  | branches h =>
    simp only [parts, branchParts_eq_flatMap]
    exact (matched_of_perm (h.flatMap_right _)).cons ⟨h.length_eq, .refl _⟩
  | items _ ih => exact ih.cons ⟨rfl, .refl _⟩
  | property _ ih =>
    simp only [parts, propertyParts_eq_flatMap, List.flatMap_append, List.flatMap_cons]
    exact (ih.between _ _).cons ⟨rfl, .refl _⟩
  | branch _ ih =>
    simp only [parts, branchParts_eq_flatMap, List.flatMap_append, List.flatMap_cons]
    exact (ih.between _ _).cons ⟨by simp [branches], .refl _⟩

/-- Equal shapes have the same schema but for the order of properties, required keys and branches at
every depth, and so have their documents. All that stands in one schema can be paired with what stands
in the other, so that partners have as many branches and the same required keys. It does not matter
then in which order fields and members were first seen. -/
theorem same_emits_reordered :
    (∀ s t : Shape, s.WellFormed → t.WellFormed → s.same t = true →
      (ofShape s).Reordered (ofShape t) ∧
      NodeReordered (ofShape s).toNode (ofShape t).toNode ∧
      (∀ title, NodeReordered (document s title) (document t title)) ∧
      Matched (ofShape s).parts (ofShape t).parts) ∧
    ∀ s t : Shape, s.WellFormed → s.Reordered t →
      ∀ title, NodeReordered (document s title) (document t title) := by
  refine ⟨fun s t hs ht h => ?_, fun s t hs h => ?_⟩
  · have hschema := reordered_of_same hs ht h
    exact ⟨hschema, nodeReordered_toNode hschema, nodeReordered_document hschema,
      matched_parts hschema⟩
  · obtain ⟨ht, hsame⟩ := same_of_reordered hs h
    exact nodeReordered_document (reordered_of_same hs ht hsame)

/-- Fields in another order, one of which is stripped to a single shape on both sides, and a union in
an array with its members in another order. -/
theorem same_emits_reordered_collapsing :
    let n : Shape := .scalar .number
    let u : Shape := .union [.scalar .null, .array n]
    let u' : Shape := .union [.array n, .scalar .null]
    let s : Shape := .object [("a", .union [.optional n, n]), ("b", .array u)]
    let t : Shape := .object [("b", .array u'), ("a", .union [n, .optional n])]
    (s.WellFormed ∧ t.WellFormed ∧ s.same t = true) ∧ (ofShape s).Reordered (ofShape t) ∧
      NodeReordered (document s (some "T")) (document t (some "T")) ∧
      Matched (ofShape s).parts (ofShape t).parts := by
  intro n u u' s t
  have hs : s.WellFormed := by
    simp +decide [s, u, n, wellFormed_object_iff, wellFormed_union_iff, wellFormed_array_iff,
      wellFormed_optional_iff, Entries.Distinct, WellFormed.scalar]
  have ht : t.WellFormed := by
    simp +decide [t, u', n, wellFormed_object_iff, wellFormed_union_iff, wellFormed_array_iff,
      wellFormed_optional_iff, Entries.Distinct, WellFormed.scalar]
  have hsame : s.same t = true := by decide
  obtain ⟨hreordered, -, hdocument, hmatched⟩ := same_emits_reordered.1 s t hs ht hsame
  exact ⟨⟨hs, ht, hsame⟩, hreordered, hdocument (some "T"), hmatched⟩

end JsonShape.Schema
