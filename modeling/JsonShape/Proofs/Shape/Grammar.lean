import JsonShape.Proofs.Json.Value
import JsonShape.Proofs.Shape.Node
/-!
# JsonShape.Proofs.Shape.Grammar

The grammar of nodes, and which nodes are written as they were read.

* `Shape.IsNode`: the grammar.
* `Shape.FirstFault`: what is wrong with a node, where several things are the first of them.
* `Shape.isNode_or_firstFault`: a node is in the grammar or has a fault.
* `Shape.toNode_eq_iff`: reading and writing gives the node back exactly if its unions are separate.
* `Shape.reads_grammar`: reading accepts the grammar and reports the first fault of all else.
-/

namespace JsonShape.Shape

/-! ## The grammar -/

def groundNames : List Text := ["unknown", "null", "number", "bool", "string"]

inductive IsNode : Json.Value → Prop where
  | name {name : Text} : name ∈ groundNames → IsNode (.string name)
  | optional {v : Json.Value} : IsNode v → IsNode (.object [("optional", v)])
  | array {v : Json.Value} : IsNode v → IsNode (.object [("array", v)])
  | union {vs : List Json.Value} : (∀ v ∈ vs, IsNode v) → IsNode (.object [("union", .array vs)])
  | object {fs : List (Text × Json.Value)} : (∀ f ∈ fs, IsNode f.2) →
      IsNode (.object [("object", .object fs)])

/-- The first fault of a value, in the order in which it is written. -/
inductive FirstFault : Json.Value → NodeFault → Prop where
  | name {name : Text} : name ∉ groundNames → FirstFault (.string name) (.unknownKind name)
  | form {v : Json.Value} : (∀ name, v ≠ .string name) → (∀ kind body, v ≠ .object [(kind, body)]) →
      FirstFault v (.notANode v)
  | kind {kind : Text} {body : Json.Value} :
      kind ∉ (["optional", "array", "union", "object"] : List Text) →
      FirstFault (.object [(kind, body)]) (.unknownKind kind)
  | optional {v : Json.Value} {f : NodeFault} : FirstFault v f →
      FirstFault (.object [("optional", v)]) f
  | array {v : Json.Value} {f : NodeFault} : FirstFault v f → FirstFault (.object [("array", v)]) f
  | members {v : Json.Value} : (∀ vs, v ≠ .array vs) →
      FirstFault (.object [("union", v)]) (.membersNotAList v)
  | member {before after : List Json.Value} {v : Json.Value} {f : NodeFault} :
      (∀ u ∈ before, IsNode u) → FirstFault v f →
      FirstFault (.object [("union", .array (before ++ v :: after))]) f
  | fields {v : Json.Value} : (∀ fs, v ≠ .object fs) →
      FirstFault (.object [("object", v)]) (.fieldsNotAMapping v)
  | field {before after : List (Text × Json.Value)} {key : Text} {v : Json.Value} {f : NodeFault} :
      (∀ u ∈ before, IsNode u.2) → FirstFault v f →
      FirstFault (.object [("object", .object (before ++ (key, v) :: after))]) f

/-! ## Every value is a node or has a fault -/

theorem forall_or_exists_first {α : Type} {P Q : α → Prop} {as : List α}
    (h : ∀ a ∈ as, P a ∨ Q a) :
    (∀ a ∈ as, P a) ∨ ∃ before a after, as = before ++ a :: after ∧ (∀ b ∈ before, P b) ∧ Q a := by
  induction as with
  | nil => exact .inl (by simp)
  | cons a as ih =>
    obtain ⟨ha, has⟩ := List.forall_mem_cons.1 h
    rcases ha with ha | ha
    · rcases ih has with has | ⟨before, b, after, rfl, hbefore, hb⟩
      · exact .inl (List.forall_mem_cons.2 ⟨ha, has⟩)
      · exact .inr ⟨a :: before, b, after, rfl, List.forall_mem_cons.2 ⟨ha, hbefore⟩, hb⟩
    · exact .inr ⟨[], a, as, rfl, by simp, ha⟩

/-- Whether a value is a node or has a first fault. -/
def Judged (v : Json.Value) : Prop := IsNode v ∨ ∃ f, FirstFault v f

theorem judged_of_form {v : Json.Value} (hname : ∀ name, v ≠ .string name)
    (hkind : ∀ kind body, v ≠ .object [(kind, body)]) : Judged v :=
  .inr ⟨_, .form hname hkind⟩

theorem judged_union {vs : List Json.Value} (h : ∀ v ∈ vs, Judged v) :
    Judged (.object [("union", .array vs)]) := by
  rcases forall_or_exists_first h with h | ⟨before, v, after, rfl, hbefore, f, hf⟩
  · exact .inl (.union h)
  · exact .inr ⟨f, .member hbefore hf⟩

theorem judged_object {fs : List (Text × Json.Value)} (h : ∀ f ∈ fs, Judged f.2) :
    Judged (.object [("object", .object fs)]) := by
  rcases forall_or_exists_first h with h | ⟨before, ⟨key, v⟩, after, rfl, hbefore, f, hf⟩
  · exact .inl (.object h)
  · exact .inr ⟨f, .field hbefore hf⟩

/-- The values one level down. -/
def children : Json.Value → List Json.Value
  | .array vs => vs
  | .object fs => fs.map Prod.snd
  | _ => []

theorem judged_kind {kind : Text} {body : Json.Value} (hbody : Judged body)
    (hchildren : ∀ v ∈ children body, Judged v) : Judged (.object [(kind, body)]) := by
  by_cases hknown : kind ∈ (["optional", "array", "union", "object"] : List Text)
  · simp only [List.mem_cons, List.not_mem_nil, or_false] at hknown
    rcases hknown with rfl | rfl | rfl | rfl
    · exact hbody.imp .optional fun ⟨f, hf⟩ => ⟨f, .optional hf⟩
    · exact hbody.imp .array fun ⟨f, hf⟩ => ⟨f, .array hf⟩
    · cases body with
      | array vs => exact judged_union hchildren
      | _ => exact .inr ⟨_, .members (by simp)⟩
    · cases body with
      | object fs => exact judged_object fun f hf => hchildren f.2 (List.mem_map_of_mem hf)
      | _ => exact .inr ⟨_, .fields (by simp)⟩
  · exact .inr ⟨_, .kind hknown⟩

/-- The members of a union stand two levels below its node, so a value is judged together with the
values one level down. -/
theorem isNode_or_firstFault (node : Json.Value) : IsNode node ∨ ∃ f, FirstFault node f := by
  suffices h : Judged node ∧ ∀ v ∈ children node, Judged v from h.1
  induction node with
  | string name =>
    refine ⟨?_, by simp [children]⟩
    by_cases h : name ∈ groundNames
    · exact .inl (.name h)
    · exact .inr ⟨_, .name h⟩
  | array vs ih => exact ⟨judged_of_form (by simp) (by simp), fun v hv => (ih v hv).1⟩
  | object fs ih =>
    have hchildren : ∀ v ∈ fs.map Prod.snd, Judged v := by
      intro v hv
      obtain ⟨f, hf, rfl⟩ := List.mem_map.1 hv
      exact (ih f hf).1
    refine ⟨?_, hchildren⟩
    match fs, ih with
    | [(kind, body)], ih =>
      obtain ⟨hbody, hdown⟩ := ih (kind, body) (by simp)
      exact judged_kind hbody hdown
    | [], _ => exact judged_of_form (by simp) (by simp)
    | _ :: _ :: _, _ => exact judged_of_form (by simp) (by simp)
  | _ => exact ⟨judged_of_form (by simp) (by simp), by simp [children]⟩

/-! ## Reading -/

theorem exists_ofName?_eq_some_iff {name : Text} :
    (∃ s, ofName? name = some s) ↔ name ∈ groundNames := by
  simp only [groundNames, List.mem_cons, List.not_mem_nil, or_false]
  unfold ofName?
  repeat' split
  all_goals simp_all

theorem ofNode?_name {name : Text} {s : Shape} (h : ofName? name = some s) :
    ofNode? (.string name) = .ok s := by
  rw [ofNode?, h]

theorem exists_of_map_eq_ok {ε α β : Type} {f : α → β} {x : Except ε α} {b : β}
    (h : x.map f = .ok b) : ∃ a, x = .ok a ∧ f a = b := by
  cases x with
  | error e => cases h
  | ok a =>
    cases h
    exact ⟨a, rfl, rfl⟩

/-! ## Lists -/

section Lists

variable {ε α β : Type} {read : α → Except ε β}

theorem mapM_eq_ok_iff {as : List α} {bs : List β} :
    as.mapM read = .ok bs ↔ as.map read = bs.map .ok := by
  induction as generalizing bs with
  | nil => cases bs <;> simp [pure, Except.pure]
  | cons a as ih =>
    rw [List.mapM_cons, List.map_cons]
    cases bs with
    | nil =>
      cases read a with
      | error e => simp [bind, Except.bind]
      | ok b => cases as.mapM read <;> simp [bind, Except.bind, pure, Except.pure]
    | cons b bs =>
      rw [List.map_cons, List.cons.injEq, ← ih]
      cases read a with
      | error e => simp [bind, Except.bind]
      | ok b' => cases as.mapM read <;> simp [bind, Except.bind, pure, Except.pure]

theorem exists_mapM_eq_ok {as : List α} (h : ∀ a ∈ as, ∃ b, read a = .ok b) :
    ∃ bs, as.mapM read = .ok bs := by
  simp only [mapM_eq_ok_iff]
  induction as with
  | nil => exact ⟨[], rfl⟩
  | cons a as ih =>
    obtain ⟨⟨b, hb⟩, has⟩ := List.forall_mem_cons.1 h
    obtain ⟨bs, hbs⟩ := ih has
    exact ⟨b :: bs, by rw [List.map_cons, List.map_cons, hb, hbs]⟩

theorem mapM_eq_error {before after : List α} {a : α} {e : ε}
    (hbefore : ∀ b ∈ before, ∃ c, read b = .ok c) (ha : read a = .error e) :
    (before ++ a :: after).mapM read = .error e := by
  induction before with
  | nil => rw [List.nil_append, List.mapM_cons, ha]; rfl
  | cons b before ih =>
    obtain ⟨⟨c, hc⟩, hbefore⟩ := List.forall_mem_cons.1 hbefore
    rw [List.cons_append, List.mapM_cons, hc, ih hbefore]
    rfl

/-- What is read from a list is written as that list if it is so for each element. -/
theorem map_write_eq_iff {write : β → α} {P : α → Prop} {as : List α} {bs : List β}
    (hread : as.mapM read = .ok bs)
    (h : ∀ a ∈ as, ∀ b, read a = .ok b → (write b = a ↔ P a)) :
    bs.map write = as ↔ ∀ a ∈ as, P a := by
  rw [mapM_eq_ok_iff] at hread
  induction as generalizing bs with
  | nil => simp [List.map_eq_nil_iff.1 hread.symm]
  | cons a as ih =>
    cases bs with
    | nil => cases hread
    | cons b bs =>
      obtain ⟨ha, has⟩ := List.forall_mem_cons.1 h
      obtain ⟨hab, hrest⟩ := List.cons.inj hread
      rw [List.map_cons, List.cons.injEq, List.forall_mem_cons, ha b hab, ih hrest has]

end Lists

theorem ofMemberNodes?_eq_mapM (vs : List Json.Value) : ofMemberNodes? vs = vs.mapM ofNode? := by
  induction vs with
  | nil => rfl
  | cons v vs ih =>
    rw [ofMemberNodes?, List.mapM_cons, ih]
    cases ofNode? v with
    | error e => rfl
    | ok s => cases vs.mapM ofNode? <;> rfl

/-- A field is read as its value, under its key. -/
def ofFieldNode? (f : Text × Json.Value) : Except NodeFault (Text × Shape) :=
  (ofNode? f.2).map fun s => (f.1, s)

theorem ofFieldNodes?_eq_mapM (fs : List (Text × Json.Value)) :
    ofFieldNodes? fs = fs.mapM ofFieldNode? := by
  induction fs with
  | nil => rfl
  | cons f fs ih =>
    obtain ⟨key, v⟩ := f
    rw [ofFieldNodes?, List.mapM_cons, ih, ofFieldNode?]
    dsimp only
    cases ofNode? v with
    | error e => rfl
    | ok s => cases fs.mapM ofFieldNode? <;> rfl

theorem exists_ofFieldNode?_eq_ok {f : Text × Json.Value} (h : ∃ s, ofNode? f.2 = .ok s) :
    ∃ g, ofFieldNode? f = .ok g := by
  obtain ⟨s, hs⟩ := h
  exact ⟨(f.1, s), by rw [ofFieldNode?, hs]; rfl⟩

/-! ## What is accepted and what is refused -/

theorem exists_ofNode?_of_isNode {node : Json.Value} (h : IsNode node) :
    ∃ s, ofNode? node = .ok s := by
  induction h with
  | name h =>
    obtain ⟨s, hs⟩ := exists_ofName?_eq_some_iff.2 h
    exact ⟨s, ofNode?_name hs⟩
  | optional _ ih =>
    obtain ⟨s, hs⟩ := ih
    exact ⟨optional s, by rw [ofNode?_optional, hs]; rfl⟩
  | array _ ih =>
    obtain ⟨s, hs⟩ := ih
    exact ⟨array s, by rw [ofNode?_array, hs]; rfl⟩
  | union _ ih =>
    obtain ⟨ms, hms⟩ := exists_mapM_eq_ok ih
    exact ⟨unionOf ms, by rw [ofNode?_union, ofMemberNodes?_eq_mapM, hms]; rfl⟩
  | @object fs _ ih =>
    obtain ⟨gs, hgs⟩ := exists_mapM_eq_ok fun f hf => exists_ofFieldNode?_eq_ok (ih f hf)
    exact ⟨object (Entries.ofPairs gs), by rw [ofNode?_object, ofFieldNodes?_eq_mapM, hgs]; rfl⟩

theorem ofNode?_of_firstFault {node : Json.Value} {f : NodeFault} (h : FirstFault node f) :
    ofNode? node = .error f := by
  induction h with
  | @name name h =>
    have hnone : ofName? name = none := by
      cases hname : ofName? name with
      | none => rfl
      | some s => exact absurd (exists_ofName?_eq_some_iff.1 ⟨s, hname⟩) h
    rw [ofNode?, hnone]
  | @form v hname hkind =>
    unfold ofNode?
    split
    · exact absurd rfl (hname _)
    · exact absurd rfl (hkind _ _)
    · rfl
  | @kind kind body h =>
    simp only [List.mem_cons, List.not_mem_nil, or_false, not_or] at h
    obtain ⟨hoptional, harray, hunion, hobject⟩ := h
    rw [ofNode?.eq_def]
    dsimp only
    rw [if_neg hoptional, if_neg harray, if_neg hunion, if_neg hobject]
  | optional _ ih => rw [ofNode?_optional, ih]; rfl
  | array _ ih => rw [ofNode?_array, ih]; rfl
  | @members v h =>
    rw [ofNode?.eq_def]
    dsimp only
    rw [if_neg (by decide), if_neg (by decide), if_pos rfl]
    split
    · exact absurd rfl (h _)
    · rfl
  | member hbefore _ ih =>
    rw [ofNode?_union, ofMemberNodes?_eq_mapM,
      mapM_eq_error (fun u hu => exists_ofNode?_of_isNode (hbefore u hu)) ih]
    rfl
  | @fields v h =>
    rw [ofNode?.eq_def]
    dsimp only
    rw [if_neg (by decide), if_neg (by decide), if_neg (by decide), if_pos rfl]
    split
    · exact absurd rfl (h _)
    · rfl
  | @field before after key v f hbefore _ ih =>
    have hfields : ∀ u ∈ before, ∃ g, ofFieldNode? u = .ok g :=
      fun u hu => exists_ofFieldNode?_eq_ok (exists_ofNode?_of_isNode (hbefore u hu))
    have hfault : ofFieldNode? (key, v) = .error f := by
      rw [ofFieldNode?, ih]
      rfl
    rw [ofNode?_object, ofFieldNodes?_eq_mapM, mapM_eq_error hfields hfault]
    rfl

theorem exists_ofNode?_iff {node : Json.Value} : (∃ s, ofNode? node = .ok s) ↔ IsNode node := by
  constructor
  · rintro ⟨s, hs⟩
    rcases isNode_or_firstFault node with h | ⟨f, hf⟩
    · exact h
    · rw [ofNode?_of_firstFault hf] at hs
      cases hs
  · exact exists_ofNode?_of_isNode

theorem ofNode?_eq_error_iff {node : Json.Value} {f : NodeFault} :
    ofNode? node = .error f ↔ FirstFault node f := by
  constructor
  · intro h
    rcases isNode_or_firstFault node with hnode | ⟨g, hg⟩
    · obtain ⟨s, hs⟩ := exists_ofNode?_of_isNode hnode
      rw [h] at hs
      cases hs
    · rw [ofNode?_of_firstFault hg] at h
      cases h
      exact hg
  · exact ofNode?_of_firstFault

/-! ## Unions in a node -/

/-- Whether a union with these members stands somewhere in a value. -/
def HasUnion (v : Json.Value) (vs : List Json.Value) : Prop :=
  ∃ path, v.At path (.object [("union", .array vs)])

/-- No node of the list is a union, and no two denote equal shapes. -/
def Separate (vs : List Json.Value) : Prop :=
  (∀ v ∈ vs, ∀ ws, v ≠ .object [("union", .array ws)]) ∧
    vs.Pairwise fun v w => ∀ s t, ofNode? v = .ok s → ofNode? w = .ok t → s.same t = false

theorem not_hasUnion_string (name : Text) (vs : List Json.Value) : ¬HasUnion (.string name) vs := by
  rintro ⟨path, h⟩
  cases (Json.Value.at_of_scalar rfl h).2

theorem hasUnion_array_iff {us vs : List Json.Value} :
    HasUnion (.array us) vs ↔ ∃ u ∈ us, HasUnion u vs := by
  constructor
  · rintro ⟨path, h⟩
    cases h with
    | item hu h => exact ⟨_, hu, _, h⟩
  · rintro ⟨u, hu, path, h⟩
    exact ⟨.item :: path, .item hu h⟩

theorem hasUnion_object_iff {fs : List (Text × Json.Value)} (hd : Entries.Distinct fs)
    {vs : List Json.Value} :
    HasUnion (.object fs) vs ↔
      fs = ([("union", .array vs)] : List (Text × Json.Value)) ∨ ∃ f ∈ fs, HasUnion f.2 vs := by
  constructor
  · rintro ⟨path, h⟩
    cases h with
    | here => exact .inl rfl
    | @key _ k u _ path hu h => exact .inr ⟨(k, u), Entries.mem_of_get?_eq_some hu, path, h⟩
  · rintro (rfl | ⟨f, hf, path, h⟩)
    · exact ⟨[], .here _⟩
    · exact ⟨.key f.1 :: path, .key (Entries.get?_of_mem hd hf) h⟩

theorem hasUnion_kind_iff {kind : Text} {body : Json.Value} {vs : List Json.Value} :
    HasUnion (.object [(kind, body)]) vs ↔
      (kind = "union" ∧ body = .array vs) ∨ HasUnion body vs := by
  rw [hasUnion_object_iff (by simp [Entries.Distinct, Entries.keys])]
  simp

/-- The mapping of an object's fields is no union, for then a list would stand where a node must. -/
theorem hasUnion_fields_iff {fs : List (Text × Json.Value)} (hd : Entries.Distinct fs)
    (hfs : ∀ f ∈ fs, IsNode f.2) {vs : List Json.Value} :
    HasUnion (.object fs) vs ↔ ∃ f ∈ fs, HasUnion f.2 vs := by
  rw [hasUnion_object_iff hd, or_iff_right]
  rintro rfl
  cases hfs _ (List.mem_singleton.2 rfl)

/-! ## Written as it was read -/

theorem toNode_of_ofName? {name : Text} {s : Shape} (h : ofName? name = some s) :
    s.toNode = .string name := by
  unfold ofName? at h
  repeat' split at h
  all_goals cases h
  all_goals simp_all [toNode, Scalar.name]

theorem isUnion_of_toNode_eq {s : Shape} {vs : List Json.Value}
    (h : s.toNode = .object [("union", .array vs)]) : s.isUnion = true := by
  cases s with
  | union ms => rfl
  | _ => simp +decide [toNode] at h

/-- The members of a union are written in place of what was read just if none was taken apart and
none dropped. -/
theorem toMemberNodes_unionOf_iff {vs : List Json.Value} {ms : List Shape}
    (h : ofMemberNodes? vs = .ok ms) :
    (firsts (ms.flatMap alternatives)).map toNode = vs ↔ ms.map toNode = vs ∧ Separate vs := by
  have hwf := wellFormed_of_ofMemberNodes? vs h
  constructor
  · intro hwritten
    obtain ⟨hflat, hd, hmembers⟩ := wellFormed_union_iff.1 (wellFormed_unionOf hwf)
    have hms : ms = firsts (ms.flatMap alternatives) := by
      have hback := ofMemberNodes?_toMemberNodes fun m hm => ofNode?_toNode (hmembers m hm)
      rw [toMemberNodes_eq_map, hwritten, h] at hback
      exact Except.ok.inj hback
    rw [← hms] at hwritten hflat hd
    subst hwritten
    refine ⟨rfl, ?_, List.pairwise_map.2 (hd.imp_of_mem fun {m n} hm hn hmn => ?_)⟩
    · intro v hv ws hunion
      obtain ⟨m, hm, rfl⟩ := List.mem_map.1 hv
      have := hflat m hm
      rw [isUnion_of_toNode_eq hunion] at this
      cases this
    · intro s t hs ht
      rw [ofNode?_toNode (hwf m hm)] at hs
      rw [ofNode?_toNode (hwf n hn)] at ht
      cases hs
      cases ht
      exact hmn
  · rintro ⟨rfl, hflat, hd⟩
    have hunion : ∀ m ∈ ms, m.isUnion = false := by
      intro m hm
      cases m with
      | union ns => exact absurd (by rw [toNode]) (hflat _ (List.mem_map_of_mem hm) _)
      | _ => rfl
    have hdistinct : ms.Pairwise fun m n => m.same n = false :=
      (List.pairwise_map.1 hd).imp_of_mem fun {m n} hm hn hmn =>
        hmn m n (ofNode?_toNode (hwf m hm)) (ofNode?_toNode (hwf n hn))
    rw [flatMap_alternatives hunion, firsts_of_pairwise hdistinct]

theorem wellFormed_body {kind : Text} {body : Json.Value}
    (h : (Json.Value.object [(kind, body)]).WellFormed) : body.WellFormed :=
  (Json.Value.wellFormed_object_iff.1 h).2 (kind, body) (List.mem_singleton.2 rfl)

theorem keys_of_mapM_ofFieldNode? {fs : List (Text × Json.Value)} {gs : List (Text × Shape)}
    (h : fs.mapM ofFieldNode? = .ok gs) : Entries.keys gs = Entries.keys fs := by
  rw [mapM_eq_ok_iff] at h
  induction fs generalizing gs with
  | nil => rw [List.map_eq_nil_iff.1 h.symm]; rfl
  | cons f fs ih =>
    cases gs with
    | nil => cases h
    | cons g gs =>
      obtain ⟨hfield, hrest⟩ := List.cons.inj h
      obtain ⟨s, -, rfl⟩ := exists_of_map_eq_ok hfield
      exact congrArg (f.1 :: ·) (ih hrest)

theorem toNode_eq_iff {node : Json.Value} (hnode : IsNode node) (hwf : node.WellFormed) {s : Shape}
    (h : ofNode? node = .ok s) : s.toNode = node ↔ ∀ vs, HasUnion node vs → Separate vs := by
  induction hnode generalizing s with
  | @name name hname =>
    obtain ⟨t, ht⟩ := exists_ofName?_eq_some_iff.2 hname
    rw [ofNode?_name ht] at h
    cases h
    exact iff_of_true (toNode_of_ofName? ht) fun vs hvs => absurd hvs (not_hasUnion_string name vs)
  | @optional v _ ih =>
    rw [ofNode?_optional] at h
    obtain ⟨t, ht, rfl⟩ := exists_of_map_eq_ok h
    simpa +decide [toNode, hasUnion_kind_iff] using ih (wellFormed_body hwf) ht
  | @array v _ ih =>
    rw [ofNode?_array] at h
    obtain ⟨t, ht, rfl⟩ := exists_of_map_eq_ok h
    simpa +decide [toNode, hasUnion_kind_iff] using ih (wellFormed_body hwf) ht
  | @union us _ ih =>
    rw [ofNode?_union] at h
    obtain ⟨ms, hms, rfl⟩ := exists_of_map_eq_ok h
    have hus := Json.Value.wellFormed_array_iff.1 (wellFormed_body hwf)
    have hmembers : ms.map toNode = us ↔ ∀ u ∈ us, ∀ vs, HasUnion u vs → Separate vs :=
      map_write_eq_iff (ofMemberNodes?_eq_mapM us ▸ hms) fun u hu t ht => ih u hu (hus u hu) ht
    have hwritten : (unionOf ms).toNode = .object [("union", .array us)] ↔
        (firsts (ms.flatMap alternatives)).map toNode = us := by
      simp [unionOf, toNode, toMemberNodes_eq_map]
    rw [hwritten, toMemberNodes_unionOf_iff hms, hmembers]
    simp only [hasUnion_kind_iff, hasUnion_array_iff]
    constructor
    · rintro ⟨hrest, hhere⟩ vs (⟨-, heq⟩ | ⟨u, hu, hvs⟩)
      · cases heq
        exact hhere
      · exact hrest u hu vs hvs
    · intro hall
      exact ⟨fun u hu vs hvs => hall vs (.inr ⟨u, hu, hvs⟩), hall us (.inl (by simp))⟩
  | @object fs hfs ih =>
    rw [ofNode?_object] at h
    obtain ⟨gs, hgs, rfl⟩ := exists_of_map_eq_ok h
    rw [ofFieldNodes?_eq_mapM] at hgs
    obtain ⟨hd, hwf⟩ := Json.Value.wellFormed_object_iff.1 (wellFormed_body hwf)
    have hgd : Entries.Distinct gs := by
      rw [Entries.Distinct, keys_of_mapM_ofFieldNode? hgs]
      exact hd
    have hfields : gs.map (fun g => (g.1, g.2.toNode)) = fs ↔
        ∀ f ∈ fs, ∀ vs, HasUnion f.2 vs → Separate vs := by
      refine map_write_eq_iff hgs fun f hf g hg => ?_
      obtain ⟨t, ht, rfl⟩ := exists_of_map_eq_ok hg
      rw [← ih f hf (hwf f hf) ht, Prod.ext_iff]
      simp
    have hwritten : (object (Entries.ofPairs gs)).toNode = .object [("object", .object fs)] ↔
        gs.map (fun g => (g.1, g.2.toNode)) = fs := by
      simp [toNode, toFieldNodes_eq_map, Entries.ofPairs_of_distinct hgd]
    rw [hwritten, hfields]
    simp only [hasUnion_kind_iff, hasUnion_fields_iff hd hfs]
    constructor
    · rintro hrest vs (⟨-, heq⟩ | ⟨f, hf, hvs⟩)
      · cases heq
      · exact hrest f hf vs hvs
    · exact fun hall f hf vs hvs => hall vs (.inr ⟨f, hf, hvs⟩)

/-- Reading accepts the nodes of the grammar and reports the first fault of all other values. What it
accepts it gives back when written, in the same order, unless a union in it has a union among its
members or two members that denote equal shapes. -/
theorem reads_grammar :
    (∀ node, (∃ s, ofNode? node = .ok s) ↔ IsNode node) ∧
    (∀ node, ¬IsNode node → ∃ f, ofNode? node = .error f) ∧
    (∀ node f, ofNode? node = .error f ↔ FirstFault node f) ∧
    ∀ node s, node.WellFormed → ofNode? node = .ok s →
      (s.toNode = node ↔ ∀ vs, HasUnion node vs → Separate vs) := by
  refine ⟨fun _ => exists_ofNode?_iff, fun node hnode => ?_, fun _ _ => ofNode?_eq_error_iff, ?_⟩
  · obtain ⟨f, hf⟩ := (isNode_or_firstFault node).resolve_left hnode
    exact ⟨f, ofNode?_of_firstFault hf⟩
  · exact fun node s hwf hs => toNode_eq_iff (exists_ofNode?_iff.1 ⟨s, hs⟩) hwf hs

/-- A union deep inside a node, a node that has it as a member of a union, and one with a number
behind it. -/
theorem reads_grammar_nested :
    let vs : List Json.Value := [.string "null", .object [("array", .string "bool")]]
    let u : Json.Value := .object [("union", .array vs)]
    let v : Json.Value := .object [("object", .object [("a", .object [("optional", u)])])]
    let w : Json.Value := .object [("union", .array [u, .string "null"])]
    let x : Json.Value := .object [("union", .array [u, .int 1, .null])]
    let s : Shape := .union [.scalar .null, .array (.scalar .bool)]
    (v.WellFormed ∧ ofNode? v = .ok (.object [("a", .optional s)]) ∧ Separate vs) ∧
      (w.WellFormed ∧ ofNode? w = .ok s ∧ s.toNode ≠ w) ∧
      ¬IsNode x ∧ ∃ f, ofNode? x = .error f ∧ FirstFault x f := by
  intro vs u v w x s
  obtain ⟨haccept, hrefuse, hfault, hwritten⟩ := reads_grammar
  have hname : ∀ name, (Json.Value.string name).WellFormed := fun name => .scalar rfl
  have hu : u.WellFormed := by
    simp [u, vs, Json.Value.wellFormed_object_iff, Json.Value.wellFormed_array_iff,
      Entries.Distinct, Entries.keys, hname]
  have hv : v.WellFormed := by
    simp [v, Json.Value.wellFormed_object_iff, Entries.Distinct, Entries.keys, hu]
  have hw : w.WellFormed := by
    simp [w, Json.Value.wellFormed_object_iff, Json.Value.wellFormed_array_iff,
      Entries.Distinct, Entries.keys, hu, hname]
  have hread : ofNode? v = .ok (.object [("a", .optional s)]) := rfl
  have hread' : ofNode? w = .ok s := rfl
  have hx : ¬IsNode x := by
    rw [← haccept]
    rintro ⟨s, hs⟩
    cases hs
  obtain ⟨f, hf⟩ := hrefuse x hx
  refine ⟨⟨hv, hread, ?_⟩, ⟨hw, hread', fun h => ?_⟩, hx, f, hf, (hfault x f).1 hf⟩
  · have hunion : HasUnion v vs := ⟨[.key "object", .key "a", .key "optional"],
      .key rfl (.key rfl (.key rfl (.here _)))⟩
    exact (hwritten v _ hv hread).1 rfl vs hunion
  · obtain ⟨hflat, -⟩ := (hwritten w s hw hread').1 h _ ⟨[], .here _⟩
    exact hflat u (by simp) vs rfl

end JsonShape.Shape
