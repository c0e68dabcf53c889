import JsonShape.Datum.ToValue
import JsonShape.Proofs.Datum.Writing
/-!
# JsonShape.Proofs.Datum.Parts

What a datum holds, and the part of it that keeps it from being read as JSON.

* `Datum.children`, `Datum.Reaches`: the elements of lists and tuples, and the values of mappings; what
  lies below a datum.
* `Datum.visits`, `Datum.parts`: the keys and the data that reading comes by, into the depth first and
  from left to right, and the data among them.
* `Datum.Read`: how reading ends, told by the first fault on its way.
* `Datum.toValue?_eq_error_iff`: a datum has no JSON value just if there is a fault on the way, and the
  first one is reported.
* `Datum.Writable`: all that may have to be written is short enough. Then the only faults are foreign
  data.
-/

namespace JsonShape.Datum

/-! ## Parts -/

/-- The data directly inside; keys of mappings and members of sets are not among them. -/
def children : Datum → List Datum
  | .list items => items
  | .tuple items => items
  | .mapping entries => entries.map Prod.snd
  | _ => []

/-- Induction from what stands directly inside. -/
theorem ind {motive : Datum → Prop} (step : ∀ d, (∀ c ∈ d.children, motive c) → motive d)
    (d : Datum) : motive d :=
  have leaf : ∀ d : Datum, d.children = [] → motive d := fun d h => step d (by simp [h])
  Datum.rec (motive_1 := motive) (motive_2 := fun ds => ∀ c ∈ ds, motive c)
    (motive_3 := fun es => ∀ c ∈ es.map Prod.snd, motive c) (motive_4 := fun e => motive e.2)
    (leaf _ rfl) (fun _ => leaf _ rfl) (fun _ => leaf _ rfl) (fun _ => leaf _ rfl)
    (fun _ => leaf _ rfl) (fun ds h => step (.list ds) h) (fun ds h => step (.tuple ds) h)
    (fun es h => step (.mapping es) h) (fun _ => leaf _ rfl) (fun _ _ => leaf _ rfl)
    (fun _ _ _ => leaf _ rfl)
    (fun _ h => nomatch h)
    (fun _ _ hd hds => List.forall_mem_cons.2 ⟨hd, hds⟩)
    (fun _ h => nomatch h)
    (fun _ _ he hes => List.forall_mem_cons.2 ⟨he, hes⟩)
    (fun _ _ _ hd => hd) d

/-- A datum reaches itself, and what its children reach. -/
inductive Reaches : Datum → Datum → Prop where
  | here (d : Datum) : Reaches d d
  | inside {d c e : Datum} : c ∈ d.children → Reaches c e → Reaches d e

/-- What reading comes by: a key, of which it needs the text, or a datum. -/
inductive Visit where
  | key (k : Datum)
  | datum (d : Datum)

mutual

/-- A datum and what reading comes by in it, depth first and from the left. -/
def visits : Datum → List Visit
  | .list items => .datum (.list items) :: visitsOfItems items
  | .tuple items => .datum (.tuple items) :: visitsOfItems items
  | .mapping entries => .datum (.mapping entries) :: visitsOfEntries entries
  | d => [.datum d]

def visitsOfItems : List Datum → List Visit
  | [] => []
  | d :: ds => d.visits ++ visitsOfItems ds

def visitsOfEntries : List (Datum × Datum) → List Visit
  | [] => []
  | (k, d) :: es => .key k :: (d.visits ++ visitsOfEntries es)

end

def Visit.datum? : Visit → Option Datum
  | .key _ => none
  | .datum d => some d

/-- A datum and all that it reaches, depth first and from the left. -/
def parts (d : Datum) : List Datum := d.visits.filterMap Visit.datum?

theorem filterMap_datum_cons (d : Datum) (vs : List Visit) :
    (Visit.datum d :: vs).filterMap Visit.datum? = d :: vs.filterMap Visit.datum? := rfl

theorem filterMap_visitsOfItems (ds : List Datum) :
    (visitsOfItems ds).filterMap Visit.datum? = ds.flatMap parts := by
  induction ds with
  | nil => rfl
  | cons d ds ih => rw [visitsOfItems, List.filterMap_append, ih, List.flatMap_cons, parts]

theorem filterMap_visitsOfEntries (es : List (Datum × Datum)) :
    (visitsOfEntries es).filterMap Visit.datum? = (es.map Prod.snd).flatMap parts := by
  induction es with
  | nil => rfl
  | cons e es ih =>
    obtain ⟨k, d⟩ := e
    rw [visitsOfEntries, List.filterMap_cons_none rfl, List.filterMap_append, ih, List.map_cons,
      List.flatMap_cons, parts]

theorem parts_eq (d : Datum) : d.parts = d :: d.children.flatMap parts := by
  cases d with
  | list ds => rw [parts, visits, filterMap_datum_cons, filterMap_visitsOfItems]; rfl
  | tuple ds => rw [parts, visits, filterMap_datum_cons, filterMap_visitsOfItems]; rfl
  | mapping es => rw [parts, visits, filterMap_datum_cons, filterMap_visitsOfEntries]; rfl
  | _ => rfl

theorem mem_parts_iff {d e : Datum} : e ∈ d.parts ↔ d.Reaches e := by
  constructor
  · induction d using ind with
    | step d ih =>
      rw [parts_eq, List.mem_cons, List.mem_flatMap]
      rintro (rfl | ⟨c, hc, he⟩)
      · exact .here e
      · exact .inside hc (ih c hc he)
  · intro h
    induction h with
    | here d => rw [parts_eq]; exact List.mem_cons_self
    | inside hc _ ih =>
      rw [parts_eq]
      exact List.mem_cons_of_mem _ (List.mem_flatMap.2 ⟨_, hc, ih⟩)

/-! ## Reading -/

/-- Neither null, nor a truth value, a number, a text, a list or a mapping. -/
def isForeign : Datum → Bool
  | .bytes _ => true
  | .set _ => true
  | .other _ _ _ => true
  | _ => false

/-- A key is at fault if its text cannot be written. A foreign datum always is, and is reported with how
it is displayed, if that can be written. -/
def Visit.fault? (limit : Nat) : Visit → Option Fault
  | .key k =>
    match k.text limit with
    | .error e => some (.tooManyDigits e)
    | .ok _ => none
  | .datum d =>
    if d.isForeign then
      match d.display limit with
      | .error e => some (.tooManyDigits e)
      | .ok shown => some (.foreign d shown)
    else none

section Limit

variable {limit : Nat}

/-- Reading that makes some visits one after the other ends with the first fault, or with a result if
there is none. -/
inductive Read {α : Type} (limit : Nat) (met : List Visit) : Except Fault α → Prop where
  | ok (a : α) : met.findSome? (Visit.fault? limit) = none → Read limit met (.ok a)
  | error (f : Fault) : met.findSome? (Visit.fault? limit) = some f → Read limit met (.error f)

namespace Read

variable {α β : Type} {met more : List Visit} {r : Except Fault α}

theorem map (h : Read limit met r) (g : α → β) : Read limit met (r.map g) := by
  cases h with
  | ok a h => exact .ok (g a) h
  | error f h => exact .error f h

/-- Visits without fault are passed over. -/
theorem behind (hmet : met.findSome? (Visit.fault? limit) = none) (h : Read limit more r) :
    Read limit (met ++ more) r := by
  have hfind : (met ++ more).findSome? (Visit.fault? limit) = more.findSome? (Visit.fault? limit) := by
    rw [List.findSome?_append, hmet, Option.none_or]
  cases h with
  | ok a h => exact .ok a (hfind.trans h)
  | error f h => exact .error f (hfind.trans h)

theorem cons {v : Visit} (hv : v.fault? limit = none) (h : Read limit more r) :
    Read limit (v :: more) r := by
  have hmet : [v].findSome? (Visit.fault? limit) = none := by simp [hv]
  exact h.behind hmet

/-- What stands behind a failure is not read any more. -/
theorem bind (h : Read limit met r) {next : α → Except Fault β}
    (hnext : ∀ a, Read limit more (next a)) : Read limit (met ++ more) (r.bind next) := by
  cases h with
  | ok a h => exact (hnext a).behind h
  | error f h => exact .error f (by rw [List.findSome?_append, h, Option.some_or])

theorem eq_error_iff (h : Read limit met r) {f : Fault} :
    r = .error f ↔ met.findSome? (Visit.fault? limit) = some f := by
  cases h with
  | ok a h => simp [h]
  | error g h => simp [h]

end Read

theorem toValue?_list (ds : List Datum) :
    toValue? limit (.list ds) = (toValues? limit ds).map .array := by
  rw [toValue?]
  cases toValues? limit ds <;> rfl

theorem toValue?_tuple (ds : List Datum) :
    toValue? limit (.tuple ds) = (toValues? limit ds).map .array := by
  rw [toValue?]
  cases toValues? limit ds <;> rfl

theorem toValue?_mapping (es : List (Datum × Datum)) :
    toValue? limit (.mapping es) =
      (toFields? limit es).map fun fs => .object (Entries.ofPairs fs) := by
  rw [toValue?]
  cases toFields? limit es <;> rfl

theorem toValues?_cons (d : Datum) (ds : List Datum) :
    toValues? limit (d :: ds) =
      (d.toValue? limit).bind fun v => (toValues? limit ds).map (v :: ·) := by
  rw [toValues?]
  cases d.toValue? limit with
  | error f => rfl
  | ok v => cases toValues? limit ds <;> rfl

theorem toFields?_cons (k d : Datum) (es : List (Datum × Datum)) :
    toFields? limit ((k, d) :: es) =
      ((k.text limit).mapError Fault.tooManyDigits).bind fun key =>
        (d.toValue? limit).bind fun v => (toFields? limit es).map ((key, v) :: ·) := by
  rw [toFields?]
  cases k.text limit with
  | error e => rfl
  | ok key =>
    cases d.toValue? limit with
    | error f => rfl
    | ok v => cases toFields? limit es <;> rfl

theorem read_refuse {α : Type} {d : Datum} (hd : d.isForeign = true) :
    Read limit [.datum d] (Except.error (d.refuse limit) : Except Fault α) := by
  refine .error _ ?_
  rw [List.findSome?_singleton, Visit.fault?, if_pos hd, refuse]
  cases d.display limit <;> rfl

theorem read_text (k : Datum) :
    Read limit [.key k] ((k.text limit).mapError Fault.tooManyDigits) := by
  have hfault : [Visit.key k].findSome? (Visit.fault? limit) =
      match k.text limit with
      | .error e => some (.tooManyDigits e)
      | .ok _ => none := List.findSome?_singleton
  cases hk : k.text limit with
  | error e => exact .error _ (by rw [hfault, hk])
  | ok key => exact .ok key (by rw [hfault, hk])

theorem read_toValues? {ds : List Datum} (h : ∀ d ∈ ds, Read limit d.visits (d.toValue? limit)) :
    Read limit (visitsOfItems ds) (toValues? limit ds) := by
  induction ds with
  | nil => exact .ok [] rfl
  | cons d ds ih =>
    obtain ⟨hd, hds⟩ := List.forall_mem_cons.1 h
    rw [toValues?_cons, visitsOfItems]
    exact hd.bind fun v => (ih hds).map (v :: ·)

theorem read_toFields? {es : List (Datum × Datum)}
    (h : ∀ d ∈ es.map Prod.snd, Read limit d.visits (d.toValue? limit)) :
    Read limit (visitsOfEntries es) (toFields? limit es) := by
  induction es with
  | nil => exact .ok [] rfl
  | cons e es ih =>
    obtain ⟨k, d⟩ := e
    obtain ⟨hd, hes⟩ := List.forall_mem_cons.1 h
    rw [toFields?_cons, visitsOfEntries]
    exact (read_text k).bind fun key => hd.bind fun v => (ih hes).map ((key, v) :: ·)

theorem read_toValue? (d : Datum) : Read limit d.visits (d.toValue? limit) := by
  induction d using ind with
  | step d ih =>
    cases d with
    | list ds => rw [toValue?_list, visits]; exact ((read_toValues? ih).map _).cons rfl
    | tuple ds => rw [toValue?_tuple, visits]; exact ((read_toValues? ih).map _).cons rfl
    | mapping es => rw [toValue?_mapping, visits]; exact ((read_toFields? ih).map _).cons rfl
    | bytes bs | set ds | other kind shown text => rw [toValue?]; exact read_refuse rfl
    | _ => rw [toValue?]; exact .ok _ rfl

/-- A datum has no value just if there is a fault on the way through it; the first one is reported. -/
theorem toValue?_eq_error_iff {d : Datum} {f : Fault} :
    d.toValue? limit = .error f ↔ d.visits.findSome? (Visit.fault? limit) = some f :=
  d.read_toValue?.eq_error_iff

/-! ## Data that can be written -/

/-- The integers that may have to be written on a visit. -/
def Visit.integers : Visit → List Int
  | .key k => k.integers
  | .datum d => if d.isForeign then d.integers else []

/-- All integers in keys and in foreign parts are short. -/
def Writable (limit : Nat) (d : Datum) : Prop :=
  ∀ v ∈ d.visits, ∀ n ∈ v.integers, Text.IsShort limit n

theorem writable_zero (d : Datum) : d.Writable 0 := fun _ _ n _ => Text.isShort_zero n

theorem Visit.fault?_key_of_short {k : Datum} (h : ∀ n ∈ k.integers, Text.IsShort limit n) :
    (Visit.key k).fault? limit = none := by
  obtain ⟨key, hkey⟩ := (written_text limit k).exists_eq_ok_iff.2 h
  rw [Visit.fault?, hkey]

theorem Visit.exists_fault?_eq_of_short {d : Datum} (hd : d.isForeign = true)
    (h : ∀ n ∈ d.integers, Text.IsShort limit n) :
    ∃ shown, d.display limit = .ok shown ∧ (Visit.datum d).fault? limit = some (.foreign d shown) := by
  obtain ⟨shown, hshown⟩ := (written_display limit d).exists_eq_ok_iff.2 h
  exact ⟨shown, hshown, by rw [Visit.fault?, if_pos hd, hshown]⟩

/-- If all can be written, the first fault is the first foreign datum. -/
theorem findSome?_fault?_of_short {vs : List Visit}
    (h : ∀ v ∈ vs, ∀ n ∈ v.integers, Text.IsShort limit n) :
    match (vs.filterMap Visit.datum?).find? isForeign with
    | none => vs.findSome? (Visit.fault? limit) = none
    | some d => ∃ shown, d.display limit = .ok shown ∧
        vs.findSome? (Visit.fault? limit) = some (.foreign d shown) := by
  induction vs with
  | nil => rfl
  | cons v vs ih =>
    obtain ⟨hv, hvs⟩ := List.forall_mem_cons.1 h
    cases v with
    | key k =>
      rw [List.filterMap_cons_none rfl, List.findSome?_cons, Visit.fault?_key_of_short hv]
      exact ih hvs
    | datum d =>
      rw [filterMap_datum_cons, List.find?_cons, List.findSome?_cons]
      cases hd : d.isForeign with
      | false =>
        have hfault : (Visit.datum d).fault? limit = none := by simp [Visit.fault?, hd]
        rw [hfault]
        exact ih hvs
      | true =>
        rw [Visit.integers, if_pos hd] at hv
        obtain ⟨shown, hshown, hfault⟩ := Visit.exists_fault?_eq_of_short hd hv
        rw [hfault]
        exact ⟨shown, hshown, rfl⟩

end Limit

end JsonShape.Datum
