import JsonShape.Proofs.Datum.Parts
import JsonShape.Proofs.Inference.Fold
/-!
# JsonShape.Proofs.Inference.Data

Shapes of data that may hold what JSON cannot, under a limit on the digits of integers.

* `Datum.named`, `Datum.LastUnder`: the entries of a mapping under the texts of their keys, and the
  value that counts where several keys have one text.
* `Datum.Under`, `Shape.fieldAt?`: the parts of data and of shapes along keys.
* `Shape.ofDatum?_mapping`: the shape of a mapping.
* `Shape.ofDatum?_unless_foreign`: data have shapes unless a part is foreign, and those of mappings are
  objects with the texts of their keys. Where a text has too many digits to be written, that is
  reported if it comes first.
-/

namespace JsonShape

variable {limit : Nat}

namespace Datum

/-! ## Mappings -/

/-- The entries of a mapping under the texts of their keys, in order. -/
def named (limit : Nat) (entries : List (Datum × Datum)) : List (Text × Datum) :=
  entries.filterMap fun e => (e.1.text limit).toOption.map (·, e.2)

/-- `d` is the last value whose key has the text `key`. -/
def LastUnder (limit : Nat) (key : Text) (d : Datum) (entries : List (Datum × Datum)) : Prop :=
  ∃ before behind, named limit entries = before ++ (key, d) :: behind ∧ key ∉ Entries.keys behind

/-- `Under limit d path e`: keys with the texts of `path` lead from `d` to `e`, through mappings only,
and where several keys have one text, to the last value. -/
inductive Under (limit : Nat) : Datum → List Text → Datum → Prop where
  | here (d : Datum) : Under limit d [] d
  | field {entries : List (Datum × Datum)} {key : Text} {path : List Text} {d e : Datum} :
      LastUnder limit key d entries → Under limit d path e →
      Under limit (.mapping entries) (key :: path) e

theorem lastUnder_iff {key : Text} {d : Datum} {entries : List (Datum × Datum)} :
    LastUnder limit key d entries ↔ Entries.get? key (named limit entries).reverse = some d :=
  Entries.get?_reverse_eq_some_iff.symm

theorem named_cons {k d : Datum} {key : Text} (h : k.text limit = .ok key)
    (es : List (Datum × Datum)) : named limit ((k, d) :: es) = (key, d) :: named limit es := by
  rw [named, List.filterMap_cons_some (b := (key, d)) (by rw [h]; rfl), named]

section Fields

variable {es : List (Datum × Datum)} {fs : List (Text × Json.Value)}

theorem toFields?_cons_eq_ok {k d : Datum} (h : toFields? limit ((k, d) :: es) = .ok fs) :
    ∃ key v gs, k.text limit = .ok key ∧ d.toValue? limit = .ok v ∧ toFields? limit es = .ok gs ∧
      fs = (key, v) :: gs := by
  rw [toFields?] at h
  cases hk : k.text limit with
  | error e => rw [hk] at h; cases h
  | ok key =>
    cases hv : d.toValue? limit with
    | error f => rw [hk, hv] at h; cases h
    | ok v =>
      cases hgs : toFields? limit es with
      | error f => rw [hk, hv, hgs] at h; cases h
      | ok gs =>
        rw [hk, hv, hgs] at h
        cases h
        exact ⟨key, v, gs, rfl, rfl, rfl, rfl⟩

/-- A mapping that can be read has the value of each entry under the text of its key. -/
theorem map_toValue?_named (h : toFields? limit es = .ok fs) :
    (named limit es).map (fun e => (e.1, e.2.toValue? limit)) = fs.map fun f => (f.1, .ok f.2) := by
  induction es generalizing fs with
  | nil => cases h; rfl
  | cons e es ih =>
    obtain ⟨k, d⟩ := e
    obtain ⟨key, v, gs, hk, hv, hgs, rfl⟩ := toFields?_cons_eq_ok h
    rw [named_cons hk, List.map_cons, List.map_cons, ih hgs, hv]

theorem exists_text_of_toFields? (h : toFields? limit es = .ok fs) :
    ∀ e ∈ es, ∃ key, e.1.text limit = .ok key := by
  induction es generalizing fs with
  | nil => exact fun _ he => nomatch he
  | cons e es ih =>
    obtain ⟨k, d⟩ := e
    obtain ⟨key, v, gs, hk, hv, hgs, rfl⟩ := toFields?_cons_eq_ok h
    exact List.forall_mem_cons.2 ⟨⟨key, hk⟩, ih hgs⟩

theorem keys_toFields? (h : toFields? limit es = .ok fs) :
    Entries.keys fs = Entries.keys (named limit es) := by
  have hkeys := congrArg Entries.keys (map_toValue?_named h)
  simpa [Entries.keys, Function.comp_def] using hkeys.symm

theorem get?_toFields? (h : toFields? limit es = .ok fs) (key : Text) :
    (Entries.get? key fs.reverse).map .ok =
      (Entries.get? key (named limit es).reverse).map (toValue? limit) := by
  have hlast := congrArg (fun es => Entries.get? key es.reverse) (map_toValue?_named h)
  simp only [← List.map_reverse] at hlast
  rw [Entries.get?_mapValues fun _ => toValue? limit,
    Entries.get?_mapValues fun _ v => (.ok v : Except Fault Json.Value)] at hlast
  exact hlast.symm

end Fields

end Datum

namespace Shape

open Datum (named LastUnder isForeign)

/-- The shape under a path of keys, through objects only. -/
def fieldAt? : List Text → Shape → Option Shape
  | [], s => some s
  | key :: path, .object fs => (Entries.get? key fs).bind (fieldAt? path)
  | _ :: _, _ => none

theorem ofDatum?_eq (limit : Nat) (d : Datum) : ofDatum? limit d = (d.toValue? limit).map ofValue := by
  rw [ofDatum?]
  cases d.toValue? limit <;> rfl

/-- The fields of a mapping's shape: each text of a key where it is first seen, with the shape of what
is seen last under it. -/
theorem ofDatum?_mapping {es : List (Datum × Datum)} {s : Shape}
    (h : ofDatum? limit (.mapping es) = .ok s) :
    ∃ fs, s = .object fs ∧ (∀ e ∈ es, ∃ key, e.1.text limit = .ok key) ∧
      Entries.keys fs = (Entries.keys (named limit es)).eraseDups ∧
      ∀ key, (Entries.get? key fs).map .ok =
        (Entries.get? key (named limit es).reverse).map (ofDatum? limit) := by
  rw [ofDatum?_eq, Datum.toValue?_mapping] at h
  cases hps : Datum.toFields? limit es with
  | error f => rw [hps] at h; cases h
  | ok ps =>
    rw [hps] at h
    cases h
    refine ⟨ofFields (Entries.ofPairs ps), rfl, Datum.exists_text_of_toFields? hps, ?_, fun key => ?_⟩
    · rw [keys_ofFields, Entries.keys_ofPairs, Datum.keys_toFields? hps]
    · have hvalue : ofDatum? limit = fun d => (d.toValue? limit).map ofValue :=
        funext (ofDatum?_eq limit)
      have hlast := congrArg (Option.map (Except.map ofValue)) (Datum.get?_toFields? hps key)
      rw [Option.map_map, Option.map_map] at hlast
      rw [get?_ofFields, Entries.get?_ofPairs, Option.map_map, hvalue]
      exact hlast

/-- What is last under a key has the shape that stands under it. -/
theorem exists_field_of_lastUnder {es : List (Datum × Datum)} {fs : List (Text × Shape)}
    (h : ofDatum? limit (.mapping es) = .ok (.object fs)) {key : Text} {d : Datum}
    (hd : LastUnder limit key d es) :
    ∃ t, Entries.get? key fs = some t ∧ ofDatum? limit d = .ok t := by
  obtain ⟨gs, hgs, -, -, hget⟩ := ofDatum?_mapping h
  cases hgs
  have hkey := hget key
  rw [Datum.lastUnder_iff.1 hd, Option.map_some] at hkey
  obtain ⟨t, ht, hok⟩ := Option.map_eq_some_iff.1 hkey
  exact ⟨t, ht, hok.symm⟩

theorem get?_eq_some_iff_lastUnder {es : List (Datum × Datum)} {fs : List (Text × Shape)}
    (h : ofDatum? limit (.mapping es) = .ok (.object fs)) {key : Text} {t : Shape} :
    Entries.get? key fs = some t ↔ ∃ d, LastUnder limit key d es ∧ ofDatum? limit d = .ok t := by
  constructor
  · intro ht
    obtain ⟨gs, hgs, -, -, hget⟩ := ofDatum?_mapping h
    cases hgs
    have hkey := (hget key).symm
    rw [ht, Option.map_some] at hkey
    obtain ⟨d, hd, hok⟩ := Option.map_eq_some_iff.1 hkey
    exact ⟨d, Datum.lastUnder_iff.2 hd, hok⟩
  · rintro ⟨d, hd, ht⟩
    obtain ⟨u, hu, hok⟩ := exists_field_of_lastUnder h hd
    cases ht.symm.trans hok
    exact hu

theorem exists_fieldAt?_of_under {d e : Datum} {path : List Text} (h : d.Under limit path e)
    {s : Shape} (hs : ofDatum? limit d = .ok s) :
    ∃ t, s.fieldAt? path = some t ∧ ofDatum? limit e = .ok t := by
  induction h generalizing s with
  | here d => exact ⟨s, rfl, hs⟩
  | field hlast _ ih =>
    obtain ⟨fs, rfl, -, -, -⟩ := ofDatum?_mapping hs
    obtain ⟨t, ht, hd⟩ := exists_field_of_lastUnder hs hlast
    obtain ⟨u, hu, he⟩ := ih hd
    exact ⟨u, by rw [fieldAt?, ht]; exact hu, he⟩

/-! ## Foreign data -/

theorem ofDatum?_eq_error_iff {d : Datum} {f : Datum.Fault} :
    ofDatum? limit d = .error f ↔ d.visits.findSome? (Datum.Visit.fault? limit) = some f := by
  rw [← Datum.toValue?_eq_error_iff, ofDatum?_eq]
  cases d.toValue? limit <;> simp [Except.map]

/-- Where all can be written, reading ends as the parts tell: with the first foreign one, or else with a
shape. -/
theorem ofDatum?_of_writable {d : Datum} (hd : d.Writable limit) :
    match d.parts.find? isForeign with
    | none => ∃ s, ofDatum? limit d = .ok s
    | some e => ∃ shown, e.display limit = .ok shown ∧ ofDatum? limit d = .error (.foreign e shown) := by
  have hfirst := Datum.findSome?_fault?_of_short hd
  rw [← Datum.parts] at hfirst
  cases hparts : d.parts.find? isForeign with
  | none =>
    rw [hparts] at hfirst
    cases hs : ofDatum? limit d with
    | ok s => exact ⟨s, rfl⟩
    | error f => cases hfirst.symm.trans (ofDatum?_eq_error_iff.1 hs)
  | some e =>
    rw [hparts] at hfirst
    obtain ⟨shown, hshown, hfault⟩ := hfirst
    exact ⟨shown, hshown, ofDatum?_eq_error_iff.2 hfault⟩

theorem find?_isForeign_eq_none_iff {d : Datum} :
    d.parts.find? isForeign = none ↔ ∀ e, d.Reaches e → e.isForeign = false := by
  simp only [List.find?_eq_none, Datum.mem_parts_iff, Bool.not_eq_true]

/-- An integer with too many digits is no fault as a value, but it is as a key. -/
theorem ofDatum?_long_key {n : Int} (hn : ¬Text.IsShort limit n) (d : Datum)
    (entries : List (Datum × Datum)) :
    ofDatum? limit (.int n) = .ok (.scalar .number) ∧
      ofDatum? limit (.mapping ((.int n, d) :: entries)) = .error (.tooManyDigits ⟨limit⟩) := by
  refine ⟨rfl, ofDatum?_eq_error_iff.2 ?_⟩
  have hkey : (Datum.int n).text limit = .error ⟨limit⟩ := Text.writeInt?_of_not_isShort hn
  simp [Datum.visits, Datum.visitsOfEntries, Datum.Visit.fault?, Datum.isForeign, hkey]

example : ofDatum? 2 (.mapping [(.int 100, .null)]) = .error (.tooManyDigits ⟨2⟩) := rfl

end Shape

end JsonShape
