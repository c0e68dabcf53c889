import JsonShape.Inference.Bench
import JsonShape.Proofs.Entries
import JsonShape.Proofs.Json.Reading
import JsonShape.Proofs.Shape.TypedPaths
/-!
# JsonShape.Proofs.Inference.Bench

The books of accumulators. Each has a history, the samples that it has been given in order, and its
count, its faults and its shape are those of the history.

* `Bench.Step.adds`, `Bench.Step.record`: what a step adds to the history of its accumulator.
* `Accumulator.Accounts`: an accumulator agrees with a history; every operation keeps this.
* `Bench.accounts_run`, `Bench.accounts_after`: so does every step on a bench, and every run of them.
* `Bench.bookkeeping`: what that says about count, faults and typed paths.
-/

namespace JsonShape

open Samples (Sample SampleFault)

/-! ## Histories -/

namespace History

def values (h : List Sample) : List Json.Value := h.filterMap Except.toOption

def faults (h : List Sample) : List SampleFault :=
  h.filterMap fun
    | .ok _ => none
    | .error f => some f

theorem values_append (h h' : List Sample) : values (h ++ h') = values h ++ values h' :=
  List.filterMap_append

theorem faults_append (h h' : List Sample) : faults (h ++ h') = faults h ++ faults h' :=
  List.filterMap_append

/-- The samples of a list, up to a datum that has no JSON value. -/
def taken : List (Except SampleFault Datum) → List Sample
  | [] => []
  | .error f :: rest => .error f :: taken rest
  | .ok d :: rest =>
    match d.toValue? Text.integerDigitLimit with
    | .error _ => []
    | .ok v => .ok v :: taken rest

end History

open History

namespace Bench

/-- The accumulator that a step is about to change. -/
def Step.target? : Step → Option Text
  | .observe name _ | .skip name _ | .observeAll name _ | .merge name _ => some name
  | .keep _ _ | .kept _ => none

/-- What a step adds to the history of its target, given those before it. -/
def Step.adds (h : Text → List Sample) : Step → List Sample
  | .observe _ d => taken [.ok d]
  | .skip _ f => [.error f]
  | .observeAll _ items => taken items
  | .merge _ source => h source
  | .keep _ _ | .kept _ => []

/-- The histories after a step. -/
def Step.record (h : Text → List Sample) (s : Step) (name : Text) : List Sample :=
  if s.target? = some name then h name ++ s.adds h else h name

def histories (steps : List Step) : Text → List Sample := steps.foldl Step.record fun _ => []

def after (b : Bench) (steps : List Step) : Bench := steps.foldl (fun b s => (b.run s).bench) b

end Bench

/-! ## Accumulators -/

namespace Accumulator

/-- The books of an accumulator agree with a history: its shape joins those of the values in order. -/
structure Accounts (a : Accumulator) (h : List Sample) : Prop where
  count : a.count = (values h).length
  skipped : a.skipped = faults h
  wellFormed : ∀ v ∈ values h, v.WellFormed
  bracketed : ∃ b : Bracketing Json.Value, b.leaves = values h ∧ b.shape Shape.ofValue = a.shape

theorem accounts_empty : empty.Accounts [] := ⟨rfl, rfl, by simp [values], .none, rfl, rfl⟩

variable {a b : Accumulator} {h h' : List Sample}

theorem Accounts.merge (ha : a.Accounts h) (hb : b.Accounts h') : (a.merge b).Accounts (h ++ h') := by
  obtain ⟨l, hl, hlshape⟩ := ha.bracketed
  obtain ⟨r, hr, hrshape⟩ := hb.bracketed
  constructor
  · rw [values_append, List.length_append, ← ha.count, ← hb.count]
    rfl
  · rw [faults_append, ← ha.skipped, ← hb.skipped]
    rfl
  · rw [values_append]
    exact List.forall_mem_append.2 ⟨ha.wellFormed, hb.wellFormed⟩
  · refine ⟨.node l r, ?_, ?_⟩
    · rw [values_append, ← hl, ← hr]
      rfl
    · rw [Bracketing.shape, hlshape, hrshape]
      rfl

/-- Observing a value is merging an accumulator that has seen nothing else. -/
theorem observe_eq_merge (a : Accumulator) (v : Json.Value) :
    a.observe v = a.merge (empty.observe v) := by
  simp [observe, Accumulator.merge, empty, Shape.unknown_join]

theorem skip_eq_merge (a : Accumulator) (f : SampleFault) : a.skip f = a.merge (empty.skip f) := by
  simp [skip, Accumulator.merge, empty, Shape.join_unknown]

theorem Accounts.observe (ha : a.Accounts h) {v : Json.Value} (hv : v.WellFormed) :
    (a.observe v).Accounts (h ++ [.ok v]) := by
  rw [observe_eq_merge]
  refine ha.merge ⟨rfl, rfl, List.forall_mem_singleton.2 hv, .leaf v, rfl, ?_⟩
  exact (Shape.unknown_join _).symm

theorem Accounts.skip (ha : a.Accounts h) (f : SampleFault) : (a.skip f).Accounts (h ++ [.error f]) := by
  rw [skip_eq_merge]
  exact ha.merge ⟨rfl, rfl, by simp [values, Except.toOption], .none, rfl, rfl⟩

theorem Accounts.observeAll (ha : a.Accounts h) (items : List (Except SampleFault Datum)) :
    (a.observeAll items).accumulator.Accounts (h ++ taken items) := by
  induction items generalizing a h with
  | nil => rwa [taken, List.append_nil]
  | cons item rest ih =>
    cases item with
    | error f =>
      rw [taken, List.append_cons]
      exact ih (ha.skip f)
    | ok d =>
      rw [taken, Accumulator.observeAll, observeDatum]
      cases hd : d.toValue? Text.integerDigitLimit with
      | error f => rwa [List.append_nil]
      | ok v =>
        dsimp only
        rw [List.append_cons]
        exact ih (ha.observe (Datum.wellFormed_of_toValue? hd))

/-- The typed paths of the shape are those of the values, in whatever order they were joined. -/
theorem Accounts.has_iff (ha : a.Accounts h) (path : List Step) (k : Kind) :
    a.shape.Has path k ↔ ∃ v ∈ values h, v.Has path k := by
  obtain ⟨b, hleaves, hshape⟩ := ha.bracketed
  have := ha.wellFormed
  rw [← hleaves] at this ⊢
  rw [← hshape]
  exact Shape.has_shape_ofValue_iff this path k

end Accumulator

/-! ## Benches -/

namespace Bench

theorem get_put_self (b : Bench) (name : Text) (a : Accumulator) : (b.put name a).get name = a := by
  rw [get, put, Entries.get?_put_self]
  rfl

theorem get_put_of_ne (b : Bench) {name other : Text} (h : name ≠ other) (a : Accumulator) :
    (b.put name a).get other = b.get other := by
  rw [get, put, Entries.get?_put_of_ne h]
  rfl

/-- A step changes no accumulator but its target. -/
theorem get_run_of_ne_target (b : Bench) {s : Step} {name : Text} (h : s.target? ≠ some name) :
    (b.run s).bench.get name = b.get name := by
  cases s with
  | observe target d =>
    rw [run]
    split
    · rfl
    · exact get_put_of_ne b (fun e => h (congrArg some e)) _
  | skip target f => exact get_put_of_ne b (fun e => h (congrArg some e)) _
  | observeAll target items => exact get_put_of_ne b (fun e => h (congrArg some e)) _
  | merge target source => exact get_put_of_ne b (fun e => h (congrArg some e)) _
  | keep source key => rfl
  | kept key =>
    rw [run]
    split <;> rfl

/-- The target of a step is given what the step adds to its history. -/
theorem accounts_target {b : Bench} {h : Text → List Sample}
    (hb : ∀ name, (b.get name).Accounts (h name)) {s : Step} {name : Text}
    (hs : s.target? = some name) : ((b.run s).bench.get name).Accounts (h name ++ s.adds h) := by
  cases s with
  | observe target d =>
    cases hs
    have := (hb name).observeAll [.ok d]
    rw [Accumulator.observeAll] at this
    rw [run]
    split
    · rename_i hd
      rwa [hd] at this
    · rename_i hd
      rw [hd] at this
      rwa [get_put_self]
  | skip target f =>
    cases hs
    rw [run, get_put_self]
    exact (hb name).skip f
  | observeAll target items =>
    cases hs
    rw [run, get_put_self]
    exact (hb name).observeAll items
  | merge target source =>
    cases hs
    rw [run, get_put_self]
    exact (hb name).merge (hb source)
  | keep source key => cases hs
  | kept key => cases hs

theorem accounts_run {b : Bench} {h : Text → List Sample}
    (hb : ∀ name, (b.get name).Accounts (h name)) (s : Step) (name : Text) :
    ((b.run s).bench.get name).Accounts (s.record h name) := by
  rw [Step.record]
  split
  · exact accounts_target hb (by assumption)
  · rw [get_run_of_ne_target b (by assumption)]
    exact hb name

theorem accounts_after {b : Bench} {h : Text → List Sample}
    (hb : ∀ name, (b.get name).Accounts (h name)) (steps : List Step) (name : Text) :
    ((b.after steps).get name).Accounts (steps.foldl Step.record h name) := by
  induction steps generalizing b h with
  | nil => exact hb name
  | cons s steps ih => exact ih (accounts_run hb s)

/-- After any steps the books of every accumulator are those of its history, and one more step
leaves all but its target as they are. -/
theorem bookkeeping (steps : List Step) :
    (∀ name,
      let a := (empty.after steps).get name
      let h := histories steps name
      a.count = (values h).length ∧ a.skipped = faults h ∧
        ∀ path k, a.shape.Has path k ↔ ∃ v ∈ values h, v.Has path k) ∧
    ∀ (s : Step) (name : Text), s.target? ≠ some name →
      ((empty.after steps).run s).bench.get name = (empty.after steps).get name := by
  refine ⟨fun name => ?_, fun s name => get_run_of_ne_target _⟩
  have hempty : ∀ name, (empty.get name).Accounts [] := fun _ => Accumulator.accounts_empty
  have := accounts_after hempty steps name
  exact ⟨this.count, this.skipped, this.has_iff⟩

end Bench

end JsonShape
