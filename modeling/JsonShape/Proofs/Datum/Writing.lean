import JsonShape.Datum.Basic
import Mathlib.Algebra.Group.Nat.Defs
/-!
# JsonShape.Proofs.Datum.Writing

Which data can be written under a limit on the digits of integers.

* `Text.IsShort`: an integer that can be written; `Text.writeInt?_of_isShort` and
  `Text.writeInt?_of_not_isShort` say that there are no others.
* `Datum.integers`: the integers that are displayed with a datum.
* `Datum.written_display`, `Datum.written_text`: a datum is displayed, and has a text, just if all of
  them are short.
-/

namespace JsonShape

namespace Text

/-- An integer below a power of ten, unless there is no limit. -/
def IsShort (limit : Nat) (n : Int) : Prop := limit = 0 ∨ n.natAbs < 10 ^ limit

theorem isShort_zero (n : Int) : IsShort 0 n := .inl rfl

theorem isShort_of_lt_ten {n : Int} (h : n.natAbs < 10) (limit : Nat) : IsShort limit n := by
  by_cases hlimit : limit = 0
  · exact .inl hlimit
  · exact .inr (Nat.lt_of_lt_of_le h (Nat.le_self_pow hlimit 10))

theorem length_ofNat_le_iff {limit n : Nat} (h : limit ≠ 0) :
    (ofNat n).length ≤ limit ↔ n < 10 ^ limit := by
  rw [ofNat, List.length_map]
  exact Nat.length_toDigits_le_iff (by decide) (Nat.pos_of_ne_zero h)

theorem isShort_iff {limit : Nat} {n : Int} :
    IsShort limit n ↔ ¬(limit ≠ 0 ∧ limit < (ofNat n.natAbs).length) := by
  by_cases h : limit = 0
  · simp [IsShort, h]
  · rw [not_and, Nat.not_lt, length_ofNat_le_iff h, IsShort]
    simp [h]

theorem writeInt?_of_isShort {limit : Nat} {n : Int} (h : IsShort limit n) :
    writeInt? limit n = .ok (ofInt n) :=
  if_neg (isShort_iff.1 h)

theorem writeInt?_of_not_isShort {limit : Nat} {n : Int} (h : ¬IsShort limit n) :
    writeInt? limit n = .error ⟨limit⟩ :=
  if_pos (Decidable.not_not.1 (mt isShort_iff.2 h))

end Text

namespace Datum

open Text (IsShort TooManyDigits)

mutual

/-- The integers in what is displayed of a datum, those in its keys and members among them. -/
def integers : Datum → List Int
  | .int n => [n]
  | .list items => integersOfItems items
  | .tuple items => integersOfItems items
  | .mapping entries => integersOfEntries entries
  | .set items => integersOfItems items
  | _ => []

def integersOfItems : List Datum → List Int
  | [] => []
  | d :: ds => d.integers ++ integersOfItems ds

def integersOfEntries : List (Datum × Datum) → List Int
  | [] => []
  | (k, d) :: es => k.integers ++ (d.integers ++ integersOfEntries es)

end

/-- How writing some integers ends: with a result if all are short, else with a fault. -/
inductive Written {α : Type} (limit : Nat) (ns : List Int) : Except TooManyDigits α → Prop where
  | ok (a : α) : (∀ n ∈ ns, IsShort limit n) → Written limit ns (.ok a)
  | error {n : Int} : n ∈ ns → ¬IsShort limit n → Written limit ns (.error ⟨limit⟩)

namespace Written

variable {α β : Type} {limit : Nat} {ns more : List Int} {r : Except TooManyDigits α}

theorem none (a : α) : Written limit [] (.ok a) := .ok a fun _ h => nomatch h

theorem map (h : Written limit ns r) (f : α → β) : Written limit ns (r.map f) := by
  cases h with
  | ok a h => exact .ok (f a) h
  | error hn hlong => exact .error hn hlong

theorem bind (h : Written limit ns r) {next : α → Except TooManyDigits β}
    (hnext : ∀ a, Written limit more (next a)) : Written limit (ns ++ more) (r.bind next) := by
  cases h with
  | error hn hlong => exact .error (List.mem_append_left _ hn) hlong
  | ok a h =>
    have ha := hnext a
    show Written limit (ns ++ more) (next a)
    generalize next a = s at ha
    cases ha with
    | ok b hb => exact .ok b (List.forall_mem_append.2 ⟨h, hb⟩)
    | error hn hlong => exact .error (List.mem_append_right _ hn) hlong

theorem exists_eq_ok_iff (h : Written limit ns r) :
    (∃ a, r = .ok a) ↔ ∀ n ∈ ns, IsShort limit n := by
  cases h with
  | ok a h => exact ⟨fun _ => h, fun _ => ⟨a, rfl⟩⟩
  | @error n hn hlong => exact iff_of_false (by rintro ⟨a, ⟨⟩⟩) fun h => hlong (h n hn)

end Written

section Limit

variable (limit : Nat)

mutual

theorem written_display (d : Datum) : Written limit d.integers (d.display limit) := by
  cases d with
  | int n =>
    rw [display, integers]
    by_cases h : IsShort limit n
    · rw [Text.writeInt?_of_isShort h]
      exact .ok _ (List.forall_mem_singleton.2 h)
    · rw [Text.writeInt?_of_not_isShort h]
      exact .error List.mem_cons_self h
  | list ds | tuple ds | set ds => rw [display, integers]; exact (written_displayItems ds).map _
  | mapping es => rw [display, integers]; exact (written_displayEntries es).map _
  | bool b => cases b <;> exact .none _
  | _ => exact .none _

theorem written_displayItems (ds : List Datum) :
    Written limit (integersOfItems ds) (displayItems limit ds) := by
  cases ds with
  | nil => exact .none _
  | cons d ds =>
    rw [displayItems, integersOfItems]
    exact (written_display d).bind fun t => (written_displayItems ds).map (t :: ·)

theorem written_displayEntries (es : List (Datum × Datum)) :
    Written limit (integersOfEntries es) (displayEntries limit es) := by
  match es with
  | [] => exact .none _
  | (k, d) :: es =>
    rw [displayEntries, integersOfEntries]
    exact (written_display k).bind fun key => (written_display d).bind fun t =>
      (written_displayEntries es).map _

end

theorem written_text (d : Datum) : Written limit d.integers (d.text limit) := by
  cases d with
  | string s => exact .none s
  | other kind shown text => exact .none text
  | _ => exact written_display limit _

end Limit

end Datum

end JsonShape
