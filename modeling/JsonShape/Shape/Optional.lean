import JsonShape.Shape.Union
/-!
# JsonShape.Shape.Optional

Absence. A field may be absent when its shape is optional or a union with an optional member.

* `Shape.strip`: splits a shape into whether it may be absent and what it is when present.
-/

namespace JsonShape

namespace Shape

/-- Marks a shape optional, once. -/
def optionalOf : Shape → Shape
  | .optional s => .optional s
  | s => .optional s

/-- Takes off one optional mark. -/
def unwrap : Shape → Shape
  | .optional s => s
  | s => s

/-- Whether the value may be absent, and its shape when it is not. -/
structure Presence where
  optional : Bool
  present : Shape

theorem size_unwrap_le (s : Shape) : s.unwrap.size ≤ s.size := by
  cases s <;> simp [unwrap, size]

theorem sizeMembers_unwrap_le (ms : List Shape) :
    sizeMembers (ms.map unwrap) ≤ sizeMembers ms := by
  induction ms with
  | nil => simp
  | cons m ms ih =>
    have := size_unwrap_le m
    simp only [List.map_cons, sizeMembers]
    omega

theorem sizeMembers_unwrap_lt {ms : List Shape} (h : ms.any isOptional = true) :
    sizeMembers (ms.map unwrap) < sizeMembers ms := by
  induction ms with
  | nil => simp at h
  | cons m ms ih =>
    have hm := size_unwrap_le m
    have hms := sizeMembers_unwrap_le ms
    simp only [List.map_cons, sizeMembers]
    simp only [List.any_cons, Bool.or_eq_true] at h
    rcases h with h | h
    · cases m with
      | optional s => simp only [unwrap, size]; omega
      | _ => simp [isOptional] at h
    · have := ih h; omega

/-- A union whose members have each lost one optional mark; a single member stands alone. -/
def peel (ms : List Shape) : Shape := (unionOf (ms.map unwrap)).collapse

theorem size_peel_lt {ms : List Shape} (h : ms.any isOptional = true) :
    (peel ms).size < (union ms).size := by
  have := size_collapse_le (unionOf (ms.map unwrap))
  have := size_unionOf_le (ms.map unwrap)
  have := sizeMembers_unwrap_lt h
  simp only [peel, size]
  omega

/-- Takes off optional marks, peeling unions that have an optional member, until none shows. -/
def strip : Shape → Presence
  | .optional s => ⟨true, (strip s).present⟩
  | .union ms =>
    if _ : ms.any isOptional = true then ⟨true, (strip (peel ms)).present⟩
    else ⟨false, .union ms⟩
  | s => ⟨false, s⟩
termination_by s => s.size
decreasing_by
  · simp [size]
  · exact size_peel_lt (by assumption)

theorem size_strip_le (s : Shape) : s.strip.present.size ≤ s.size := by
  fun_induction strip s with
  | case1 s ih => simp only [size]; omega
  | case2 ms h ih => have := size_peel_lt h; simp only at ih ⊢; omega
  | case3 ms h => simp
  | case4 s => simp

/-- Stripping either leaves a shape as it is or makes it smaller. -/
theorem strip_eq_or_size_lt (s : Shape) : s.strip.present = s ∨ s.strip.present.size < s.size := by
  unfold strip
  split
  · rename_i s
    have := size_strip_le s
    simp only [size]
    omega
  · rename_i ms
    split
    · rename_i h
      have := size_peel_lt h
      have := size_strip_le (peel ms)
      simp only [size] at *
      omega
    · exact .inl rfl
  · exact .inl rfl

/-- A shape that may be absent is smaller when present. -/
theorem size_strip_lt_of_optional {s : Shape} (h : s.strip.optional = true) :
    s.strip.present.size < s.size := by
  rcases strip_eq_or_size_lt s with h' | h'
  · unfold strip at h h'
    split at h
    · rename_i s
      have := size_strip_le s
      rw [h', size] at this
      omega
    · rename_i ms
      split at h
      · rename_i ho
        have := size_peel_lt ho
        have := size_strip_le (peel ms)
        simp only [ho, ↓reduceDIte] at h'
        rw [h'] at this
        omega
      · cases h
    · cases h
  · exact h'

end Shape

end JsonShape
