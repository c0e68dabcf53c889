import JsonShape.Text.CodePoint
/-!
# JsonShape.Entries

Ordered mappings from texts, as lists of pairs. A key keeps the place where it was first put and
the value that was put last.
-/

namespace JsonShape

namespace Entries

variable {α β : Type}

def get? (key : Text) : List (Text × α) → Option α
  | [] => none
  | (k, a) :: rest => if k = key then some a else get? key rest

def keys (es : List (Text × α)) : List Text := es.map Prod.fst

def contains (es : List (Text × α)) (key : Text) : Bool := (get? key es).isSome

/-- Replaces the value of a key in its place; a new key goes to the end. -/
def put (key : Text) (a : α) : List (Text × α) → List (Text × α)
  | [] => [(key, a)]
  | (k, b) :: rest => if k = key then (k, a) :: rest else (k, b) :: put key a rest

/-- The mapping that putting each pair in turn gives. -/
def ofPairs (ps : List (Text × α)) : List (Text × α) :=
  ps.foldl (fun es p => put p.1 p.2 es) []

/-- No key occurs twice. -/
def Distinct (es : List (Text × α)) : Prop := (keys es).Nodup

theorem get?_eq_none_iff {key : Text} {es : List (Text × α)} :
    get? key es = none ↔ key ∉ keys es := by
  induction es with
  | nil => simp [get?, keys]
  | cons e rest ih =>
    obtain ⟨k, a⟩ := e
    simp only [get?, keys, List.map_cons, List.mem_cons, not_or] at ih ⊢
    split
    · simp_all
    · rename_i h
      simp [ih, Ne.symm h]

theorem mem_of_get?_eq_some {key : Text} {a : α} {es : List (Text × α)}
    (h : get? key es = some a) : (key, a) ∈ es := by
  induction es with
  | nil => simp [get?] at h
  | cons e rest ih =>
    obtain ⟨k, b⟩ := e
    simp only [get?] at h
    split at h
    · simp_all
    · exact List.mem_cons_of_mem _ (ih h)

theorem keys_put (key : Text) (a : α) (es : List (Text × α)) :
    keys (put key a es) = if key ∈ keys es then keys es else keys es ++ [key] := by
  induction es with
  | nil => simp [put, keys]
  | cons e rest ih =>
    obtain ⟨k, b⟩ := e
    simp only [put]
    split
    · rename_i h; subst h; simp [keys]
    · rename_i h
      simp only [keys, List.map_cons] at ih ⊢
      rw [ih]
      simp only [List.mem_cons, Ne.symm h, false_or]
      split <;> simp_all

theorem distinct_put {es : List (Text × α)} (h : Distinct es) (key : Text) (a : α) :
    Distinct (put key a es) := by
  unfold Distinct at h ⊢
  rw [keys_put]
  split
  · exact h
  · rename_i hk
    rw [List.nodup_append]
    exact ⟨h, by simp, fun x hx y hy => by simp at hy; subst hy; exact fun e => hk (e ▸ hx)⟩

theorem distinct_ofPairs (ps : List (Text × α)) : Distinct (ofPairs ps) := by
  suffices h : ∀ (ps es : List (Text × α)), Distinct es →
      Distinct (ps.foldl (fun es p => put p.1 p.2 es) es) from h ps [] (by simp [Distinct, keys])
  intro ps
  induction ps with
  | nil => exact fun _ h => h
  | cons p ps ih => exact fun es h => ih _ (distinct_put h p.1 p.2)

end Entries

end JsonShape
