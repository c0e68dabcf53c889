import JsonShape.Text.CodePoint
/-!
# JsonShape.Proofs.Text.Pieces

Lists cut at the elements that end a piece, as texts are at separators and contents at line ends.

* `pieces_append_cons`, `pieces_append_of_not_ends`: cutting what is put together.
* `pieces_eq_flatMap`: cutting at more elements is cutting the pieces again.
* `flatten_pieces`: the pieces hold all elements but those that end one.
* `Text.splitOn_append`, `Text.flatten_splitOn`: what this says of texts.
-/

namespace JsonShape

variable {α : Type} {ends : α → Bool} {x y : List α} {b : α}

/-- The pieces between the elements that end one; there is one more of them than such elements. -/
def pieces (ends : α → Bool) : List α → List (List α)
  | [] => [[]]
  | b :: bs =>
    if ends b then [] :: pieces ends bs
    else match pieces ends bs with
      | [] => [[b]]
      | l :: ls => (b :: l) :: ls

theorem exists_pieces_eq_cons (ends : α → Bool) (x : List α) : ∃ l ls, pieces ends x = l :: ls := by
  cases x with
  | nil => exact ⟨_, _, rfl⟩
  | cons b x =>
    rw [pieces]
    split
    · exact ⟨_, _, rfl⟩
    · split <;> exact ⟨_, _, rfl⟩

theorem pieces_cons_of_ends (hb : ends b = true) (x : List α) :
    pieces ends (b :: x) = [] :: pieces ends x := by
  rw [pieces, if_pos hb]

theorem pieces_cons_of_not_ends (hb : ends b = false) {l : List α} {ls : List (List α)}
    (h : pieces ends x = l :: ls) : pieces ends (b :: x) = (b :: l) :: ls := by
  rw [pieces, if_neg (by simp [hb]), h]

theorem pieces_append_cons (hb : ends b = true) (x y : List α) :
    pieces ends (x ++ b :: y) = pieces ends x ++ pieces ends y := by
  induction x with
  | nil => exact pieces_cons_of_ends hb y
  | cons c x ih =>
    rw [List.cons_append]
    by_cases hc : ends c = true
    · rw [pieces_cons_of_ends hc, pieces_cons_of_ends hc, ih, List.cons_append]
    · rw [Bool.not_eq_true] at hc
      obtain ⟨l, ls, hpieces⟩ := exists_pieces_eq_cons ends x
      rw [pieces_cons_of_not_ends hc hpieces, List.cons_append]
      exact pieces_cons_of_not_ends hc (by rw [ih, hpieces, List.cons_append])

theorem pieces_append_of_not_ends (hx : ∀ c ∈ x, ends c = false) {l : List α} {ls : List (List α)}
    (h : pieces ends y = l :: ls) : pieces ends (x ++ y) = (x ++ l) :: ls := by
  induction x with
  | nil => exact h
  | cons c x ih =>
    obtain ⟨hc, hx⟩ := List.forall_mem_cons.1 hx
    exact pieces_cons_of_not_ends hc (ih hx)

theorem pieces_of_not_ends (hx : ∀ c ∈ x, ends c = false) : pieces ends x = [x] := by
  have := pieces_append_of_not_ends hx (y := []) rfl
  rwa [List.append_nil] at this

theorem mem_of_mem_pieces {l : List α} (hl : l ∈ pieces ends x) (hb : b ∈ l) :
    b ∈ x ∧ ends b = false := by
  induction x generalizing l with
  | nil =>
    rw [List.mem_singleton.1 hl] at hb
    cases hb
  | cons c x ih =>
    obtain ⟨m, ms, hpieces⟩ := exists_pieces_eq_cons ends x
    by_cases hc : ends c = true
    · rw [pieces_cons_of_ends hc] at hl
      rcases List.mem_cons.1 hl with rfl | hl
      · cases hb
      · exact (ih hl hb).imp_left (List.mem_cons_of_mem c)
    · rw [Bool.not_eq_true] at hc
      rw [pieces_cons_of_not_ends hc hpieces] at hl
      rw [hpieces] at ih
      rcases List.mem_cons.1 hl with rfl | hl
      · rcases List.mem_cons.1 hb with rfl | hb
        · exact ⟨List.mem_cons_self, hc⟩
        · exact (ih List.mem_cons_self hb).imp_left (List.mem_cons_of_mem c)
      · exact (ih (List.mem_cons_of_mem m hl) hb).imp_left (List.mem_cons_of_mem c)

theorem flatten_pieces (ends : α → Bool) (x : List α) :
    (pieces ends x).flatten = x.filter fun b => !ends b := by
  induction x with
  | nil => rfl
  | cons b x ih =>
    by_cases hb : ends b = true
    · rw [pieces_cons_of_ends hb, List.flatten_cons, List.nil_append, ih,
        List.filter_cons_of_neg (by simp [hb])]
    · rw [Bool.not_eq_true] at hb
      obtain ⟨l, ls, hpieces⟩ := exists_pieces_eq_cons ends x
      rw [pieces_cons_of_not_ends hb hpieces, List.filter_cons_of_pos (by simp [hb]), ← ih, hpieces]
      rfl

/-- Cutting at more elements is cutting the pieces again. -/
theorem pieces_eq_flatMap {more : α → Bool} (h : ∀ b, ends b = true → more b = true) (x : List α) :
    pieces more x = (pieces ends x).flatMap (pieces more) := by
  induction x with
  | nil => rfl
  | cons b x ih =>
    obtain ⟨l, ls, hpieces⟩ := exists_pieces_eq_cons ends x
    obtain ⟨m, ms, hmore⟩ := exists_pieces_eq_cons more l
    rw [hpieces, List.flatMap_cons] at ih
    by_cases hb : ends b = true
    · rw [pieces_cons_of_ends hb, pieces_cons_of_ends (h b hb), ih, hpieces]
      rfl
    · rw [pieces_cons_of_not_ends (Bool.not_eq_true _ ▸ hb) hpieces, List.flatMap_cons]
      by_cases hb' : more b = true
      · rw [pieces_cons_of_ends hb', pieces_cons_of_ends hb', ih]
        rfl
      · rw [Bool.not_eq_true] at hb'
        rw [pieces_cons_of_not_ends hb' hmore]
        rw [hmore] at ih
        exact pieces_cons_of_not_ends hb' ih

namespace Text

theorem splitOn_eq_pieces (sep : CodePoint) (t : Text) : splitOn sep t = pieces (· = sep) t := by
  induction t with
  | nil => rfl
  | cons c t ih =>
    rw [pieces, ← ih, splitOn, List.foldr_cons, ← splitOn]
    by_cases hc : c = sep
    · rw [if_pos hc, if_pos (decide_eq_true hc)]
    · rw [if_neg hc, if_neg (by simpa using hc)]
      cases splitOn sep t <;> rfl

theorem splitOn_of_not_mem {sep : CodePoint} {t : Text} (h : sep ∉ t) : splitOn sep t = [t] := by
  rw [splitOn_eq_pieces]
  exact pieces_of_not_ends fun c hc => decide_eq_false (ne_of_mem_of_not_mem hc h)

theorem flatten_splitOn (sep : CodePoint) (t : Text) :
    (splitOn sep t).flatten = t.filter (· ≠ sep) := by
  rw [splitOn_eq_pieces, flatten_pieces]
  simp

theorem splitOn_append (sep : CodePoint) (s t : Text) :
    splitOn sep (s ++ sep :: t) = splitOn sep s ++ splitOn sep t := by
  rw [splitOn_eq_pieces, splitOn_eq_pieces, splitOn_eq_pieces]
  exact pieces_append_cons (by simp) s t

end Text

end JsonShape
