import JsonShape.Command.Run
import JsonShape.Proofs.Text.Utf8
/-!
# JsonShape.Proofs.Command.Console

What a console takes, and how a run tells of an error there.

* `Command.Console.print_cases`: everything is printed, or what stands before the first text that is
  refused.
* `Command.Console.refusal?_utf8_eq_none_iff`: UTF-8 has bytes for all but surrogates.
* `Command.Result.Tells`: an error is printed, or reported by the system if the console refuses its
  message.
-/

namespace JsonShape.Command

namespace Console

variable {c : Console} {ts : List Text}

def Takes (c : Console) (ts : List Text) : Prop := ∀ t ∈ ts, c.refusal? t = none

theorem takes_nil (c : Console) : c.Takes [] := fun _ h => nomatch h

theorem print_of_takes (h : c.Takes ts) : c.print ts = ⟨ts.flatten, none⟩ := by
  induction ts with
  | nil => rfl
  | cons t ts ih =>
    obtain ⟨ht, hts⟩ := List.forall_mem_cons.1 h
    rw [print, ht]
    dsimp only
    rw [ih hts, List.flatten_cons]

theorem print_cases (c : Console) (ts : List Text) :
    c.Takes ts ∧ c.print ts = ⟨ts.flatten, none⟩ ∨
    ∃ before t behind message, ts = before ++ t :: behind ∧ c.Takes before ∧
      c.refusal? t = some message ∧ c.print ts = ⟨before.flatten, some message⟩ := by
  induction ts with
  | nil => exact .inl ⟨c.takes_nil, rfl⟩
  | cons t ts ih =>
    rw [print]
    cases ht : c.refusal? t with
    | some message => exact .inr ⟨[], t, ts, message, rfl, c.takes_nil, ht, rfl⟩
    | none =>
      dsimp only
      rcases ih with ⟨hts, hprint⟩ | ⟨before, u, behind, message, rfl, hbefore, hu, hprint⟩
      · rw [hprint]
        exact .inl ⟨List.forall_mem_cons.2 ⟨ht, hts⟩, rfl⟩
      · rw [hprint]
        exact .inr ⟨t :: before, u, behind, message, rfl, List.forall_mem_cons.2 ⟨ht, hbefore⟩, hu, rfl⟩

theorem exists_refusal_of_not_takes (h : ¬c.Takes ts) : ∃ message, (c.print ts).refusal = some message := by
  rcases c.print_cases ts with ⟨hts, -⟩ | ⟨_, _, _, message, -, -, -, hprint⟩
  · exact absurd hts h
  · exact ⟨message, by rw [hprint]⟩

theorem refusal?_utf8_eq_none_iff {t : Text} :
    utf8.refusal? t = none ↔ ∀ c ∈ t, c.isScalar = true := by
  rw [← Utf8.surrogates?_eq_none_iff]
  cases h : Utf8.surrogates? CodePoint.isScalar t <;> simp [utf8, Utf8.encode?, h]

end Console

variable {c : Console} {a : Result} {message : Text}

/-- An error is the last that is printed, as a line behind a heading and two blanks. If the console
refuses a piece of that line, the run is broken off and the system is left to tell the error, together
with what was said against it. -/
structure Result.Tells (c : Console) (a : Result) (message : Text) : Prop where
  printed : c.Takes ["Error: ", " ", message, "\n"] →
    a.broken = none ∧ ("Error:  " ++ message ++ "\n" : Text) <:+ a.stdout
  reported : ¬c.Takes ["Error: ", " ", message, "\n"] →
    ∃ refusal, a.broken = some ⟨refusal, some message⟩

theorem flatten_errorPieces (message : Text) :
    [("Error: " : Text), " ", message, "\n"].flatten = ("Error:  " ++ message ++ "\n" : Text) := by
  have hheading : ("Error:  " : Text) = ("Error: " : Text) ++ " " := by decide
  rw [hheading]
  simp only [List.flatten_cons, List.flatten_nil, List.append_nil, List.append_assoc]

/-- In UTF-8, just the messages with surrogates are refused. -/
theorem takes_utf8_error_iff : Console.utf8.Takes ["Error: ", " ", message, "\n"] ↔
    ∀ c ∈ message, c.isScalar = true := by
  have hframe : ∀ t ∈ [("Error: " : Text), " ", "\n"], Console.utf8.refusal? t = none := by
    decide +kernel
  rw [← Console.refusal?_utf8_eq_none_iff]
  constructor
  · exact fun h => h message (by simp)
  · intro h t ht
    simp only [List.mem_cons, List.not_mem_nil, or_false] at ht
    rcases ht with rfl | rfl | rfl | rfl
    · exact hframe _ (by simp)
    · exact hframe _ (by simp)
    · exact h
    · exact hframe _ (by simp)

theorem tells_failed (c : Console) (before message stderr : Text) (tree : Storage.Tree) :
    (Result.failed c before message stderr tree).Tells c message := by
  constructor
  · intro h
    rw [Result.failed, Console.print_of_takes h, flatten_errorPieces]
    exact ⟨rfl, List.suffix_append _ _⟩
  · intro h
    obtain ⟨refusal, hrefusal⟩ := Console.exists_refusal_of_not_takes h
    exact ⟨refusal, by rw [Result.failed, hrefusal]; rfl⟩

end JsonShape.Command
