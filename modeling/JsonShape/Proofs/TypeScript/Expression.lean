import JsonShape.TypeScript.Declaration
/-!
# JsonShape.Proofs.TypeScript.Expression

Type expressions read back from their text. Brackets belong to the operand before them, bars
separate alternatives, and parentheses make one operand of what they hold.

* `TypeScript.Expr.parse`: the expression of a text, by a reader that takes one character at a time.
* `TypeScript.Written`: what a text adds to a reader; `TypeScript.Written.parse` is the whole text.
* `TypeScript.written_name`, `TypeScript.written_bar`, `TypeScript.written_arrayOf`: how the texts of
  types are put together.
-/

namespace JsonShape

/-- Letters, digits, `_` and `$`, no digit first. -/
def Text.isBareName (t : Text) : Bool :=
  t.head?.any Text.isPropertyStart && t.all Text.isPropertyCharacter

namespace TypeScript

inductive Expr where
  | name (n : Text)
  | array (item : Expr)
  | union (alternatives : List Expr)

/-! ## Reading -/

/-- What stands behind the last bar or opening parenthesis: nothing yet, a name that may go on, in
reverse, an expression, or one with a bracket that still has to be closed. -/
inductive Operand where
  | missing
  | word (w : Text)
  | whole (e : Expr)
  | bracket (e : Expr)

/-- The expression that an operand is if it ends here. -/
def Operand.expr? : Operand → Option Expr
  | .word w => some (.name w.reverse)
  | .whole e => some e
  | _ => none

/-- A reader inside a text: the operand, the alternatives before it, and those before each
parenthesis that is open, the innermost first. -/
structure Reader where
  operand : Operand
  before : List Expr
  outer : List (List Expr)

namespace Expr

/-- One expression alone, or a union. -/
def group (before : List Expr) (e : Expr) : Expr :=
  if before.isEmpty then e else .union (before ++ [e])

end Expr

namespace Reader

def start : Reader := ⟨.missing, [], []⟩

/-- Blanks end a name. -/
def blank (r : Reader) : Reader :=
  match r.operand with
  | .word w => { r with operand := .whole (.name w.reverse) }
  | _ => r

def opening (r : Reader) : Option Reader :=
  match r.operand with
  | .missing => some ⟨.missing, [], r.before :: r.outer⟩
  | _ => none

def closing (r : Reader) : Option Reader :=
  match r.operand.expr?, r.outer with
  | some e, before :: outer => some ⟨.whole (.group r.before e), before, outer⟩
  | _, _ => none

def endBracket (r : Reader) : Option Reader :=
  match r.operand with
  | .bracket e => some { r with operand := .whole (.array e) }
  | _ => none

def letter (r : Reader) (c : CodePoint) : Option Reader :=
  match r.operand with
  | .missing => if Text.isPropertyStart c then some { r with operand := .word [c] } else none
  | .word w => if Text.isPropertyCharacter c then some { r with operand := .word (c :: w) } else none
  | _ => none

def step (r : Reader) (c : CodePoint) : Option Reader :=
  if c = ' ' then some r.blank
  else if c = '|' then r.operand.expr?.map fun e => ⟨.missing, r.before ++ [e], r.outer⟩
  else if c = '(' then r.opening
  else if c = ')' then r.closing
  else if c = '[' then r.operand.expr?.map fun e => { r with operand := .bracket e }
  else if c = ']' then r.endBracket
  else r.letter c

def run (r : Reader) (t : Text) : Option Reader := t.foldlM step r

def finish (r : Reader) : Option Expr :=
  if r.outer.isEmpty then r.operand.expr?.map (.group r.before) else none

theorem run_append (r : Reader) (s t : Text) : r.run (s ++ t) = (r.run s).bind fun r => r.run t :=
  List.foldlM_append

theorem run_cons (r : Reader) (c : CodePoint) (t : Text) :
    r.run (c :: t) = (r.step c).bind fun r => r.run t := rfl

end Reader

def Expr.parse (t : Text) : Option Expr := (Reader.start.run t).bind Reader.finish

/-! ## What a text adds to a reader -/

/-- Read where an operand is missing, `t` gives the alternatives `es` and then `e`. -/
def Reads (t : Text) (es : List Expr) (e : Expr) : Prop :=
  ∀ before outer, ∃ o : Operand, o.expr? = some e ∧
    Reader.run ⟨.missing, before, outer⟩ t = some ⟨o, before ++ es, outer⟩

theorem Reads.parse {t : Text} {es : List Expr} {e : Expr} (h : Reads t es e) :
    Expr.parse t = some (.group es e) := by
  obtain ⟨o, ho, hrun⟩ := h [] []
  rw [Expr.parse, Reader.start, hrun, Option.bind_some, Reader.finish]
  simp [ho]

theorem expr?_blank {o : Operand} {e : Expr} (ho : o.expr? = some e) (before : List Expr)
    (outer : List (List Expr)) :
    ∃ o' : Operand, o'.expr? = some e ∧ Reader.blank ⟨o, before, outer⟩ = ⟨o', before, outer⟩ := by
  cases o with
  | word w => exact ⟨.whole (.name w.reverse), ho, rfl⟩
  | whole e' => exact ⟨.whole e', ho, rfl⟩
  | _ => cases ho

/-- Letters, digits, `_` and `$` are no punctuation. -/
theorem step_of_isPropertyCharacter (r : Reader) {c : CodePoint}
    (hc : Text.isPropertyCharacter c = true) : r.step c = r.letter c := by
  have hne : ∀ d : CodePoint, Text.isPropertyCharacter d = false → c ≠ d := by
    rintro d hd rfl
    rw [hc] at hd
    cases hd
  rw [Reader.step, if_neg (hne _ (by decide)), if_neg (hne _ (by decide)), if_neg (hne _ (by decide)),
    if_neg (hne _ (by decide)), if_neg (hne _ (by decide)), if_neg (hne _ (by decide))]

theorem letter_missing {c : CodePoint} (hc : Text.isPropertyStart c = true) (before : List Expr)
    (outer : List (List Expr)) :
    Reader.letter ⟨.missing, before, outer⟩ c = some ⟨.word [c], before, outer⟩ :=
  if_pos hc

theorem letter_word {c : CodePoint} (hc : Text.isPropertyCharacter c = true) (w : Text)
    (before : List Expr) (outer : List (List Expr)) :
    Reader.letter ⟨.word w, before, outer⟩ c = some ⟨.word (c :: w), before, outer⟩ :=
  if_pos hc

theorem run_word {t : Text} (ht : ∀ c ∈ t, Text.isPropertyCharacter c = true) (w : Text)
    (before : List Expr) (outer : List (List Expr)) :
    Reader.run ⟨.word w, before, outer⟩ t = some ⟨.word (t.reverse ++ w), before, outer⟩ := by
  induction t generalizing w with
  | nil => rfl
  | cons c t ih =>
    obtain ⟨hc, ht⟩ := List.forall_mem_cons.1 ht
    rw [Reader.run_cons, step_of_isPropertyCharacter _ hc, letter_word hc, Option.bind_some,
      ih ht, List.reverse_cons, List.append_assoc, List.singleton_append]

theorem reads_name {n : Text} (hn : Text.isBareName n = true) : Reads n [] (.name n) := by
  intro before outer
  rw [Text.isBareName, Bool.and_eq_true] at hn
  obtain ⟨hstart, hall⟩ := hn
  cases n with
  | nil => cases hstart
  | cons c t =>
    obtain ⟨hc, ht⟩ := List.forall_mem_cons.1 (List.all_eq_true.1 hall)
    refine ⟨.word (t.reverse ++ [c]), by simp [Operand.expr?], ?_⟩
    rw [Reader.run_cons, step_of_isPropertyCharacter _ hc, letter_missing hstart, Option.bind_some,
      run_word ht, List.append_nil]

theorem reads_bar {s t : Text} {es fs : List Expr} {e f : Expr} (hs : Reads s es e)
    (ht : Reads t fs f) : Reads (s ++ bar ++ t) (es ++ e :: fs) f := by
  intro before outer
  obtain ⟨o, ho, hrun⟩ := hs before outer
  obtain ⟨o', ho', hblank⟩ := expr?_blank ho (before ++ es) outer
  obtain ⟨p, hp, hrun'⟩ := ht (before ++ es ++ [e]) outer
  have hbar : Reader.run ⟨o, before ++ es, outer⟩ bar =
      some ⟨.missing, before ++ es ++ [e], outer⟩ := by
    show (Reader.run (Reader.blank ⟨o, before ++ es, outer⟩) ['|', ' ']) = _
    rw [hblank]
    show ((o'.expr?.map fun e => (⟨.missing, before ++ es ++ [e], outer⟩ : Reader)).bind fun r =>
      r.run [' ']) = _
    rw [ho']
    rfl
  refine ⟨p, hp, ?_⟩
  rw [Reader.run_append, Reader.run_append, hrun, Option.bind_some, hbar, Option.bind_some, hrun',
    List.append_assoc, List.append_assoc, List.singleton_append]

theorem reads_brackets {t : Text} {e : Expr} (h : Reads t [] e) : Reads (t ++ "[]") [] (.array e) := by
  intro before outer
  obtain ⟨o, ho, hrun⟩ := h before outer
  refine ⟨.whole (.array e), rfl, ?_⟩
  rw [Reader.run_append, hrun, Option.bind_some]
  show ((o.expr?.map fun e => (⟨.bracket e, before ++ [], outer⟩ : Reader)).bind fun r =>
    r.run [']']) = _
  rw [ho]
  rfl

theorem reads_parentheses {t : Text} {es : List Expr} {e : Expr} (h : Reads t es e) :
    Reads ("(" ++ t ++ ")") [] (.group es e) := by
  intro before outer
  obtain ⟨o, ho, hrun⟩ := h [] (before :: outer)
  refine ⟨.whole (.group es e), rfl, ?_⟩
  rw [Reader.run_append, Reader.run_append]
  show ((Reader.run ⟨.missing, [], before :: outer⟩ t).bind fun r => r.run [')']) = _
  rw [hrun, Option.bind_some]
  show ((Reader.closing ⟨o, es, before :: outer⟩).bind some) = _
  rw [Reader.closing, ho, List.append_nil]
  rfl

/-! ## The texts of types -/

/-- A text that reads as alternatives has a bar in it. -/
structure Written (t : Text) (es : List Expr) (e : Expr) : Prop where
  reads : Reads t es e
  bar : es ≠ [] → Text.hasInfix bar t = true

theorem hasInfix_append (s t : Text) : Text.hasInfix bar (s ++ bar ++ t) = true := by
  induction s with
  | nil => simp [bar, Text.hasInfix, Text.ofString]
  | cons c s ih =>
    rw [List.cons_append, List.cons_append, Text.hasInfix, ih, Bool.or_true]

theorem written_name {n : Text} (hn : Text.isBareName n = true) : Written n [] (.name n) :=
  ⟨reads_name hn, fun h => absurd rfl h⟩

theorem written_bar {s t : Text} {es fs : List Expr} {e f : Expr} (hs : Written s es e)
    (ht : Written t fs f) : Written (s ++ bar ++ t) (es ++ e :: fs) f :=
  ⟨reads_bar hs.reads ht.reads, fun _ => hasInfix_append s t⟩

/-- Parentheses are left out only where there is one alternative. -/
theorem written_arrayOf {t : Text} {es : List Expr} {e : Expr} (h : Written t es e) :
    Written (arrayOf t) [] (.array (.group es e)) := by
  refine ⟨?_, fun h => absurd rfl h⟩
  rw [arrayOf]
  split
  · have := reads_brackets (reads_parentheses h.reads)
    simpa [Text.ofString, List.append_assoc] using this
  · rename_i hbar
    obtain rfl : es = [] := Classical.byContradiction fun hne => hbar (h.bar hne)
    exact reads_brackets h.reads

end TypeScript

end JsonShape
