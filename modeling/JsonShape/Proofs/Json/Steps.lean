import JsonShape.Json.Reader
/-!
# JsonShape.Proofs.Json.Steps

What one call of a reader does, by how it ends. The calls it makes itself have one less left to them.

* `Json.ValueStep`, `Json.ItemsStep`, `Json.FieldsStep`: a constructor for each way through a call.
* `Json.valueStep_iff`, `Json.itemsStep_iff`, `Json.fieldsStep_iff`: these are all the ways.
-/

namespace JsonShape.Json

/-- One call of `readValue` and its result. -/
inductive ValueStep (n : Nat) : Text → Except Stop (Value × Text) → Prop where
  | missing : ValueStep n [] (.error (.fault .expectedValue []))
  | string {t s rest : Text} : readString (CodePoint.ofChar '"' :: t) = .ok (s, rest) →
      ValueStep n (CodePoint.ofChar '"' :: t) (.ok (.string s, rest))
  | stringFault {t : Text} {e : Stop} : readString (CodePoint.ofChar '"' :: t) = .error e →
      ValueStep n (CodePoint.ofChar '"' :: t) (.error e)
  | openArray {t : Text} : skipSpace t = [] →
      ValueStep n (CodePoint.ofChar '[' :: t) (.error (.fault .expectedValue []))
  | emptyArray {t rest : Text} : skipSpace t = CodePoint.ofChar ']' :: rest →
      ValueStep n (CodePoint.ofChar '[' :: t) (.ok (.array [], rest))
  | array {c : CodePoint} {t u rest : Text} {vs : List Value} : skipSpace t = c :: u → c ≠ ']' →
      readItems n (c :: u) = .ok (vs, rest) →
      ValueStep n (CodePoint.ofChar '[' :: t) (.ok (.array vs, rest))
  | arrayFault {c : CodePoint} {t u : Text} {e : Stop} : skipSpace t = c :: u → c ≠ ']' →
      readItems n (c :: u) = .error e → ValueStep n (CodePoint.ofChar '[' :: t) (.error e)
  | openObject {t : Text} : skipSpace t = [] →
      ValueStep n (CodePoint.ofChar '{' :: t) (.error (.fault .expectedName []))
  | emptyObject {t rest : Text} : skipSpace t = CodePoint.ofChar '}' :: rest →
      ValueStep n (CodePoint.ofChar '{' :: t) (.ok (.object [], rest))
  | object {c : CodePoint} {t u rest : Text} {fs : List (Text × Value)} : skipSpace t = c :: u → c ≠ '}' →
      readFields n (c :: u) = .ok (fs, rest) →
      ValueStep n (CodePoint.ofChar '{' :: t) (.ok (.object (Entries.ofPairs fs), rest))
  | objectFault {c : CodePoint} {t u : Text} {e : Stop} : skipSpace t = c :: u → c ≠ '}' →
      readFields n (c :: u) = .error e → ValueStep n (CodePoint.ofChar '{' :: t) (.error e)
  | atom {c : CodePoint} {t : Text} {result : Except Stop (Value × Text)} : c ≠ '"' → c ≠ '[' → c ≠ '{' →
      readAtom (c :: t) = result → ValueStep n (c :: t) result

/-- One call of `readItems` and its result. -/
inductive ItemsStep (n : Nat) (t : Text) : Except Stop (List Value × Text) → Prop where
  | itemFault {e : Stop} : readValue n t = .error e → ItemsStep n t (.error e)
  | last {v : Value} {u rest : Text} : readValue n t = .ok (v, u) →
      skipSpace u = CodePoint.ofChar ']' :: rest → ItemsStep n t (.ok ([v], rest))
  | more {v : Value} {u next rest : Text} {vs : List Value} : readValue n t = .ok (v, u) →
      skipSpace u = CodePoint.ofChar ',' :: next → readItems n (skipSpace next) = .ok (vs, rest) →
      ItemsStep n t (.ok (v :: vs, rest))
  | moreFault {v : Value} {u next : Text} {e : Stop} : readValue n t = .ok (v, u) →
      skipSpace u = CodePoint.ofChar ',' :: next → readItems n (skipSpace next) = .error e →
      ItemsStep n t (.error e)
  | noComma {v : Value} {u : Text} : readValue n t = .ok (v, u) →
      (skipSpace u).head? ≠ some (CodePoint.ofChar ']') → (skipSpace u).head? ≠ some (CodePoint.ofChar ',') →
      ItemsStep n t (.error (.fault .expectedComma (skipSpace u)))

/-- A name and a colon are read from a text, and `u` stands where the value should. -/
inductive ReadsName : Text → Text → Text → Prop where
  | intro {t k rest next : Text} : readString (CodePoint.ofChar '"' :: t) = .ok (k, rest) →
      skipSpace rest = CodePoint.ofChar ':' :: next →
      ReadsName (CodePoint.ofChar '"' :: t) k (skipSpace next)

/-- One call of `readFields` and its result. -/
inductive FieldsStep (n : Nat) (t : Text) : Except Stop (List (Text × Value) × Text) → Prop where
  | noName : t.head? ≠ some (CodePoint.ofChar '"') → FieldsStep n t (.error (.fault .expectedName t))
  | nameFault {e : Stop} : t.head? = some (CodePoint.ofChar '"') → readString t = .error e →
      FieldsStep n t (.error e)
  | noColon {k rest : Text} : t.head? = some (CodePoint.ofChar '"') → readString t = .ok (k, rest) →
      (skipSpace rest).head? ≠ some (CodePoint.ofChar ':') →
      FieldsStep n t (.error (.fault .expectedColon (skipSpace rest)))
  | valueFault {k u : Text} {e : Stop} : ReadsName t k u → readValue n u = .error e →
      FieldsStep n t (.error e)
  | last {k u w rest : Text} {v : Value} : ReadsName t k u → readValue n u = .ok (v, w) →
      skipSpace w = CodePoint.ofChar '}' :: rest → FieldsStep n t (.ok ([(k, v)], rest))
  | more {k u w next rest : Text} {v : Value} {fs : List (Text × Value)} : ReadsName t k u →
      readValue n u = .ok (v, w) → skipSpace w = CodePoint.ofChar ',' :: next →
      readFields n (skipSpace next) = .ok (fs, rest) → FieldsStep n t (.ok ((k, v) :: fs, rest))
  | moreFault {k u w next : Text} {v : Value} {e : Stop} : ReadsName t k u →
      readValue n u = .ok (v, w) → skipSpace w = CodePoint.ofChar ',' :: next →
      readFields n (skipSpace next) = .error e → FieldsStep n t (.error e)
  | noComma {k u w : Text} {v : Value} : ReadsName t k u → readValue n u = .ok (v, w) →
      (skipSpace w).head? ≠ some (CodePoint.ofChar '}') → (skipSpace w).head? ≠ some (CodePoint.ofChar ',') →
      FieldsStep n t (.error (.fault .expectedComma (skipSpace w)))

variable {n : Nat} {t : Text}

theorem valueStep (n : Nat) (t : Text) : ValueStep n t (readValue (n + 1) t) := by
  cases t with
  | nil => exact .missing
  | cons c t =>
    rw [readValue]
    split
    · rename_i hc
      subst hc
      split
      · exact .stringFault ‹_›
      · exact .string ‹_›
    · rename_i hquote
      split
      · rename_i hc
        subst hc
        split
        · exact .openArray ‹_›
        · split
          · rename_i hspace hd
            subst hd
            exact .emptyArray hspace
          · split
            · exact .arrayFault ‹_› ‹_› ‹_›
            · exact .array ‹_› ‹_› ‹_›
      · rename_i hbracket
        split
        · rename_i hc
          subst hc
          split
          · exact .openObject ‹_›
          · split
            · rename_i hspace hd
              subst hd
              exact .emptyObject hspace
            · split
              · exact .objectFault ‹_› ‹_› ‹_›
              · exact .object ‹_› ‹_› ‹_›
        · rename_i hbrace
          exact .atom hquote hbracket hbrace rfl

theorem ValueStep.eq {result : Except Stop (Value × Text)} (h : ValueStep n t result) :
    readValue (n + 1) t = result := by
  cases h with
  | missing => rfl
  | string h => rw [readValue, if_pos rfl, h]
  | stringFault h => rw [readValue, if_pos rfl, h]
  | openArray h => rw [readValue, if_neg (by decide), if_pos rfl, h]
  | emptyArray h => rw [readValue, if_neg (by decide), if_pos rfl, h]; rfl
  | array h hc hread =>
    rw [readValue, if_neg (by decide), if_pos rfl, h]
    dsimp only
    rw [if_neg hc, hread]
  | arrayFault h hc hread =>
    rw [readValue, if_neg (by decide), if_pos rfl, h]
    dsimp only
    rw [if_neg hc, hread]
  | openObject h => rw [readValue, if_neg (by decide), if_neg (by decide), if_pos rfl, h]
  | emptyObject h => rw [readValue, if_neg (by decide), if_neg (by decide), if_pos rfl, h]; rfl
  | object h hc hread =>
    rw [readValue, if_neg (by decide), if_neg (by decide), if_pos rfl, h]
    dsimp only
    rw [if_neg hc, hread]
  | objectFault h hc hread =>
    rw [readValue, if_neg (by decide), if_neg (by decide), if_pos rfl, h]
    dsimp only
    rw [if_neg hc, hread]
  | atom hquote hbracket hbrace hread =>
    rw [readValue, if_neg hquote, if_neg hbracket, if_neg hbrace, hread]

theorem valueStep_iff {result : Except Stop (Value × Text)} :
    ValueStep n t result ↔ readValue (n + 1) t = result :=
  ⟨ValueStep.eq, fun h => h ▸ valueStep n t⟩

theorem itemsStep (n : Nat) (t : Text) : ItemsStep n t (readItems (n + 1) t) := by
  rw [readItems]
  split
  · exact .itemFault ‹_›
  · rename_i v u hread
    split
    · rename_i hspace
      have := ItemsStep.noComma hread (by simp [hspace]) (by simp [hspace])
      rwa [hspace] at this
    · rename_i c rest hspace
      split
      · rename_i hc
        subst hc
        exact .last hread hspace
      · rename_i hbracket
        split
        · rename_i hc
          subst hc
          split
          · exact .moreFault hread hspace ‹_›
          · exact .more hread hspace ‹_›
        · rename_i hcomma
          have := ItemsStep.noComma hread (by simpa [hspace] using hbracket) (by simpa [hspace] using hcomma)
          rwa [hspace] at this

theorem ItemsStep.eq {result : Except Stop (List Value × Text)} (h : ItemsStep n t result) :
    readItems (n + 1) t = result := by
  cases h with
  | itemFault h => rw [readItems, h]
  | last hv hu =>
    rw [readItems, hv]
    dsimp only
    rw [hu]
    rfl
  | more hv hu hread =>
    rw [readItems, hv]
    dsimp only
    rw [hu]
    dsimp only
    rw [if_neg (by decide), if_pos rfl, hread]
  | moreFault hv hu hread =>
    rw [readItems, hv]
    dsimp only
    rw [hu]
    dsimp only
    rw [if_neg (by decide), if_pos rfl, hread]
  | noComma hv hbracket hcomma =>
    rw [readItems, hv]
    dsimp only
    split
    · rename_i hspace
      rw [hspace]
    · rename_i hspace
      rw [hspace] at hbracket hcomma ⊢
      rw [if_neg (by simpa using hbracket), if_neg (by simpa using hcomma)]

theorem itemsStep_iff {result : Except Stop (List Value × Text)} :
    ItemsStep n t result ↔ readItems (n + 1) t = result :=
  ⟨ItemsStep.eq, fun h => h ▸ itemsStep n t⟩

theorem fieldsStep (n : Nat) (t : Text) : FieldsStep n t (readFields (n + 1) t) := by
  cases t with
  | nil => exact .noName (by simp)
  | cons c t =>
    rw [readFields]
    split
    · rename_i hc
      subst hc
      split
      · exact .nameFault rfl ‹_›
      · rename_i k rest hname
        split
        · rename_i hspace
          have := FieldsStep.noColon (n := n) rfl hname (by simp [hspace])
          rwa [hspace] at this
        · rename_i c next hspace
          split
          · rename_i hc
            subst hc
            have hname := ReadsName.intro hname hspace
            split
            · exact .valueFault hname ‹_›
            · rename_i v w hread
              split
              · rename_i hspace
                have := FieldsStep.noComma hname hread (by simp [hspace]) (by simp [hspace])
                rwa [hspace] at this
              · rename_i c rest hspace
                split
                · rename_i hc
                  subst hc
                  exact .last hname hread hspace
                · rename_i hbrace
                  split
                  · rename_i hc
                    subst hc
                    split
                    · exact .moreFault hname hread hspace ‹_›
                    · exact .more hname hread hspace ‹_›
                  · rename_i hcomma
                    have := FieldsStep.noComma hname hread (by simpa [hspace] using hbrace)
                      (by simpa [hspace] using hcomma)
                    rwa [hspace] at this
          · rename_i hcolon
            have := FieldsStep.noColon (n := n) rfl hname (by simpa [hspace] using hcolon)
            rwa [hspace] at this
    · rename_i hquote
      exact .noName (by simpa using hquote)

/-- With a name read, the fields are those of the value. -/
theorem ReadsName.readFields_eq {k u : Text} (h : ReadsName t k u) (n : Nat) :
    readFields (n + 1) t =
      match readValue n u with
      | .error e => .error e
      | .ok (v, rest) =>
        match skipSpace rest with
        | [] => .error (.fault .expectedComma [])
        | c :: rest =>
          if c = '}' then .ok ([(k, v)], rest)
          else if c = ',' then
            match readFields n (skipSpace rest) with
            | .error e => .error e
            | .ok (fs, rest) => .ok ((k, v) :: fs, rest)
          else .error (.fault .expectedComma (c :: rest)) := by
  obtain ⟨hname, hcolon⟩ := h
  rw [readFields, if_pos rfl, hname]
  dsimp only
  rw [hcolon]
  rfl

theorem FieldsStep.eq {result : Except Stop (List (Text × Value) × Text)} (h : FieldsStep n t result) :
    readFields (n + 1) t = result := by
  cases h with
  | noName h =>
    cases t with
    | nil => rfl
    | cons c t => rw [readFields, if_neg (by simpa using h)]
  | nameFault hquote hname =>
    obtain ⟨t, rfl⟩ := List.head?_eq_some_iff.1 hquote
    rw [readFields, if_pos rfl, hname]
  | noColon hquote hname hcolon =>
    obtain ⟨t, rfl⟩ := List.head?_eq_some_iff.1 hquote
    rw [readFields, if_pos rfl, hname]
    dsimp only
    split
    · rename_i hspace
      rw [hspace]
    · rename_i hspace
      rw [hspace] at hcolon ⊢
      rw [if_neg (by simpa using hcolon)]
  | valueFault hname hread => rw [hname.readFields_eq, hread]
  | last hname hread hspace =>
    rw [hname.readFields_eq, hread]
    dsimp only
    rw [hspace]
    rfl
  | more hname hread hspace hrest =>
    rw [hname.readFields_eq, hread]
    dsimp only
    rw [hspace]
    dsimp only
    rw [if_neg (by decide), if_pos rfl, hrest]
  | moreFault hname hread hspace hrest =>
    rw [hname.readFields_eq, hread]
    dsimp only
    rw [hspace]
    dsimp only
    rw [if_neg (by decide), if_pos rfl, hrest]
  | noComma hname hread hbrace hcomma =>
    rw [hname.readFields_eq, hread]
    dsimp only
    split
    · rename_i hspace
      rw [hspace]
    · rename_i hspace
      rw [hspace] at hbrace hcomma ⊢
      rw [if_neg (by simpa using hbrace), if_neg (by simpa using hcomma)]

theorem fieldsStep_iff {result : Except Stop (List (Text × Value) × Text)} :
    FieldsStep n t result ↔ readFields (n + 1) t = result :=
  ⟨FieldsStep.eq, fun h => h ▸ fieldsStep n t⟩

end JsonShape.Json
