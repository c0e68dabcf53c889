import JsonShape.Proofs.Command.Console
import JsonShape.Proofs.Command.TemporaryName
import JsonShape.Proofs.Conversion
/-!
# JsonShape.Proofs.Command.Effects

What a run leaves behind. The text to put out is worked out first, and only then is anything made or
written.

* `Conversion.Delivered`: what becomes of a storage into which a text is put out.
* `Command.Options.text`: the text that a conversion works out; `Command.Request.output`: the same with
  standard input and the console.
* `Command.Result.Ends`: how a run can end.
* `Command.run_changes_output`: a run for which no text is worked out changes nothing, and one that
  succeeds changes the output and the directories on the way there.
-/

namespace JsonShape

open Storage (Place Tree)

/-! ## Putting out a text -/

namespace Conversion

/-- What becomes of a storage into which a text is put out, and the failure if there is one. If no text
was worked out, nothing does. -/
inductive Delivered (tree : Tree) (out : Option Text) :
    Except Failure Text → Tree → Option Failure → Prop where
  | nothing {f : Failure} : Delivered tree out (.error f) tree (some f)
  | file {path t : Text} {made tree' : Tree} : out = some path →
      tree.Grows (Place.along (Storage.Path.directory path)) made →
      made.write path (Utf8.encode t) = .ok tree' → Utf8.decode (Utf8.encode t) = .ok t →
      Delivered tree out (.ok t) tree' none
  | fault {t : Text} {tree' : Tree} {f : Failure} : f.ofOutput = true →
      Delivered tree out (.ok t) tree' (some f)

/-- The failure that a result tells of. -/
def failureOf {α : Type} : Except Failure α → Option Failure
  | .ok _ => none
  | .error f => some f

variable {tree tree' : Tree} {out : Option Text} {result : Except Failure Unit}

theorem delivered_writeText {t : Text} (h : writeText tree out t = (tree', result)) :
    Delivered tree out (.ok t) tree' (failureOf result) := by
  cases written_writeText h with
  | file hout hbytes hgrows hwrite =>
    have hdecode := Utf8.decode_of_encode? hbytes
    rw [Utf8.encode?_eq_ok hbytes] at hwrite
    exact .file hout hgrows hwrite hdecode
  | fault hf => exact .fault hf

theorem delivered_writeShape {s : Shape} (hs : s.WellFormed)
    (hkeys : s.Keyed fun key => key.unpaired = true) (h : writeShape tree out s = (tree', result)) :
    Delivered tree out (.ok s.fileText) tree' (failureOf result) := by
  cases written_writeShape h with
  | file hout hbytes hgrows hwrite =>
    cases hbytes
    exact .file hout hgrows hwrite (Shape.decode_fileText hs hkeys).1
  | fault hf => exact .fault hf

end Conversion

namespace Command

open Conversion (Delivered Failure inferSome failureOf)

/-! ## What is worked out -/

/-- The declarations of a shape, whose root type needs a name. -/
def Options.declarations (o : Options) (s : Shape) (source : Text) : Except Failure Text :=
  match o.typeName with
  | none => .error .noTypeName
  | some name => .ok (TypeScript.generate s name source).render

/-- The text that a conversion works out of its inputs, before there is any output. -/
def Options.text (o : Options) (v : Verb) (tree : Tree) (inputs : List Text) : Except Failure Text :=
  let input := inputs.headD []
  let inferred := (inferSome tree inputs o.limit o.workers).result.map Accumulator.shape
  let loaded := (Shape.load tree input).mapError Failure.shape
  match v with
  | .samplesToShape => inferred.map Shape.fileText
  | .shapeToSchema => loaded.map fun s => (Schema.document s o.title).indented
  | .shapeToTypeScript => loaded.bind fun s => o.declarations s (Storage.Path.name input)
  | .samplesToTypeScript =>
    inferred.bind fun s => o.declarations s (Text.join ", " (inputs.map Storage.Path.name))

/-- A storage that has the same inputs gives the same text. -/
theorem Options.text_congr {tree tree' : Tree} {inputs : List Text} (hne : inputs ≠ [])
    (h : ∀ path ∈ inputs, tree'.read path = tree.read path) (o : Options) (v : Verb) :
    o.text v tree' inputs = o.text v tree inputs := by
  have hinferred : inferSome tree' inputs o.limit o.workers =
      inferSome tree inputs o.limit o.workers := by
    rw [inferSome, inferSome, inferFiles, inferFiles, Samples.Stream.read_of_reads h]
  have hloaded : Shape.load tree' (inputs.headD []) = Shape.load tree (inputs.headD []) := by
    obtain ⟨path, rest, rfl⟩ := List.exists_cons_of_ne_nil hne
    rw [List.headD_cons, Shape.load, Shape.load, h path List.mem_cons_self]
  unfold Options.text
  dsimp only
  rw [hinferred, hloaded]

theorem delivered_writeDeclarations {tree tree' : Tree} {out : Option Text} {o : Options} {s : Shape}
    {source : Text} {result : Except Failure Unit}
    (h : Conversion.writeDeclarations tree out o.typeName s source = (tree', result)) :
    Delivered tree out (o.declarations s source) tree' (failureOf result) := by
  unfold Conversion.writeDeclarations at h
  unfold Options.declarations
  cases ho : o.typeName with
  | none =>
    rw [ho] at h
    cases h
    exact .nothing
  | some name =>
    rw [ho] at h
    exact Conversion.delivered_writeText h

/-- A conversion fails for what keeps the text from being worked out, or puts it out. -/
theorem delivered_convert (v : Verb) (tree : Tree) (inputs : List Text) (out : Option Text)
    (o : Options) :
    let d := convert v tree inputs out o
    Delivered tree out (o.text v tree inputs) d.tree d.failure := by
  intro d
  cases v with
  | samplesToShape =>
    unfold d convert Options.text Conversion.samplesToShape
    dsimp only
    cases hinfer : (inferSome tree inputs o.limit o.workers).result with
    | error f => exact .nothing
    | ok a =>
      have hfiles := Conversion.inferFiles_of_inferSome hinfer
      dsimp only
      cases hwrite : Conversion.writeShape tree out a.shape with
      | mk tree' result =>
        have := Conversion.delivered_writeShape (wellFormed_of_inferFiles hfiles)
          (keyed_of_inferFiles hfiles) hwrite
        cases result <;> exact this
  | shapeToSchema =>
    unfold d convert Options.text Conversion.shapeToSchema
    dsimp only
    cases hload : Shape.load tree (inputs.headD []) with
    | error f => exact .nothing
    | ok s => exact Conversion.delivered_writeText rfl
  | shapeToTypeScript =>
    unfold d convert Options.text Conversion.shapeToTypeScript
    dsimp only
    cases hload : Shape.load tree (inputs.headD []) with
    | error f => exact .nothing
    | ok s => exact delivered_writeDeclarations rfl
  | samplesToTypeScript =>
    unfold d convert Options.text Conversion.samplesToTypeScript
    dsimp only
    cases hinfer : (inferSome tree inputs o.limit o.workers).result with
    | error f => exact .nothing
    | ok a => exact delivered_writeDeclarations rfl

/-! ## What is left -/

/-- Between `tree` and `after`, what changes is the file `out`, which has this content in the end, and
some directories are new on the way there. -/
structure Wrote (tree after : Tree) (out : Text) (content : Bytes) : Prop where
  file : after.read out = .ok content
  rest : ∀ p, p ≠ Place.of out → after.node? p = tree.node? p ∨
    p ∈ Place.along (Storage.Path.directory out) ∧ tree.node? p = none ∧
      after.node? p = some .directory

theorem wrote_of_write {tree made tree' : Tree} {out : Text} {content : Bytes}
    (hgrows : tree.Grows (Place.along (Storage.Path.directory out)) made)
    (hwrite : made.write out content = .ok tree') : Wrote tree tree' out content := by
  refine ⟨Tree.read_write hwrite, fun p hp => ?_⟩
  obtain ⟨-, rfl, -⟩ := Tree.write_eq_put hwrite
  rw [Tree.node?_put_of_ne _ hp]
  exact hgrows p

/-- There are no directories to make on the way to a file in the current directory. -/
theorem Wrote.node?_of_ne {name : Text} (hname : Storage.IsWordName name) {tree after : Tree}
    {content : Bytes} (h : Wrote tree after name content) {q : Place} (hq : q ≠ Place.named name) :
    after.node? q = tree.node? q := by
  refine (h.rest q (hname.place_of ▸ hq)).resolve_right ?_
  rintro ⟨hmem, hnone, -⟩
  have hcurrent : Place.along (Storage.Path.directory name) = [[]] := by
    rw [hname.directory_eq_nil]
    rfl
  rw [hcurrent, List.mem_singleton] at hmem
  subst hmem
  cases hnone

/-- How a run ends that was to put out a text, or was kept from it for the reason in a message. -/
inductive Result.Ends (c : Console) (tree : Tree) (a : Result) :
    Destination → Except Text Text → Prop where
  | refused {d : Destination} {message : Text} : a.exit = 1 → a.Tells c message →
      (∀ p, a.tree.node? p = tree.node? p) → Ends c tree a d (.error message)
  | printed {t : Text} : a.exit = 0 → a.broken = none → a.stdout = Text.unifyNewlines t →
      (∀ p, a.tree.node? p = tree.node? p) → Ends c tree a .standardOutput (.ok t)
  | unprinted {t refusal : Text} : c.refusal? (Text.unifyNewlines t) = some refusal → a.exit = 1 →
      a.Tells c refusal → (∀ p, a.tree.node? p = tree.node? p) → Ends c tree a .standardOutput (.ok t)
  | written {out t : Text} : a.exit = 0 → a.broken = none → Wrote tree a.tree out (Utf8.encode t) →
      Ends c tree a (.named (some out)) (.ok t)
  | failed {d : Destination} {t : Text} {f : Failure} : a.exit = 1 → f.ofOutput = true →
      a.Tells c f.message → Ends c tree a d (.ok t)

/-- The text that a conversion is to put out, or why there is none. What is printed before it may be
refused. -/
def Options.output (c : Console) (o : Options) (v : Verb) (tree : Tree) (inputs : List Text) :
    Except Text Text :=
  let text := (o.text v tree inputs).mapError Failure.message
  match o.destination with
  | .named out =>
    match (c.print [banner v inputs out, "\n"]).refusal with
    | some refusal => .error refusal
    | none => text
  | .standardOutput => text

section Files

variable {s : Surroundings} {tree : Tree} {inputs : List Text} (verbose : Bool) (v : Verb) {o : Options}

theorem ends_runOnFiles_named {out : Option Text} (ho : o.destination = .named out) :
    (runOnFiles s verbose v tree inputs o).Ends s.console tree (.named out)
      (o.output s.console v tree inputs) := by
  rw [runOnFiles, Options.output, ho]
  dsimp only
  cases (s.console.print [banner v inputs out, "\n"]).refusal with
  | some refusal => exact .refused rfl (tells_failed ..) fun _ => rfl
  | none =>
    have h := delivered_convert v tree inputs out o
    dsimp only at h ⊢
    generalize convert v tree inputs out o = d at h ⊢
    generalize o.text v tree inputs = text at h ⊢
    obtain ⟨after, log, failure⟩ := d
    cases h with
    | nothing => exact .refused rfl (tells_failed ..) fun _ => rfl
    | file hout hgrows hwrite _ =>
      subst hout
      exact .written rfl rfl (wrote_of_write hgrows hwrite)
    | fault hf => exact .failed rfl hf (tells_failed ..)

/-- The file that stands in for a missing output is gone in the end, and the inputs are not the worse for
it while it is there. -/
theorem ends_runOnFiles_standardOutput (ho : o.destination = .standardOutput)
    (hname : Storage.IsPlainName s.output) (hfree : tree.node? (.named s.output) = none)
    (hne : inputs ≠ [])
    (hunused : ∀ path ∈ inputs, Storage.Path.bytes s.output ∉ Storage.Path.names path) :
    (runOnFiles s verbose v tree inputs o).Ends s.console tree .standardOutput
      (o.output s.console v tree inputs) := by
  have hput : ∀ q, q ≠ Place.named s.output →
      (tree.put (.named s.output) (.file [])).node? q = tree.node? q :=
    fun q hq => Tree.node?_put_of_ne _ hq
  have hmem : Storage.Path.bytes s.output ∈ Place.named s.output := List.mem_singleton_self _
  have htext := o.text_congr (v := v) hne fun path hpath =>
    Tree.read_congr hname.isOwnName (Tree.agree_put hmem tree (.file [])) (hunused path hpath)
  rw [runOnFiles, Options.output, ho, ← htext]
  have h := delivered_convert v (tree.put (.named s.output) (.file [])) inputs (some s.output) o
  dsimp only at h ⊢
  generalize convert v _ inputs _ o = d at h ⊢
  generalize o.text v _ inputs = text at h ⊢
  obtain ⟨after, log, failure⟩ := d
  cases h with
  | nothing =>
    exact .refused rfl (tells_failed ..) fun p => Tree.node?_remove_plain hname hfree (hput p)
  | @file path t made tree' hout hgrows hwrite hdecode =>
    cases hout
    have hprinted : printed after s.output = Text.unifyNewlines t := by
      rw [printed, Tree.read_write hwrite]
      dsimp only
      rw [hdecode]
    have hclean : ∀ p, (after.remove (.named s.output)).node? p = tree.node? p := fun p =>
      Tree.node?_remove_plain hname hfree fun hq =>
        ((wrote_of_write hgrows hwrite).node?_of_ne hname.isWordName hq).trans (hput p hq)
    dsimp only
    rw [hprinted, Console.print]
    cases hrefusal : s.console.refusal? (Text.unifyNewlines t) with
    | some refusal => exact .unprinted hrefusal rfl (tells_failed ..) hclean
    | none => exact .printed rfl rfl (List.append_nil _) hclean
  | fault hf => exact .failed rfl hf (tells_failed ..)

end Files

/-! ## The copy of standard input -/

section Copy

variable {s : Surroundings} {tree : Tree} {content : Bytes} (hname : Storage.IsPlainName s.input)
  (hfree : tree.node? (.named s.input) = none)

include hname hfree

/-- No other path leads through the copy, so that what was written is still found when it is gone. -/
theorem Wrote.remove {after : Tree} {out : Text} {written : Bytes}
    (hout : Storage.Path.bytes s.input ∉ Storage.Path.names out)
    (h : Wrote (tree.put (.named s.input) (.file content)) after out written) :
    Wrote tree (after.remove (.named s.input)) out written := by
  have hmem : Storage.Path.bytes s.input ∈ Place.named s.input := List.mem_singleton_self _
  refine ⟨?_, fun p hp => ?_⟩
  · rw [Tree.read_congr hname.isOwnName (Tree.agree_remove hmem after) hout]
    exact h.file
  · by_cases hcopy : p = Place.named s.input
    · exact .inl (Tree.node?_remove_plain hname hfree fun hne => absurd hcopy hne)
    · have hrest := h.rest p hp
      rw [Tree.node?_put_of_ne _ hcopy] at hrest
      rwa [Tree.node?_remove_of_ne hcopy]

theorem Result.Ends.remove {a : Result} {d : Destination} {output : Except Text Text}
    (hout : ∀ out, d = .named (some out) → Storage.Path.bytes s.input ∉ Storage.Path.names out)
    (h : a.Ends s.console (tree.put (.named s.input) (.file content)) d output) :
    Result.Ends s.console tree { a with tree := a.tree.remove (.named s.input) } d output := by
  have hclean : (∀ p, a.tree.node? p = (tree.put (.named s.input) (.file content)).node? p) →
      ∀ p, (a.tree.remove (.named s.input)).node? p = tree.node? p := fun hkept p =>
    Tree.node?_remove_plain hname hfree fun hne => (hkept p).trans (Tree.node?_put_of_ne _ hne)
  cases h with
  | refused hexit htells hkept => exact .refused hexit ⟨htells.printed, htells.reported⟩ (hclean hkept)
  | printed hexit hbroken hstdout hkept => exact .printed hexit hbroken hstdout (hclean hkept)
  | unprinted hrefusal hexit htells hkept =>
    exact .unprinted hrefusal hexit ⟨htells.printed, htells.reported⟩ (hclean hkept)
  | written hexit hbroken hwrote =>
    exact .written hexit hbroken (hwrote.remove hname hfree (hout _ rfl))
  | failed hexit houtput htells => exact .failed hexit houtput ⟨htells.printed, htells.reported⟩

end Copy

/-! ## The run -/

/-- The text that a request puts out, or why there is none. Without inputs it is worked out of a copy
of standard input. -/
def Request.output (r : Request) (s : Surroundings) (tree : Tree) (stdin : Bytes) :
    Except Text Text :=
  let o := Options.ofArguments r.arguments
  if o.inputs.isEmpty then
    match Utf8.decode stdin with
    | .error f => .error f.message
    | .ok t =>
      let copied := tree.put (.named s.input) (.file (Utf8.encode (Text.unifyNewlines t)))
      o.output s.console r.verb copied [s.input]
  else o.output s.console r.verb tree o.inputs

/-- Where a copy of standard input stays behind: nowhere, unless its bytes are no UTF-8. -/
def Request.aside (r : Request) (s : Surroundings) (stdin : Bytes) : List Place :=
  if r.arguments.inputs.isEmpty && !(Utf8.decode stdin).toBool then [.named s.input] else []

section Request

variable {s : Surroundings} {r : Request} {tree : Tree} {stdin : Bytes}

theorem runRequest_of_ill_formed {f : Utf8.Fault} (hinputs : r.arguments.inputs = [])
    (hstdin : Utf8.decode stdin = .error f) (verbose : Bool) :
    let a := runRequest s verbose r tree stdin
    r.output s tree stdin = .error f.message ∧ a.exit = 1 ∧ a.Tells s.console f.message ∧
      ∀ p ∉ r.aside s stdin, a.tree.node? p = tree.node? p := by
  have hnone : (Options.ofArguments r.arguments).inputs.isEmpty = true := by
    rw [Options.ofArguments, hinputs, List.isEmpty_nil]
  have haside : r.aside s stdin = [.named s.input] := by
    rw [Request.aside, hinputs, hstdin]
    rfl
  rw [runRequest, Request.output, haside]
  dsimp only
  rw [if_pos hnone, if_pos hnone, hstdin]
  exact ⟨rfl, rfl, tells_failed .., fun p hp =>
    Tree.node?_put_of_ne _ fun e => hp (List.mem_singleton.2 e)⟩

/-- A run that gets to its conversion leaves no file behind that stood in for another. -/
theorem ends_runRequest (hfresh : s.Fresh r tree)
    (hstdin : r.arguments.inputs = [] → ∃ t, Utf8.decode stdin = .ok t) (verbose : Bool) :
    (runRequest s verbose r tree stdin).Ends s.console tree (destinationOf r.arguments)
      (r.output s tree stdin) := by
  have hends : ∀ {tree' : Tree} {inputs : List Text}, tree'.node? (.named s.output) = none →
      inputs ≠ [] → (∀ path ∈ inputs, Storage.Path.bytes s.output ∉ Storage.Path.names path) →
      (runOnFiles s verbose r.verb tree' inputs (.ofArguments r.arguments)).Ends s.console tree'
        (destinationOf r.arguments)
        ((Options.ofArguments r.arguments).output s.console r.verb tree' inputs) := by
    intro tree' inputs hfree hne hunused
    cases ho : destinationOf r.arguments with
    | named out => exact ends_runOnFiles_named verbose r.verb ho
    | standardOutput =>
      exact ends_runOnFiles_standardOutput verbose r.verb ho hfresh.output hfree hne hunused
  have hinputs : (Options.ofArguments r.arguments).inputs = r.arguments.inputs := rfl
  rw [runRequest, Request.output]
  dsimp only
  rw [hinputs]
  by_cases hnone : r.arguments.inputs = []
  · obtain ⟨t, ht⟩ := hstdin hnone
    rw [hnone, if_pos List.isEmpty_nil, if_pos List.isEmpty_nil, ht]
    refine Result.Ends.remove hfresh.input hfresh.input_free (fun out hout => ?_) (hends ?_ ?_ ?_)
    · refine hfresh.input_unused out (List.mem_append_right _ ?_)
      rw [hout]
      exact List.mem_singleton_self out
    · rw [Tree.node?_put_of_ne _ hfresh.place_ne]
      exact hfresh.output_free
    · exact List.cons_ne_nil _ _
    · rintro path hpath hmem
      rw [List.mem_singleton.1 hpath, hfresh.input.isWordName.names_eq, List.mem_singleton] at hmem
      exact hfresh.bytes_ne hmem.symm
  · have hsome : ¬r.arguments.inputs.isEmpty = true := fun h => hnone (List.isEmpty_iff.1 h)
    rw [if_neg hsome, if_neg hsome]
    exact hends hfresh.output_free hnone fun path hpath =>
      hfresh.output_unused path (List.mem_append_left _ hpath)

end Request

/-- A storage with one file. -/
def holding (name content : Text) : Tree :=
  Tree.empty.put (Place.named name) (.file (Utf8.encode content))

/-- The name of a kind that is an unpaired surrogate is no kind. Its message can be printed where texts
are kept as they are; where they are kept as bytes, the run is broken off behind the heading. -/
example :
    let arguments : List Text := ["shape2ts", "shape"]
    let tree := holding "shape" "\"\\ud800\""
    let unknown : Text := "Unknown shape kind '" ++ [CodePoint.ofNat 0xD800] ++ "'"
    (run ordinary arguments tree []).broken.map Break.error = some (some unknown) ∧
    (run ordinary arguments tree []).stdout = "Error:  " ∧
    (run { ordinary with console := .plain } arguments tree []).stdout =
      "Error:  " ++ unknown ++ "\n" := by
  decide +kernel

end Command

end JsonShape
