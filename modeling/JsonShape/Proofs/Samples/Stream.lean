import JsonShape.Proofs.Samples.Limit
import JsonShape.Proofs.Samples.Line
import JsonShape.Proofs.Storage.Tree
/-!
# JsonShape.Proofs.Samples.Stream

Streams of samples and the storage that they are read from.

* `Stream.Alike`: streams with the same values and the same end; `Stream.alike_read`: those of two
  files whose lines hold the same samples, under whatever names.
* `Stream.exists_decodeBytes_of_mem`: every value of a stream was decoded from some bytes.
* `Stream.read_congr`: a stream that ends well is the same in every storage that keeps the files it
  was read from. Files behind the last sample that is wanted have no say.
-/

namespace JsonShape.Samples.Stream

/-! ## Where values come from -/

theorem exists_decodeBytes_of_mem_ofLines {source : Text} {line : Nat} {ls : List Bytes}
    {v : Json.Value} (hv : .ok v ∈ (ofLines source line ls).items) :
    ∃ bs source line, decodeBytes bs source line = .ok v := by
  fun_induction ofLines source line ls with
  | case1 => cases hv
  | case2 line l ls hblank ih => exact ih hv
  | case3 line l ls hblank w hdecode ih =>
    rcases List.mem_cons.1 hv with heq | hv
    · cases heq
      exact ⟨_, _, _, hdecode⟩
    · exact ih hv
  | case4 line l ls hblank f hdecode ih =>
    rcases List.mem_cons.1 hv with heq | hv
    · cases heq
    · exact ih hv
  | case5 => cases hv

theorem mem_items_append {s t : Stream} {a : Sample} (h : a ∈ (s.append t).items) :
    a ∈ s.items ∨ a ∈ t.items := by
  rw [append] at h
  split at h
  · exact .inl h
  · exact List.mem_append.1 h

theorem exists_decodeBytes_of_mem_ofFiles {tree : Storage.Tree} {paths : List Text} {v : Json.Value}
    (hv : .ok v ∈ (ofFiles tree paths).items) :
    ∃ bs source line, decodeBytes bs source line = .ok v := by
  induction paths with
  | nil => cases hv
  | cons path paths ih =>
    rcases mem_items_append hv with hv | hv
    · rw [ofFile] at hv
      split at hv
      · cases hv
      · exact exists_decodeBytes_of_mem_ofLines hv
    · exact ih hv

theorem mem_values_iff {s : Stream} {v : Json.Value} : v ∈ s.values ↔ .ok v ∈ s.items := by
  rw [values, List.mem_filterMap]
  constructor
  · rintro ⟨a, ha, heq⟩
    cases a with
    | error f => cases heq
    | ok w =>
      cases heq
      exact ha
  · exact fun h => ⟨_, h, rfl⟩

theorem exists_decodeBytes_of_mem {tree : Storage.Tree} {paths : List Text} {l : Limit}
    {v : Json.Value} (hv : v ∈ (read tree paths l).values) :
    ∃ bs source line, decodeBytes bs source line = .ok v := by
  rw [read_eq_limit] at hv
  exact exists_decodeBytes_of_mem_ofFiles ((prefix_of_limit l _).subset (mem_values_iff.1 hv))

/-! ## Other storages -/

/-- The same stream, or one that goes on where `s` fails. -/
def Continues (s s' : Stream) : Prop := s' = s ∨ s.failure ≠ none ∧ s.items <+: s'.items

theorem continues_append {s t t' : Stream} (h : Continues t t') :
    Continues (s.append t) (s.append t') := by
  rcases h with rfl | ⟨hfailure, hprefix⟩
  · exact .inl rfl
  · rw [append, append]
    cases s.failure with
    | some f => exact .inl rfl
    | none => exact .inr ⟨hfailure, (List.prefix_append_right_inj _).2 hprefix⟩

theorem continues_ofFiles {tree tree' : Storage.Tree} {paths : List Text}
    (h : ∀ path ∈ paths, ∀ content, tree.read path = .ok content → tree'.read path = .ok content) :
    Continues (ofFiles tree paths) (ofFiles tree' paths) := by
  induction paths with
  | nil => exact .inl rfl
  | cons path paths ih =>
    obtain ⟨hpath, hpaths⟩ := List.forall_mem_cons.1 h
    rw [ofFiles, ofFiles]
    cases hread : tree.read path with
    | error f =>
      rw [ofFile, hread]
      exact .inr ⟨by simp [append], by simp [append]⟩
    | ok content =>
      rw [ofFile, ofFile, hread, hpath content hread]
      exact continues_append (ih hpaths)

theorem endAfter_of_continues {s s' : Stream} (h : Continues s s') {n : Nat}
    {reason : Option StreamFault} (hs : (s.endAfter n reason).failure = none) :
    s'.endAfter n reason = s.endAfter n reason := by
  rcases h with rfl | ⟨hfailure, hprefix⟩
  · rfl
  · rw [failure_endAfter] at hs
    split at hs
    · rename_i hlen
      exact endAfter_of_begins hprefix hlen reason
    · exact absurd hs hfailure

theorem limit_of_continues {s s' : Stream} (h : Continues s s') {l : Limit}
    (hs : (s.limit l).failure = none) : s'.limit l = s.limit l := by
  cases l with
  | upTo n =>
    rw [limit] at hs ⊢
    rw [limit]
    split
    · rename_i hn
      rw [if_pos hn] at hs
      exact h.resolve_right fun h => h.1 hs
    · rename_i hn
      rw [if_neg hn] at hs
      exact endAfter_of_continues h hs
  | missing => exact endAfter_of_continues h hs

theorem read_congr {tree tree' : Storage.Tree} {paths : List Text} {l : Limit}
    (h : ∀ path ∈ paths, ∀ content, tree.read path = .ok content → tree'.read path = .ok content)
    (hread : (read tree paths l).failure = none) : read tree' paths l = read tree paths l := by
  rw [read_eq_limit] at hread ⊢
  rw [read_eq_limit]
  exact limit_of_continues (continues_ofFiles h) hread

/-! ## Other names -/

/-- Source and line of a sample show in its fault alone. -/
theorem decodeBytes_cases (bs : Bytes) :
    (∃ v, ∀ source line, decodeBytes bs source line = .ok v) ∨
    (∀ source line, ∃ f, decodeBytes bs source line = .error (.skip f)) ∨
    ∃ n, ∀ source line, decodeBytes bs source line = .error (.tooManyDigits n) := by
  simp only [decodeBytes]
  cases Utf8.decodeMarked bs with
  | error f => exact .inr (.inl fun _ _ => ⟨_, rfl⟩)
  | ok t =>
    simp only [decodeText]
    cases Json.read t with
    | ok v => exact .inl ⟨v, fun _ _ => rfl⟩
    | error e =>
      cases e with
      | malformed f => exact .inr (.inl fun _ _ => ⟨_, rfl⟩)
      | tooManyDigits n => exact .inr (.inr ⟨n, fun _ _ => rfl⟩)

/-- The same values in order, and the same end. Other samples may be skipped. -/
structure Alike (s t : Stream) : Prop where
  values : s.values = t.values
  failure : s.failure = t.failure

theorem Alike.symm {s t : Stream} (h : Alike s t) : Alike t s := ⟨h.values.symm, h.failure.symm⟩

theorem Alike.trans {s t u : Stream} (h : Alike s t) (h' : Alike t u) : Alike s u :=
  ⟨h.values.trans h'.values, h.failure.trans h'.failure⟩

theorem Alike.cons_value {s t : Stream} (h : Alike s t) (v : Json.Value) :
    Alike (cons (.ok v) s) (cons (.ok v) t) := ⟨congrArg (v :: ·) h.values, h.failure⟩

theorem Alike.cons_fault {s t : Stream} (h : Alike s t) (f g : SampleFault) :
    Alike (cons (.error f) s) (cons (.error g) t) := ⟨h.values, h.failure⟩

theorem alike_ofLines_bare (source other : Text) (line number : Nat) (ls : List Bytes) :
    Alike (ofLines source line ls) (ofLines other number (bare ls)) := by
  induction ls generalizing line number with
  | nil => exact ⟨rfl, rfl⟩
  | cons l ls ih =>
    rw [ofLines, bare_cons, bare, List.map_singleton]
    by_cases hblank : (trim l).isEmpty = true
    · rw [if_pos hblank, List.filter_cons_of_neg (by simp [hblank]), List.filter_nil, List.nil_append]
      exact ih (line + 1) number
    · rw [if_neg hblank, List.filter_cons_of_pos (by simp [hblank]), List.filter_nil,
        List.singleton_append, ofLines, trim_trim, if_neg hblank]
      have ih := ih (line + 1) (number + 1)
      rcases decodeBytes_cases (trim l) with ⟨v, h⟩ | h | ⟨n, h⟩
      · rw [h, h]
        exact ih.cons_value v
      · obtain ⟨f, hf⟩ := h source line
        obtain ⟨g, hg⟩ := h other number
        rw [hf, hg]
        exact ih.cons_fault f g
      · rw [h, h]
        exact ⟨rfl, rfl⟩

theorem alike_ofContent {content content' : Bytes} (h : bare (lines content) = bare (lines content'))
    (source source' : Text) : Alike (ofContent source content) (ofContent source' content') := by
  have hright := alike_ofLines_bare source' source 1 1 (lines content')
  rw [← h] at hright
  exact (alike_ofLines_bare source source 1 1 (lines content)).trans hright.symm

theorem Alike.limit {s t : Stream} (h : Alike s t) (l : Limit) : Alike (s.limit l) (t.limit l) := by
  have hend : ∀ n reason, Alike (s.endAfter n reason) (t.endAfter n reason) := fun n reason =>
    ⟨by rw [values_endAfter, values_endAfter, h.values],
      by rw [failure_endAfter, failure_endAfter, h.values, h.failure]⟩
  cases l with
  | upTo n =>
    rw [Stream.limit, Stream.limit]
    split
    · exact h
    · exact hend _ _
  | missing => exact hend _ _

theorem alike_read {tree tree' : Storage.Tree} {path path' : Text} {content content' : Bytes}
    (hread : tree.read path = .ok content) (hread' : tree'.read path' = .ok content')
    (h : bare (lines content) = bare (lines content')) (l : Limit) :
    Alike (read tree [path] l) (read tree' [path'] l) := by
  have hone : ∀ {tree : Storage.Tree} {path content}, tree.read path = .ok content →
      ofFiles tree [path] = ofContent path content := by
    intro tree path content hread
    rw [ofFiles, ofFiles, ofFile, hread, append]
    dsimp only
    split
    · rename_i hfailure
      rw [← hfailure]
    · rename_i hfailure
      rw [empty, List.append_nil, ← hfailure]
  rw [read_eq_limit, read_eq_limit, hone hread, hone hread']
  exact (alike_ofContent h path path').limit l

end JsonShape.Samples.Stream
