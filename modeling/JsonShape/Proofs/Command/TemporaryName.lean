import JsonShape.Command.Run
import JsonShape.Proofs.Storage.Places
import JsonShape.Proofs.Text.Utf8
import JsonShape.Proofs.TypeScript.Name
/-!
# JsonShape.Proofs.Command.TemporaryName

The files that stand in for the standard streams.

* `Storage.IsWordName`: names of letters, digits and underscores, which lead to a place in the current
  directory; `Storage.IsPlainName`: the same, short enough for the storage.
* `Storage.Tree.write_plain`, `Storage.Tree.read_of_node?`: files of such names can be written and read.
* `Storage.Tree.node?_remove_plain`: a storage is as before once a file is gone whose name was free.
* `Command.Surroundings.Fresh`: the names for files that stand in are plain, free and used nowhere else.
* `Command.Surroundings.fresh_numbered`: numbered names are, if those in the request are avoided.
-/

namespace JsonShape

namespace Storage

/-! ## Plain names -/

structure IsWordName (name : Text) : Prop where
  ne_nil : name ≠ []
  character : ∀ c ∈ name, Text.isNameCharacter c = true

structure IsPlainName (name : Text) : Prop where
  ne_nil : name ≠ []
  character : ∀ c ∈ name, Text.isNameCharacter c = true
  length : name.length ≤ Path.maxNameBytes

/-- Characters of names are neither slashes, dots nor zeros, and each is a byte of its own. -/
theorem toNat_of_isNameCharacter {c : CodePoint} (hc : Text.isNameCharacter c = true) :
    0x30 ≤ c.toNat ∧ c.toNat < 0x80 := by
  simp only [Text.isNameCharacter, CodePoint.isLetter, CodePoint.isUpperLetter, CodePoint.isLowerLetter,
    CodePoint.isDigit, Bool.or_eq_true, Bool.and_eq_true, decide_eq_true_eq] at hc
  rcases hc with ((h | h) | h) | h
  · omega
  · omega
  · omega
  · rw [h]
    decide

theorem bytes_of_isNameCharacter {t : Text} (ht : ∀ c ∈ t, Text.isNameCharacter c = true) :
    Path.bytes t = t.map fun c => c.toNat.toUInt8 := by
  induction t with
  | nil => rfl
  | cons c t ih =>
    obtain ⟨hc, ht⟩ := List.forall_mem_cons.1 ht
    obtain ⟨-, hascii⟩ := toNat_of_isNameCharacter hc
    have hlone : c.isLoneByte = false := by
      rw [CodePoint.isLoneByte, Bool.and_eq_false_iff]
      exact .inl (decide_eq_false (by omega))
    have hone : Utf8.encodeOne c = [c.toNat.toUInt8] := if_pos hascii
    rw [Path.bytes, List.flatMap_cons, ← Path.bytes, ih ht, hlone, if_neg Bool.false_ne_true, hone]
    rfl

/-- Names are told apart by their bytes. -/
theorem bytes_injective {s t : Text} (hs : ∀ c ∈ s, Text.isNameCharacter c = true)
    (ht : ∀ c ∈ t, Text.isNameCharacter c = true) (h : Path.bytes s = Path.bytes t) : s = t := by
  have hback : ∀ {t : Text}, (∀ c ∈ t, Text.isNameCharacter c = true) →
      (Path.bytes t).map (fun b => CodePoint.ofNat b.toNat) = t := by
    intro t ht
    rw [bytes_of_isNameCharacter ht, List.map_map]
    refine (List.map_congr_left fun c hc => ?_).trans (List.map_id t)
    obtain ⟨-, hascii⟩ := toNat_of_isNameCharacter (ht c hc)
    rw [Function.comp_apply, Utf8.toNat_toUInt8 (by omega), CodePoint.ofNat_toNat]
    rfl
  rw [← hback hs, h, hback ht]

namespace IsWordName

variable {name : Text} (h : IsWordName name)

include h

theorem slash_not_mem : Path.slash ∉ name := fun hmem =>
  absurd (toNat_of_isNameCharacter (h.character _ hmem)).1 (by decide)

theorem exists_bytes_eq_cons : ∃ b bs, Path.bytes name = b :: bs ∧ b ≠ 0x2E := by
  obtain ⟨c, rest, rfl⟩ := List.exists_cons_of_ne_nil h.ne_nil
  obtain ⟨hlow, hascii⟩ := toNat_of_isNameCharacter (h.character c List.mem_cons_self)
  refine ⟨_, _, by rw [bytes_of_isNameCharacter h.character, List.map_cons], fun e => ?_⟩
  have := congrArg UInt8.toNat e
  rw [Utf8.toNat_toUInt8 (by omega)] at this
  have hdot : (0x2E : UInt8).toNat = 0x2E := rfl
  omega

theorem isOwnName : IsOwnName (Path.bytes name) := by
  obtain ⟨b, bs, hbytes, hb⟩ := h.exists_bytes_eq_cons
  rw [hbytes]
  refine ⟨List.cons_ne_nil b bs, fun e => ?_⟩
  exact hb (List.cons.inj (e.trans (show Place.up = [0x2E, 0x2E] by decide))).1

theorem enter_start : (Place.start name).enter (Path.bytes name) = Place.named name := by
  obtain ⟨b, bs, hbytes, hb⟩ := h.exists_bytes_eq_cons
  have hstart : Place.start name = [] := by
    rw [Place.start, if_neg]
    exact fun hhead => h.slash_not_mem (List.mem_of_head? hhead)
  have hhere : Path.bytes name ≠ Place.here := by
    rw [hbytes]
    exact fun e => hb (List.cons.inj (e.trans (show Place.here = [0x2E] by decide))).1
  rw [hstart, Place.enter, if_neg, if_neg h.isOwnName.ne_up]
  · rfl
  · simp [h.isOwnName.ne_nil, hhere]

theorem names_eq : Path.names name = [Path.bytes name] := by
  rw [Path.names, Text.splitOn_of_not_mem h.slash_not_mem, List.map_singleton]

theorem place_of : Place.of name = Place.named name := by
  rw [Place.of, h.names_eq, List.foldl_cons, List.foldl_nil, h.enter_start]

theorem directory_eq_nil : Path.directory name = [] := by
  have hdrop : name.reverse.dropWhile (· ≠ Path.slash) = [] := by
    rw [← List.append_nil name.reverse, List.dropWhile_append_of_pos]
    · rfl
    · intro c hc
      exact decide_eq_true (ne_of_mem_of_not_mem (List.mem_reverse.1 hc) h.slash_not_mem)
  rw [Path.directory, hdrop]
  rfl

theorem not_endsWithSlash : Tree.endsWithSlash name = false := by
  rw [Tree.endsWithSlash, decide_eq_false]
  exact fun hlast => h.slash_not_mem (List.mem_of_getLast? hlast)

theorem isAbove_eq_false : (Place.named name).isAbove = false := by
  have hown := h.isOwnName
  rw [Place.isAbove, Bool.or_eq_false_iff]
  refine ⟨decide_eq_false fun e => hown.ne_nil (List.cons.inj e).1, ?_⟩
  rw [Place.named, List.all_cons, decide_eq_false hown.ne_up, Bool.false_and]

end IsWordName

namespace IsPlainName

variable {name : Text} (h : IsPlainName name)

include h

theorem isWordName : IsWordName name := ⟨h.ne_nil, h.character⟩

theorem isOwnName : IsOwnName (Path.bytes name) := h.isWordName.isOwnName

theorem length_bytes_le : (Path.bytes name).length ≤ Path.maxNameBytes := by
  rw [bytes_of_isNameCharacter h.character, List.length_map]
  exact h.length

theorem fault?_eq_none : Path.fault? name = none := by
  have hallowed : ∀ c ∈ name, Path.hasBytes c = true := by
    intro c hc
    obtain ⟨-, hascii⟩ := toNat_of_isNameCharacter (h.character c hc)
    have := Utf8.isScalar_ofNat (n := c.toNat) (.inl (by omega))
    rw [CodePoint.ofNat_toNat] at this
    rw [Path.hasBytes, this, Bool.true_or]
  have hzero : name.contains (CodePoint.ofNat 0) = false := by
    refine Bool.eq_false_iff.2 fun hmem => ?_
    exact absurd (toNat_of_isNameCharacter (h.character _ (List.contains_iff_mem.1 hmem))).1 (by decide)
  have hnone : Utf8.surrogates? Path.hasBytes name = none := by
    rw [Utf8.surrogates?, ← List.append_nil name, List.dropWhile_append_of_pos hallowed]
    rfl
  rw [Path.fault?, hnone, hzero]
  rfl

end IsPlainName

namespace Tree

variable {name : Text} (h : IsPlainName name)

include h

theorem locate_plain (t : Tree) : t.locate name = .ok (Place.named name) := by
  have hstart : t.node? (Place.start name) = some .directory := if_pos (Place.isAbove_start name)
  rw [locate, if_neg (by simpa using h.ne_nil), h.isWordName.names_eq, walk, hstart]
  dsimp only
  rw [if_neg (Nat.not_lt.2 h.length_bytes_le), walk, h.isWordName.enter_start]

theorem length_bytes_le_maxBytes : (Path.bytes name).length ≤ Path.maxBytes :=
  Nat.le_trans h.length_bytes_le (by decide)

theorem read_of_node? {t : Tree} {content : Bytes} (hnode : t.node? (.named name) = some (.file content)) :
    t.read name = .ok content :=
  read_eq_ok_iff.2 ⟨_, lookup_eq_ok_iff.2
    ⟨h.fault?_eq_none, length_bytes_le_maxBytes h, locate_plain h t, hnode⟩⟩

theorem node?_put_plain (t : Tree) (m : Node) : (t.put (.named name) m).node? (.named name) = some m := by
  rw [node?_put, h.isWordName.isAbove_eq_false, if_neg Bool.false_ne_true, if_pos rfl]

theorem node?_remove_plain {t u : Tree} {q : Place} (hfree : t.node? (.named name) = none)
    (hsame : q ≠ Place.named name → u.node? q = t.node? q) :
    (u.remove (.named name)).node? q = t.node? q :=
  node?_remove h.isWordName.isAbove_eq_false hfree hsame

theorem write_plain {t : Tree} (hnode : t.node? (.named name) ≠ some .directory) (content : Bytes) :
    t.write name content = .ok (t.put (.named name) (.file content)) := by
  refine ask_eq_ok_iff.2 ⟨h.fault?_eq_none, length_bytes_le_maxBytes h, ?_⟩
  have hslash := h.isWordName.not_endsWithSlash
  rw [trimSlashes_of_not_endsWithSlash hslash, locate_plain h, hslash]
  dsimp only
  rw [if_neg Bool.false_ne_true]
  split
  · rename_i hdirectory
    exact absurd hdirectory hnode
  · rfl

end Tree

end Storage

/-! ## Temporary names -/

namespace Command

open Storage (IsPlainName IsWordName Place Tree)

/-- The names of the files that stand in are plain and free, differ, and do not occur in the paths of
the request. -/
structure Surroundings.Fresh (s : Surroundings) (r : Request) (tree : Tree) : Prop where
  input : IsPlainName s.input
  output : IsPlainName s.output
  ne : s.input ≠ s.output
  input_free : tree.node? (.named s.input) = none
  output_free : tree.node? (.named s.output) = none
  input_unused : ∀ path ∈ r.paths, Storage.Path.bytes s.input ∉ Storage.Path.names path
  output_unused : ∀ path ∈ r.paths, Storage.Path.bytes s.output ∉ Storage.Path.names path

theorem Surroundings.Fresh.bytes_ne {s : Surroundings} {r : Request} {tree : Tree}
    (h : s.Fresh r tree) : Storage.Path.bytes s.input ≠ Storage.Path.bytes s.output := fun e =>
  h.ne (Storage.bytes_injective h.input.character h.output.character e)

theorem Surroundings.Fresh.place_ne {s : Surroundings} {r : Request} {tree : Tree}
    (h : s.Fresh r tree) : Place.named s.output ≠ Place.named s.input := fun e =>
  h.bytes_ne (List.cons.inj e).1.symm

/-- A console of bytes, and two plain names. -/
def ordinary : Surroundings := ⟨.utf8, "tmp0", "tmp1"⟩

theorem fresh_ordinary {r : Request} {tree : Tree}
    (hfree : ∀ name ∈ [ordinary.input, ordinary.output], tree.node? (.named name) = none)
    (hunused : ∀ path ∈ r.paths, ∀ name ∈ [ordinary.input, ordinary.output],
      Storage.Path.bytes name ∉ Storage.Path.names path) :
    ordinary.Fresh r tree where
  input := ⟨by decide, by decide, by decide⟩
  output := ⟨by decide, by decide, by decide⟩
  ne := by decide
  input_free := hfree _ (by simp)
  output_free := hfree _ (by simp)
  input_unused path hpath := hunused path hpath _ (by simp)
  output_unused path hpath := hunused path hpath _ (by simp)

def numberedName (k : Nat) : Text := ("tmp" : Text) ++ Text.ofNat k

theorem isNameCharacter_of_mem_numberedName {k : Nat} : ∀ c ∈ numberedName k,
    Text.isNameCharacter c = true := by
  intro c hc
  rcases List.mem_append.1 hc with hc | hc
  · have htmp : ∀ c ∈ ("tmp" : Text), Text.isNameCharacter c = true := by decide
    exact htmp c hc
  · exact Text.isNameCharacter_of_mem_ofNat hc

theorem isWordName_numberedName (k : Nat) : IsWordName (numberedName k) := by
  refine ⟨fun e => ?_, isNameCharacter_of_mem_numberedName⟩
  exact absurd (List.append_eq_nil_iff.1 e).1 (by decide)

theorem isPlainName_numberedName {k : Nat} (hk : k < 10 ^ 252) : IsPlainName (numberedName k) := by
  obtain ⟨hne, hcharacter⟩ := isWordName_numberedName k
  refine ⟨hne, hcharacter, ?_⟩
  have hdigits := (Nat.length_toDigits_le_iff (b := 10) (by decide) (by decide)).2 hk
  have htmp : ("tmp" : Text).length = 3 := by decide
  have hnumber : (Text.ofNat k).length = (Nat.toDigits 10 k).length := List.length_map _
  rw [numberedName, List.length_append, htmp, hnumber, Storage.Path.maxNameBytes]
  omega

theorem bytes_numberedName_injective {k l : Nat}
    (h : Storage.Path.bytes (numberedName k) = Storage.Path.bytes (numberedName l)) : k = l :=
  Text.ofNat_injective (List.append_cancel_left (Storage.bytes_injective
    isNameCharacter_of_mem_numberedName isNameCharacter_of_mem_numberedName h))

section TemporaryName

variable (avoid : List Bytes) (tree : Tree)

/-- A name that can be chosen. -/
def IsOpen (name : Text) : Prop :=
  tree.node? (.named name) = none ∧ Storage.Path.bytes name ∉ avoid

/-- Of one number more than things are stored and to be avoided, some number gives a name that is
neither. -/
theorem exists_open_numberedName :
    ∃ k ∈ List.range (tree.nodes.length + avoid.length + 1), IsOpen avoid tree (numberedName k) := by
  refine Classical.byContradiction fun hno => ?_
  let places := tree.nodes.map Prod.fst ++ avoid.map ([·])
  have htaken : ∀ k ∈ List.range (tree.nodes.length + avoid.length + 1),
      ∃ p ∈ places, p = Place.named (numberedName k) := by
    intro k hk
    refine ⟨_, ?_, rfl⟩
    by_cases havoid : Storage.Path.bytes (numberedName k) ∈ avoid
    · exact List.mem_append_right _ (List.mem_map_of_mem havoid)
    · have hsome : tree.node? (.named (numberedName k)) ≠ none := fun h => hno ⟨k, hk, h, havoid⟩
      rw [Tree.node?, (isWordName_numberedName k).isAbove_eq_false, if_neg Bool.false_ne_true] at hsome
      cases hfind : tree.nodes.find? fun m => m.1 = Place.named (numberedName k) with
      | none =>
        rw [hfind] at hsome
        exact absurd rfl hsome
      | some m =>
        have hplace : m.1 = Place.named (numberedName k) := by simpa using List.find?_some hfind
        rw [← hplace]
        exact List.mem_append_left _ (List.mem_map_of_mem (List.mem_of_find?_eq_some hfind))
  have hdistinct : (List.range (tree.nodes.length + avoid.length + 1)).Pairwise fun k l =>
      ∀ p : Place, p = Place.named (numberedName k) → ¬p = Place.named (numberedName l) := by
    refine List.nodup_range.imp ?_
    rintro k l hne p rfl hl
    exact hne (bytes_numberedName_injective (List.cons.inj hl).1)
  have := length_le_of_matching htaken hdistinct
  simp only [places, List.length_range, List.length_append, List.length_map] at this
  omega

theorem exists_temporaryName_eq : ∃ k ≤ tree.nodes.length + avoid.length,
    temporaryName avoid tree = numberedName k ∧ IsOpen avoid tree (temporaryName avoid tree) := by
  obtain ⟨l, hl, hopen⟩ := exists_open_numberedName avoid tree
  let chosen : Text → Bool := fun name =>
    (tree.node? (.named name)).isNone && !avoid.contains (Storage.Path.bytes name)
  have hchosen : ∀ name, chosen name = true ↔ IsOpen avoid tree name := by
    simp [chosen, IsOpen]
  have hname : temporaryName avoid tree =
      (((List.range (tree.nodes.length + avoid.length + 1)).map numberedName).find? chosen).getD [] :=
    rfl
  cases hfind : ((List.range (tree.nodes.length + avoid.length + 1)).map numberedName).find? chosen with
  | none =>
    exact absurd ((hchosen _).2 hopen) (List.find?_eq_none.1 hfind _ (List.mem_map_of_mem hl))
  | some name =>
    obtain ⟨k, hk, rfl⟩ := List.mem_map.1 (List.mem_of_find?_eq_some hfind)
    rw [hfind, Option.getD_some] at hname
    rw [hname]
    exact ⟨k, Nat.lt_succ_iff.1 (List.mem_range.1 hk), rfl, (hchosen _).1 (List.find?_some hfind)⟩

theorem isOpen_temporaryName : IsOpen avoid tree (temporaryName avoid tree) := by
  obtain ⟨-, -, -, hopen⟩ := exists_temporaryName_eq avoid tree
  exact hopen

variable {avoid tree} in
theorem isPlainName_temporaryName (hsize : tree.nodes.length + avoid.length < 10 ^ 252) :
    IsPlainName (temporaryName avoid tree) := by
  obtain ⟨k, hk, hname, -⟩ := exists_temporaryName_eq avoid tree
  rw [hname]
  exact isPlainName_numberedName (by omega)

end TemporaryName

/-- There are fresh names for every request and every storage. -/
theorem Surroundings.fresh_numbered (c : Console) (r : Request) (arguments : List Text) (tree : Tree)
    (hsize : tree.nodes.length + (r.paths.flatMap Storage.Path.names).length + 1 < 10 ^ 252) :
    (numbered c (r.paths.flatMap Storage.Path.names) arguments tree).Fresh r tree := by
  generalize havoid : r.paths.flatMap Storage.Path.names = avoid at hsize ⊢
  let first := temporaryName avoid tree
  let second := temporaryName (Storage.Path.bytes first :: avoid) tree
  have hunused : ∀ name, Storage.Path.bytes name ∉ avoid →
      ∀ path ∈ r.paths, Storage.Path.bytes name ∉ Storage.Path.names path := by
    intro name hname path hpath hmem
    exact hname (havoid ▸ List.mem_flatMap.2 ⟨path, hpath, hmem⟩)
  have hfirst : IsPlainName first := isPlainName_temporaryName (by omega)
  have hsecond : IsPlainName second :=
    isPlainName_temporaryName (by rw [List.length_cons]; omega)
  obtain ⟨hfree, hnew⟩ := isOpen_temporaryName avoid tree
  obtain ⟨hfree', hnew'⟩ := isOpen_temporaryName (Storage.Path.bytes first :: avoid) tree
  have hne : first ≠ second := fun e =>
    hnew' (List.mem_cons.2 (.inl (congrArg Storage.Path.bytes e).symm))
  have hlater : Storage.Path.bytes second ∉ avoid := fun h => hnew' (List.mem_cons_of_mem _ h)
  rw [numbered]
  split
  · exact ⟨hfirst, hsecond, hne, hfree, hfree', hunused _ hnew, hunused _ hlater⟩
  · exact ⟨hsecond, hfirst, hne.symm, hfree', hfree, hunused _ hlater, hunused _ hnew⟩

end Command

end JsonShape
