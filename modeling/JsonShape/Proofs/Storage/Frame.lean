import JsonShape.Proofs.Storage.Tree
import JsonShape.Proofs.Text.Pieces
/-!
# JsonShape.Proofs.Storage.Frame

What a file has no part in. Two storages that differ only at places with one name in them treat all
paths without this name alike.

* `Path.mem_names_directory`: the names in the directory of a path are names in the path.
* `Tree.Agree`: the storages; `Tree.agree_put`, `Tree.agree_remove`.
* `Tree.lookup_congr`, `Tree.write_congr`, `Tree.makeDirectories_congr`, `Tree.agree_of_unless`: what is
  done to them.
-/

namespace JsonShape.Storage

/-! ## Names in paths -/

namespace Path

theorem names_append (s t : Text) : names (s ++ slash :: t) = names s ++ names t := by
  rw [names, Text.splitOn_append, List.map_append]
  rfl

theorem names_slashes {s : Text} (hs : ∀ c ∈ s, c = slash) :
    names s = List.replicate (s.length + 1) [] := by
  induction s with
  | nil => rfl
  | cons c s ih =>
    obtain ⟨hc, hs⟩ := List.forall_mem_cons.1 hs
    have happend := names_append [] s
    rw [List.nil_append] at happend
    rw [hc, happend, ih hs, List.length_cons, List.replicate_succ]
    rfl

/-- Slashes at the end of a path are followed by empty names. -/
theorem names_append_slashes (d : Text) {s : Text} (hs : ∀ c ∈ s, c = slash) :
    names (d ++ s) = names d ++ List.replicate s.length [] := by
  cases s with
  | nil => simp
  | cons c s =>
    obtain ⟨hc, hs⟩ := List.forall_mem_cons.1 hs
    rw [hc, names_append, names_slashes hs, List.length_cons]

theorem reverse_eq_dropWhile_append (u : Text) : ∃ s : Text, (∀ c ∈ s, c = slash) ∧
    (u.head? = some slash → s ≠ []) ∧ u.reverse = (u.dropWhile (· = slash)).reverse ++ s := by
  refine ⟨(u.takeWhile (· = slash)).reverse, fun c hc => ?_, fun hu => ?_, ?_⟩
  · exact of_decide_eq_true (List.all_eq_true.1 List.all_takeWhile c (List.mem_reverse.1 hc))
  · cases u with
    | nil => cases hu
    | cons c u =>
      obtain rfl := Option.some.inj hu
      simp
  · rw [← List.reverse_append, List.takeWhile_append_dropWhile]

/-- The slashes that are cut off a path. Nothing but slashes is left as it is. -/
theorem exists_eq_trimSlashes_append (path : Text) : ∃ s : Text, (∀ c ∈ s, c = slash) ∧
    (Tree.trimSlashes path = [] → path = []) ∧ path = Tree.trimSlashes path ++ s := by
  rw [Tree.trimSlashes]
  split
  · exact ⟨[], by simp, id, (List.append_nil path).symm⟩
  · rename_i hall
    obtain ⟨s, hs, -, hpath⟩ := reverse_eq_dropWhile_append path.reverse
    rw [List.reverse_reverse] at hpath
    refine ⟨s, hs, fun hnil => ?_, hpath⟩
    rw [hnil, List.nil_append] at hpath
    exact absurd (List.all_eq_true.2 fun c hc => decide_eq_true (hs c (hpath ▸ hc))) hall

/-- The directory of a path is the root, or the current directory, or what stands before a slash. -/
theorem directory_cases (path : Text) : (∀ c ∈ directory path, c = slash) ∨
    directory path ≠ [] ∧ ∃ t, path = directory path ++ slash :: t := by
  rw [directory]
  split
  · rename_i hall
    refine .inl fun c hc => ?_
    exact of_decide_eq_true (List.all_eq_true.1 hall c (List.mem_reverse.1 hc))
  · rename_i hall
    obtain ⟨s, hs, hne, hupTo⟩ := reverse_eq_dropWhile_append (path.reverse.dropWhile (· ≠ slash))
    have hpath : path = (path.reverse.dropWhile (· ≠ slash)).reverse ++ name path := by
      rw [name, ← List.reverse_append, List.takeWhile_append_dropWhile, List.reverse_reverse]
    have hhead : (path.reverse.dropWhile (· ≠ slash)).head? = some slash := by
      cases hdrop : path.reverse.dropWhile (· ≠ slash) with
      | nil =>
        rw [hdrop] at hall
        exact absurd rfl hall
      | cons d u =>
        have hd := List.head?_dropWhile_not (· ≠ slash) path.reverse
        rw [hdrop] at hd
        simpa using hd
    refine .inr ⟨fun hnil => ?_, ?_⟩
    · rw [hnil, List.nil_append] at hupTo
      refine hall (List.all_eq_true.2 fun c hc => decide_eq_true (hs c ?_))
      exact hupTo ▸ List.mem_reverse.2 hc
    · cases s with
      | nil => exact absurd rfl (hne hhead)
      | cons c s =>
        obtain rfl := hs c List.mem_cons_self
        refine ⟨s ++ name path, ?_⟩
        rw [hupTo] at hpath
        simpa using hpath

theorem mem_names_directory {path : Text} {c : Bytes} (hc : c ∈ names (directory path)) :
    c ∈ names path ∨ c = [] := by
  rcases directory_cases path with hall | ⟨-, t, hpath⟩
  · rw [names_slashes hall] at hc
    exact .inr (List.eq_of_mem_replicate hc)
  · rw [hpath, names_append]
    exact .inl (List.mem_append_left _ hc)

theorem mem_names_split {path : Text} {c : Bytes} (hc : c ∈ names (split path).1) :
    c ∈ names path ∨ c = [] := by
  rw [split] at hc
  split at hc
  · exact (mem_names_directory hc).elim mem_names_directory .inr
  · exact mem_names_directory hc

theorem mem_names_trimSlashes {path : Text} {c : Bytes} (hc : c ∈ names (Tree.trimSlashes path)) :
    c ∈ names path := by
  obtain ⟨s, hs, -, hpath⟩ := exists_eq_trimSlashes_append path
  rw [hpath, names_append_slashes _ hs]
  exact List.mem_append_left _ hc

end Path

/-! ## Places without a name -/

/-- The name of a file, which leads to no directory that is always there. -/
structure IsOwnName (n : Bytes) : Prop where
  ne_nil : n ≠ []
  ne_up : n ≠ Place.up

namespace Place

variable {n : Bytes} (hn : IsOwnName n)

include hn

theorem not_mem_root : n ∉ root := fun h => hn.ne_nil (List.mem_singleton.1 h)

theorem not_mem_enter {p : Place} {c : Bytes} (hp : n ∉ p) (hc : n ≠ c) : n ∉ p.enter c := by
  rw [enter]
  split
  · exact hp
  · split
    · rw [parent]
      split
      · exact not_mem_root hn
      · split
        · rw [List.mem_append, List.mem_singleton, not_or]
          exact ⟨hp, hn.ne_up⟩
        · exact fun h => hp (List.dropLast_subset p h)
    · rw [List.mem_append, List.mem_singleton, not_or]
      exact ⟨hp, hc⟩

theorem not_mem_start (path : Text) : n ∉ start path := by
  rw [start]
  split
  · exact not_mem_root hn
  · exact List.not_mem_nil

end Place

namespace Tree

/-- What two storages have at places without the name `n` is the same. -/
def Agree (n : Bytes) (t t' : Tree) : Prop := ∀ p : Place, n ∉ p → t.node? p = t'.node? p

theorem Agree.trans {n : Bytes} {t u v : Tree} (h : Agree n t u) (h' : Agree n u v) : Agree n t v :=
  fun p hp => (h p hp).trans (h' p hp)

theorem Agree.put_both {n : Bytes} {t t' : Tree} (h : Agree n t t') (p : Place) (m : Node) :
    Agree n (t.put p m) (t'.put p m) := by
  intro q hq
  rw [node?_put, node?_put, h q hq]

theorem agree_put {n : Bytes} {p : Place} (hp : n ∈ p) (t : Tree) (m : Node) :
    Agree n (t.put p m) t :=
  fun _ hq => node?_put_of_ne m fun e => hq (e ▸ hp)

theorem node?_remove_of_ne {t : Tree} {p q : Place} (h : q ≠ p) :
    (t.remove p).node? q = t.node? q := by
  have hkeep : ∀ m : Place × Node,
      decide (decide (m.1 ≠ p) = true ∧ decide (m.1 = q) = true) = decide (m.1 = q) := by
    intro m
    by_cases hm : m.1 = q
    · simp [hm, h]
    · simp [hm]
  rw [node?, node?, remove, List.find?_filter]
  simp only [hkeep]

/-- Removing what was put where nothing stood leaves all as it was. -/
theorem node?_remove {t u : Tree} {p q : Place} (habove : p.isAbove = false)
    (hfree : t.node? p = none) (h : q ≠ p → u.node? q = t.node? q) :
    (u.remove p).node? q = t.node? q := by
  by_cases hq : q = p
  · subst hq
    have hnone : (u.remove q).nodes.find? (fun m => m.1 = q) = none := by
      refine List.find?_eq_none.2 fun m hm => ?_
      simpa using (List.mem_filter.1 hm).2
    rw [hfree, node?, habove, if_neg Bool.false_ne_true, hnone]
    rfl
  · rw [node?_remove_of_ne hq, h hq]

theorem agree_remove {n : Bytes} {p : Place} (hp : n ∈ p) (t : Tree) : Agree n (t.remove p) t :=
  fun _ hq => node?_remove_of_ne fun e => hq (e ▸ hp)

/-! ## What is done to both -/

/-- Whether a path can be asked for does not depend on the answer. -/
theorem ask_eq_cases (path : Text) :
    (∃ f, ∀ {α : Type} (a : α), ask path (.ok a) = .error f) ∨
      ∀ {α : Type} (a : α), ask path (.ok a) = .ok a := by
  simp only [ask]
  cases Path.fault? path with
  | some f => exact .inl ⟨_, fun _ => rfl⟩
  | none =>
    dsimp only
    split
    · exact .inl ⟨_, fun _ => rfl⟩
    · exact .inr fun _ => rfl

theorem exists_ask_eq_error {α : Type} (path : Text) (c : Cause) :
    ∃ f, (ask path (.error c) : Except Fault α) = .error f ∧
      (ask path (.error c) : Except Fault α) = .error f := by
  rw [ask]
  cases Path.fault? path with
  | some f => exact ⟨_, rfl, rfl⟩
  | none =>
    dsimp only
    split <;> exact ⟨_, rfl, rfl⟩

section Congr

variable {n : Bytes} (hn : IsOwnName n) {t t' : Tree} (h : Agree n t t') {path : Text}

include hn h

theorem walk_congr {p : Place} {cs : List Bytes} (hp : n ∉ p) (hcs : n ∉ cs) :
    t.walk p cs = t'.walk p cs ∧ ∀ q, t'.walk p cs = .ok q → n ∉ q := by
  induction cs generalizing p with
  | nil =>
    refine ⟨rfl, ?_⟩
    rintro _ ⟨⟩
    exact hp
  | cons c cs ih =>
    rw [List.mem_cons, not_or] at hcs
    rw [walk, walk, h p hp]
    split
    · exact ⟨rfl, by rintro _ ⟨⟩⟩
    · exact ⟨rfl, by rintro _ ⟨⟩⟩
    · split
      · exact ⟨rfl, by rintro _ ⟨⟩⟩
      · exact ih (Place.not_mem_enter hn hp hcs.1) hcs.2

theorem locate_congr (hpath : n ∉ Path.names path) :
    t.locate path = t'.locate path ∧ ∀ q, t'.locate path = .ok q → n ∉ q := by
  rw [locate, locate]
  split
  · exact ⟨rfl, by rintro _ ⟨⟩⟩
  · exact walk_congr hn h (Place.not_mem_start hn path) hpath

theorem lookup_congr (hpath : n ∉ Path.names path) : t.lookup path = t'.lookup path := by
  obtain ⟨hlocate, hplace⟩ := locate_congr hn h hpath
  rw [lookup, lookup, hlocate]
  cases hok : t'.locate path with
  | error c => rfl
  | ok p =>
    dsimp only
    rw [h p (hplace p hok)]

theorem read_congr (hpath : n ∉ Path.names path) : t.read path = t'.read path := by
  rw [read, read, lookup_congr hn h hpath]

theorem pathExists_congr (hpath : n ∉ Path.names path) : t.pathExists path = t'.pathExists path := by
  rw [pathExists, pathExists, lookup_congr hn h hpath]

theorem isDirectory_congr (hpath : n ∉ Path.names path) : t.isDirectory path = t'.isDirectory path := by
  rw [isDirectory, isDirectory, lookup_congr hn h hpath]

/-- A directory is refused in both for one reason, or made in both in one place. -/
theorem makeDirectory_congr (hpath : n ∉ Path.names path) :
    (∃ f, t.makeDirectory path = .error f ∧ t'.makeDirectory path = .error f) ∨
      ∃ p, t.makeDirectory path = .ok (t.put p .directory) ∧
        t'.makeDirectory path = .ok (t'.put p .directory) := by
  have htrim : n ∉ Path.names (trimSlashes path) := fun hmem => hpath (Path.mem_names_trimSlashes hmem)
  obtain ⟨hlocate, hplace⟩ := locate_congr hn h htrim
  rw [makeDirectory, makeDirectory, hlocate]
  cases hok : t'.locate (trimSlashes path) with
  | error c => exact .inl (exists_ask_eq_error path c)
  | ok p =>
    dsimp only
    rw [h p (hplace p hok)]
    cases t'.node? p with
    | some m => exact .inl (exists_ask_eq_error path .taken)
    | none => exact (ask_eq_cases path).imp (fun ⟨f, hf⟩ => ⟨f, hf _, hf _⟩) fun hf => ⟨p, hf _, hf _⟩

theorem write_congr (hpath : n ∉ Path.names path) (content : Bytes) :
    (∃ f, t.write path content = .error f ∧ t'.write path content = .error f) ∨
      ∃ p, t.write path content = .ok (t.put p (.file content)) ∧
        t'.write path content = .ok (t'.put p (.file content)) := by
  have htrim : n ∉ Path.names (trimSlashes path) := fun hmem => hpath (Path.mem_names_trimSlashes hmem)
  obtain ⟨hlocate, hplace⟩ := locate_congr hn h htrim
  rw [write, write, hlocate]
  cases hok : t'.locate (trimSlashes path) with
  | error c => exact .inl (exists_ask_eq_error path c)
  | ok p =>
    dsimp only
    rw [h p (hplace p hok)]
    split
    · exact .inl (exists_ask_eq_error path .isDirectory)
    · split
      · exact .inl (exists_ask_eq_error path .isDirectory)
      · exact (ask_eq_cases path).imp (fun ⟨f, hf⟩ => ⟨f, hf _, hf _⟩) fun hf => ⟨p, hf _, hf _⟩

theorem makeLast_congr (lenient : Bool) (hpath : n ∉ Path.names path) :
    (makeLast lenient t path).2 = (makeLast lenient t' path).2 ∧
      Agree n (makeLast lenient t path).1 (makeLast lenient t' path).1 := by
  rw [makeLast, makeLast, isDirectory_congr hn h hpath]
  rcases makeDirectory_congr hn h hpath with ⟨f, hf, hf'⟩ | ⟨p, hp, hp'⟩
  · rw [hf, hf']
    exact ⟨rfl, h⟩
  · rw [hp, hp']
    exact ⟨rfl, h.put_both p .directory⟩

theorem makeDirectories_congr (lenient : Bool) (hpath : n ∉ Path.names path) :
    (makeDirectories lenient t path).2 = (makeDirectories lenient t' path).2 ∧
      Agree n (makeDirectories lenient t path).1 (makeDirectories lenient t' path).1 := by
  induction hlength : path.length using Nat.strongRecOn generalizing path with
  | ind k ih =>
    subst hlength
    have hsplit : n ∉ Path.names (Path.split path).1 := fun hmem =>
      (Path.mem_names_split hmem).elim hpath hn.ne_nil
    rw [makeDirectories.eq_def lenient t path, makeDirectories.eq_def lenient t' path,
      pathExists_congr hn h hsplit]
    split
    · rename_i hmissing
      obtain ⟨hfault, hagree⟩ := ih _ (Path.length_split_lt hmissing.2.1) hsplit rfl
      generalize makeDirectories lenient t (Path.split path).1 = r at hfault hagree
      generalize makeDirectories lenient t' (Path.split path).1 = r' at hfault hagree
      obtain ⟨u, fault⟩ := r
      obtain ⟨u', fault'⟩ := r'
      obtain rfl : fault = fault' := hfault
      have hlast := makeLast_congr hn hagree lenient hpath
      cases fault with
      | none =>
        dsimp only
        split
        · exact ⟨rfl, hagree⟩
        · exact hlast
      | some f =>
        dsimp only
        split
        · split
          · exact ⟨rfl, hagree⟩
          · exact hlast
        · exact ⟨rfl, hagree⟩
    · exact makeLast_congr hn h lenient hpath

/-- A directory that is made where it is missing. -/
theorem agree_of_unless {p : Prop} [Decidable p] {lenient : Bool} {u u' : Tree} {fault fault' : Option Fault}
    (hpath : n ∉ Path.names path)
    (hmade : (if p then (t, none) else t.makeDirectories lenient path) = (u, fault))
    (hmade' : (if p then (t', none) else t'.makeDirectories lenient path) = (u', fault')) :
    fault = fault' ∧ Agree n u u' := by
  split at hmade
  · rename_i hp
    rw [if_pos hp] at hmade'
    cases hmade
    cases hmade'
    exact ⟨rfl, h⟩
  · rename_i hp
    rw [if_neg hp] at hmade'
    have := makeDirectories_congr hn h lenient hpath
    rwa [hmade, hmade'] at this

end Congr

end Tree

end JsonShape.Storage
