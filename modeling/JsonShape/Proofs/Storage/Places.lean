import JsonShape.Proofs.Storage.Frame
/-!
# JsonShape.Proofs.Storage.Places

Which places change. Writing changes the place that a path leads to; making directories adds some on
the way there and touches nothing that stands anywhere.

* `Place.of`: the place that a path leads to, whatever stands there.
* `Tree.Grows`: some places that were empty hold directories, and all else is as before.
* `Tree.grows_makeDirectories`: what making directories does.
* `Tree.write_eq_put`: what writing does.
-/

namespace JsonShape.Storage

/-! ## The way along a path -/

namespace Place

def of (path : Text) : Place := (Path.names path).foldl enter (start path)

/-- The places that names lead to, one after the other. -/
def trail : Place → List Bytes → List Place
  | _, [] => []
  | p, c :: cs => p.enter c :: trail (p.enter c) cs

theorem trail_append (p : Place) (cs ds : List Bytes) :
    trail p (cs ++ ds) = trail p cs ++ trail (cs.foldl enter p) ds := by
  induction cs generalizing p with
  | nil => rfl
  | cons c cs ih => simp [trail, ih]

theorem along_eq_trail (path : Text) : along path = trail (start path) (Path.names path) := by
  have hfold : ∀ (cs : List Bytes) (p : Place) (ps : List Place),
      (cs.foldl (fun s c => (s.1.enter c, s.1.enter c :: s.2)) (p, ps)).2.reverse =
        ps.reverse ++ trail p cs := by
    intro cs
    induction cs with
    | nil => simp [trail]
    | cons c cs ih => simp [trail, ih]
  exact hfold (Path.names path) (start path) []

theorem foldl_enter_mem_trail {cs : List Bytes} (hcs : cs ≠ []) (p : Place) :
    cs.foldl enter p ∈ trail p cs := by
  induction cs generalizing p with
  | nil => exact absurd rfl hcs
  | cons c cs ih =>
    cases cs with
    | nil => exact List.mem_singleton.2 rfl
    | cons d ds => exact List.mem_cons_of_mem _ (ih (List.cons_ne_nil d ds) (p.enter c))

theorem of_mem_along (path : Text) : of path ∈ along path := by
  have hnames : Path.names path ≠ [] := by
    obtain ⟨l, ls, hpieces⟩ := exists_pieces_eq_cons (· = Path.slash) path
    simp [Path.names, Text.splitOn_eq_pieces, hpieces]
  rw [along_eq_trail]
  exact foldl_enter_mem_trail hnames _

/-- Empty names lead nowhere else. -/
theorem eq_of_mem_trail_replicate {n : Nat} {p q : Place} (hq : q ∈ trail p (List.replicate n [])) :
    q = p := by
  induction n with
  | zero => cases hq
  | succ n ih =>
    rcases List.mem_cons.1 hq with hq | hq
    · exact hq
    · exact ih hq

theorem foldl_enter_replicate (n : Nat) (p : Place) : (List.replicate n []).foldl enter p = p := by
  induction n with
  | zero => rfl
  | succ n ih => exact ih

theorem isAbove_start (path : Text) : (start path).isAbove = true := by
  unfold start
  split <;> rfl

theorem start_append {s : Text} (hs : s ≠ []) (t : Text) : start (s ++ t) = start s := by
  cases s with
  | nil => exact absurd rfl hs
  | cons c s => rfl

theorem of_trimSlashes (path : Text) : of (Tree.trimSlashes path) = of path := by
  obtain ⟨s, hs, hnil, hpath⟩ := Path.exists_eq_trimSlashes_append path
  by_cases htrim : Tree.trimSlashes path = []
  · rw [htrim, hnil htrim]
  · have hof : of path = of (Tree.trimSlashes path ++ s) := congrArg of hpath
    rw [hof, of, of, start_append htrim, Path.names_append_slashes _ hs, List.foldl_append,
      foldl_enter_replicate]

/-- The way along the directory of a path is on the way along the path, unless it leads nowhere. -/
theorem mem_along_directory {path : Text} {p : Place} (hp : p ∈ along (Path.directory path)) :
    p ∈ along path ∨ p.isAbove = true := by
  rw [along_eq_trail] at hp
  rcases Path.directory_cases path with hall | ⟨hne, t, hpath⟩
  · rw [Path.names_slashes hall] at hp
    rw [eq_of_mem_trail_replicate hp]
    exact .inr (isAbove_start _)
  · rw [hpath, along_eq_trail, start_append hne, Path.names_append, trail_append]
    exact .inl (List.mem_append_left _ hp)

theorem mem_along_split {path : Text} {p : Place} (hp : p ∈ along (Path.split path).1) :
    p ∈ along path ∨ p.isAbove = true := by
  rw [Path.split] at hp
  split at hp
  · exact (mem_along_directory hp).elim mem_along_directory .inr
  · exact mem_along_directory hp

end Place

namespace Tree

theorem walk_eq_foldl {t : Tree} {p q : Place} {cs : List Bytes} (h : t.walk p cs = .ok q) :
    q = cs.foldl Place.enter p := by
  induction cs generalizing p with
  | nil =>
    cases h
    rfl
  | cons c cs ih =>
    rw [walk] at h
    split at h
    · cases h
    · cases h
    · split at h
      · cases h
      · exact ih h

theorem locate_eq_of {t : Tree} {path : Text} {p : Place} (h : t.locate path = .ok p) :
    p = Place.of path := by
  rw [locate] at h
  split at h
  · cases h
  · exact walk_eq_foldl h

/-! ## Making directories -/

/-- Some of the places `ps`, at which nothing stood, hold directories. All else is as before. -/
def Grows (ps : List Place) (t t' : Tree) : Prop :=
  ∀ p, t'.node? p = t.node? p ∨ p ∈ ps ∧ t.node? p = none ∧ t'.node? p = some .directory

namespace Grows

variable {ps qs : List Place} {t u v : Tree}

theorem refl (ps : List Place) (t : Tree) : t.Grows ps t := fun _ => .inl rfl

theorem trans (h : t.Grows ps u) (h' : u.Grows ps v) : t.Grows ps v := by
  intro p
  rcases h p with hu | ⟨hp, hnone, hu⟩
  · rcases h' p with hv | ⟨hp, hnone, hv⟩
    · exact .inl (hv.trans hu)
    · exact .inr ⟨hp, hu.symm.trans hnone, hv⟩
  · refine .inr ⟨hp, hnone, ?_⟩
    rcases h' p with hv | ⟨-, -, hv⟩
    · exact hv.trans hu
    · exact hv

/-- The root, the current directory and those above it are always there. -/
theorem mono (h : t.Grows ps u) (hpq : ∀ p ∈ ps, p ∈ qs ∨ p.isAbove = true) : t.Grows qs u := by
  intro p
  refine (h p).imp_right fun ⟨hp, hnone, hu⟩ => ⟨?_, hnone, hu⟩
  refine (hpq p hp).resolve_right fun habove => ?_
  rw [node?, if_pos habove] at hnone
  cases hnone

theorem keeps (h : t.Grows ps u) : t.Keeps u := by
  intro p n hn
  rcases h p with hu | ⟨-, hnone, -⟩
  · exact hu.trans hn
  · rw [hnone] at hn
    cases hn

end Grows

theorem grows_put {t : Tree} {p : Place} (h : t.node? p = none) :
    t.Grows [p] (t.put p .directory) := by
  intro q
  by_cases hq : q = p
  · subst hq
    exact .inr ⟨List.mem_singleton_self q, h, node?_put_self _ (by simp [h])⟩
  · exact .inl (node?_put_of_ne _ hq)

theorem grows_makeDirectory {t t' : Tree} {path : Text} (h : t.makeDirectory path = .ok t') :
    t.Grows [Place.of path] t' := by
  obtain ⟨-, -, h⟩ := ask_eq_ok_iff.1 h
  split at h
  · cases h
  · rename_i p hlocate
    split at h
    · cases h
    · rename_i hnone
      cases h
      rw [← Place.of_trimSlashes, ← locate_eq_of hlocate]
      exact grows_put hnone

theorem grows_makeLast (lenient : Bool) (t : Tree) (path : Text) :
    t.Grows (Place.along path) (makeLast lenient t path).1 := by
  rw [makeLast]
  split
  · rename_i h
    refine (grows_makeDirectory h).mono fun p hp => .inl ?_
    rw [List.mem_singleton.1 hp]
    exact Place.of_mem_along path
  · exact .refl _ t

theorem grows_makeDirectories (lenient : Bool) (t : Tree) (path : Text) :
    t.Grows (Place.along path) (makeDirectories lenient t path).1 := by
  fun_induction makeDirectories lenient t path with
  | case1 path _ u f hmade _ _ ih =>
    rw [hmade] at ih
    exact ih.mono fun _ => Place.mem_along_split
  | case2 path _ u f hmade _ _ ih =>
    rw [hmade] at ih
    exact (ih.mono fun _ => Place.mem_along_split).trans (grows_makeLast lenient u path)
  | case3 path _ u f hmade _ ih =>
    rw [hmade] at ih
    exact ih.mono fun _ => Place.mem_along_split
  | case4 path _ u hmade _ ih =>
    rw [hmade] at ih
    exact ih.mono fun _ => Place.mem_along_split
  | case5 path _ u hmade _ ih =>
    rw [hmade] at ih
    exact (ih.mono fun _ => Place.mem_along_split).trans (grows_makeLast lenient u path)
  | case6 path _ => exact grows_makeLast lenient t path

/-- A directory that is made where it is missing. -/
theorem grows_of_unless {t made : Tree} {p : Prop} [Decidable p] {lenient : Bool} {path : Text}
    {fault : Option Fault}
    (h : (if p then (t, none) else t.makeDirectories lenient path) = (made, fault)) :
    t.Grows (Place.along path) made := by
  split at h
  · cases h
    exact .refl _ t
  · have hgrows := grows_makeDirectories lenient t path
    rwa [h] at hgrows

/-! ## Writing -/

theorem write_eq_put {t t' : Tree} {path : Text} {content : Bytes}
    (h : t.write path content = .ok t') :
    t.node? (Place.of path) ≠ some .directory ∧ t' = t.put (Place.of path) (.file content) ∧
      t'.lookup path = .ok (Place.of path, .file content) := by
  obtain ⟨p, hdirectory, hput, hlookup⟩ := write_eq_ok h
  obtain ⟨-, -, hlocate, -⟩ := lookup_eq_ok_iff.1 hlookup
  rw [← locate_eq_of hlocate]
  exact ⟨hdirectory, hput, hlookup⟩

end Tree

end JsonShape.Storage
