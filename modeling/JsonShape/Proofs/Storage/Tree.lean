import JsonShape.Storage.Tree
/-!
# JsonShape.Proofs.Storage.Tree

What writing leaves of a storage.

* `Tree.Keeps`: whatever stood in one storage stands in another.
* `Tree.read_write`: a file that was written reads as what was written to it.
* `Tree.read_write_of_ne`: every other file reads as before.
-/

namespace JsonShape.Storage.Tree

/-! ## One place -/

theorem find?_putNode (p q : Place) (n : Node) (ns : List (Place × Node)) :
    ((putNode p n ns).find? fun m => m.1 = q).map Prod.snd =
      if q = p then some n else (ns.find? fun m => m.1 = q).map Prod.snd := by
  induction ns with
  | nil => by_cases h : q = p <;> simp [putNode, h, eq_comm (a := p)]
  | cons m ns ih =>
    obtain ⟨r, m⟩ := m
    rw [putNode]
    by_cases hr : r = p
    · subst hr
      by_cases h : q = r
      · simp [h]
      · simp [h, Ne.symm h]
    · rw [if_neg hr]
      by_cases h : r = q
      · have hne : q ≠ p := h ▸ hr
        simp [h, hne]
      · simpa [h] using ih

theorem node?_put (t : Tree) (p q : Place) (n : Node) :
    (t.put p n).node? q =
      if q.isAbove then some .directory else if q = p then some n else t.node? q := by
  rw [node?, put]
  split
  · rfl
  · rename_i h
    rw [find?_putNode, node?, if_neg h]

theorem node?_put_of_ne {t : Tree} {p q : Place} (n : Node) (h : q ≠ p) :
    (t.put p n).node? q = t.node? q := by
  rw [node?_put, if_neg h, node?]
  split <;> rfl

theorem node?_put_self {t : Tree} {p : Place} (n : Node) (h : t.node? p ≠ some .directory) :
    (t.put p n).node? p = some n := by
  rw [node?_put, if_pos rfl, if_neg]
  intro habove
  exact h (by rw [node?, if_pos habove])

/-! ## Storages that agree -/

/-- What stands in `t` stands in `t'` too. -/
def Keeps (t t' : Tree) : Prop := ∀ p n, t.node? p = some n → t'.node? p = some n

/-- The directories of `t` are those of `t'` too. -/
def KeepsDirectories (t t' : Tree) : Prop :=
  ∀ p, t.node? p = some .directory → t'.node? p = some .directory

theorem Keeps.keepsDirectories {t t' : Tree} (h : t.Keeps t') : t.KeepsDirectories t' :=
  fun p => h p .directory

theorem keeps_put {t : Tree} {p : Place} (n : Node) (h : t.node? p = none) : t.Keeps (t.put p n) := by
  intro q m hm
  have hne : q ≠ p := by
    rintro rfl
    rw [h] at hm
    cases hm
  rwa [node?_put_of_ne n hne]

theorem keepsDirectories_put {t : Tree} {p : Place} (n : Node) (h : t.node? p ≠ some .directory) :
    t.KeepsDirectories (t.put p n) := by
  intro q hq
  have hne : q ≠ p := by
    rintro rfl
    exact h hq
  rwa [node?_put_of_ne n hne]

theorem walk_eq_ok {t t' : Tree} (h : t.KeepsDirectories t') {p q : Place} {cs : List Bytes}
    (hwalk : t.walk p cs = .ok q) : t'.walk p cs = .ok q := by
  induction cs generalizing p with
  | nil => exact hwalk
  | cons c cs ih =>
    rw [walk] at hwalk ⊢
    split at hwalk
    · cases hwalk
    · cases hwalk
    · rename_i hdirectory
      rw [h _ hdirectory]
      dsimp only
      split at hwalk
      · cases hwalk
      · rename_i hlength
        rw [if_neg hlength]
        exact ih hwalk

theorem locate_eq_ok {t t' : Tree} (h : t.KeepsDirectories t') {path : Text} {p : Place}
    (hlocate : t.locate path = .ok p) : t'.locate path = .ok p := by
  rw [locate] at hlocate ⊢
  split at hlocate
  · cases hlocate
  · rename_i hne
    rw [if_neg hne]
    exact walk_eq_ok h hlocate

/-! ## Paths -/

theorem ask_eq_ok_iff {α : Type} {path : Text} {answer : Except Cause α} {a : α} :
    ask path answer = .ok a ↔
      Path.fault? path = none ∧ (Path.bytes path).length ≤ Path.maxBytes ∧ answer = .ok a := by
  rw [ask]
  cases Path.fault? path with
  | some f => simp
  | none =>
    dsimp only
    split
    · rename_i h
      simp [Nat.not_le.2 h]
    · rename_i h
      cases answer with
      | error c => exact ⟨nofun, nofun⟩
      | ok b =>
        refine ⟨fun hb => ⟨rfl, Nat.not_lt.1 h, ?_⟩, fun hb => ?_⟩
        · cases hb
          rfl
        · cases hb.2.2
          rfl

theorem lookup_eq_ok_iff {t : Tree} {path : Text} {p : Place} {n : Node} :
    t.lookup path = .ok (p, n) ↔ Path.fault? path = none ∧
      (Path.bytes path).length ≤ Path.maxBytes ∧ t.locate path = .ok p ∧ t.node? p = some n := by
  rw [lookup, ask_eq_ok_iff]
  refine and_congr_right fun _ => and_congr_right fun _ => ?_
  cases t.locate path with
  | error c => simp
  | ok q =>
    dsimp only
    constructor
    · intro h
      split at h
      · cases h
      · rename_i hn
        cases h
        exact ⟨rfl, hn⟩
    · rintro ⟨⟨⟩, hn⟩
      rw [hn]

theorem read_eq_ok_iff {t : Tree} {path : Text} {content : Bytes} :
    t.read path = .ok content ↔ ∃ p, t.lookup path = .ok (p, .file content) := by
  rw [read]
  split <;> simp [*]

theorem trimSlashes_of_not_endsWithSlash {path : Text} (h : endsWithSlash path = false) :
    trimSlashes path = path := by
  rw [trimSlashes]
  split
  · rfl
  · cases hrev : path.reverse with
    | nil => simpa using congrArg List.reverse hrev
    | cons c rest =>
      have hlast : path.getLast? = some c := by rw [← List.head?_reverse, hrev]; rfl
      have hc : c ≠ Path.slash := by
        rintro rfl
        rw [endsWithSlash, hlast] at h
        simp at h
      rw [List.dropWhile_cons, if_neg (by simpa using hc), ← hrev, List.reverse_reverse]

/-- The place that a path leads to, if something stands there. -/
def place? (t : Tree) (path : Text) : Option Place := (t.lookup path).toOption.map Prod.fst

theorem place?_of_lookup {t : Tree} {path : Text} {p : Place} {n : Node}
    (h : t.lookup path = .ok (p, n)) : t.place? path = some p := by
  rw [place?, h]
  rfl

theorem lookup_of_keepsDirectories {t t' : Tree} (h : t.KeepsDirectories t') {path : Text} {p : Place}
    {n m : Node} (hlookup : t.lookup path = .ok (p, n)) (hm : t'.node? p = some m) :
    t'.lookup path = .ok (p, m) := by
  obtain ⟨hpath, hlength, hlocate, -⟩ := lookup_eq_ok_iff.1 hlookup
  exact lookup_eq_ok_iff.2 ⟨hpath, hlength, locate_eq_ok h hlocate, hm⟩

theorem read_of_keeps {t t' : Tree} (h : t.Keeps t') {path : Text} {content : Bytes}
    (hread : t.read path = .ok content) : t'.read path = .ok content := by
  obtain ⟨p, hlookup⟩ := read_eq_ok_iff.1 hread
  obtain ⟨-, -, -, hnode⟩ := lookup_eq_ok_iff.1 hlookup
  exact read_eq_ok_iff.2 ⟨p, lookup_of_keepsDirectories h.keepsDirectories hlookup (h p _ hnode)⟩

/-! ## Writing -/

theorem write_eq_ok {t t' : Tree} {path : Text} {content : Bytes}
    (h : t.write path content = .ok t') :
    ∃ p, t.node? p ≠ some .directory ∧ t' = t.put p (.file content) ∧
      t'.lookup path = .ok (p, .file content) := by
  obtain ⟨hpath, hlength, h⟩ := ask_eq_ok_iff.1 h
  split at h
  · cases h
  · rename_i p hlocate
    split at h
    · cases h
    · rename_i hslash
      rw [trimSlashes_of_not_endsWithSlash (Bool.eq_false_iff.2 hslash)] at hlocate
      split at h
      · cases h
      · rename_i hdirectory
        cases h
        have hne : t.node? p ≠ some .directory := hdirectory
        refine ⟨p, hne, rfl, lookup_eq_ok_iff.2 ⟨hpath, hlength, ?_, node?_put_self _ hne⟩⟩
        exact locate_eq_ok (keepsDirectories_put _ hne) hlocate

theorem read_write {t t' : Tree} {path : Text} {content : Bytes}
    (h : t.write path content = .ok t') : t'.read path = .ok content := by
  obtain ⟨p, -, -, hlookup⟩ := write_eq_ok h
  exact read_eq_ok_iff.2 ⟨p, hlookup⟩

theorem read_write_of_ne {t t' : Tree} {path other : Text} {content content' : Bytes}
    (h : t.write path content = .ok t') (hread : t.read other = .ok content')
    (hne : t'.place? other ≠ t'.place? path) : t'.read other = .ok content' := by
  obtain ⟨p, hdirectory, rfl, hlookup⟩ := write_eq_ok h
  obtain ⟨q, hother⟩ := read_eq_ok_iff.1 hread
  obtain ⟨-, -, -, hnode⟩ := lookup_eq_ok_iff.1 hother
  have hkeeps : t.KeepsDirectories (t.put p (.file content)) := keepsDirectories_put _ hdirectory
  rw [place?_of_lookup hlookup] at hne
  by_cases hqp : q = p
  · subst hqp
    have hself := lookup_of_keepsDirectories hkeeps hother (node?_put_self (.file content) hdirectory)
    exact absurd (place?_of_lookup hself) hne
  · refine read_eq_ok_iff.2 ⟨q, lookup_of_keepsDirectories hkeeps hother ?_⟩
    rw [node?_put_of_ne _ hqp, hnode]

end JsonShape.Storage.Tree
