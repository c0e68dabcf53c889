import JsonShape.Samples.Stream
/-!
# JsonShape.Proofs.Samples.Limit

What a limit leaves of the samples of files.

* `Stream.ofFiles`: the samples of files one after the other, as `Stream.append` puts them.
* `Stream.limit`: a stream cut after the last value that is wanted.
* `Stream.readFrom_eq_passed`, `Stream.read_eq_limit`: the count that is kept from file to file comes to
  the same.
* `Stream.CutAt`, `Stream.read_cuts_beginning`: what is cut off, and what has no say in it.
-/

namespace JsonShape.Samples.Stream

/-- One stream and then the other; a failure of the first is the end. -/
def append (s t : Stream) : Stream :=
  match s.failure with
  | some f => ⟨s.items, some f⟩
  | none => ⟨s.items ++ t.items, t.failure⟩

def ofFiles (tree : Storage.Tree) : List Text → Stream
  | [] => empty
  | path :: paths => append (ofFile tree path) (ofFiles tree paths)

/-- The shortest beginning with `n + 1` values, if there are as many. -/
def firstValues : Nat → List Sample → Option (List Sample)
  | _, [] => none
  | n, .error f :: rest => (firstValues n rest).map (.error f :: ·)
  | 0, .ok v :: _ => some [.ok v]
  | n + 1, .ok v :: rest => (firstValues n rest).map (.ok v :: ·)

/-- Ends a stream with its `n + 1`-th value, if it has as many, for the reason given. -/
def endAfter (n : Nat) (reason : Option StreamFault) (s : Stream) : Stream :=
  match firstValues n s.items with
  | some items => ⟨items, reason⟩
  | none => s

/-- Ends a stream with the last value that is wanted. -/
def limit (l : Limit) (s : Stream) : Stream :=
  match l with
  | .upTo n => if n ≤ 0 then s else s.endAfter (n.toNat - 1) none
  | .missing => s.endAfter 0 (some .noLimit)

/-! ## The beginning with so many values -/

theorem values_eq (s : Stream) : s.values = s.items.filterMap Except.toOption := by
  refine congrArg (s.items.filterMap ·) (funext fun a => ?_)
  cases a <;> rfl

theorem firstValues_of_before (before : List Sample) (v : Json.Value) (rest : List Sample) :
    firstValues (before.filterMap Except.toOption).length (before ++ .ok v :: rest) =
      some (before ++ [.ok v]) := by
  induction before with
  | nil => rfl
  | cons a before ih =>
    cases a with
    | error f =>
      have hcount : (Except.error f :: before).filterMap Except.toOption =
          before.filterMap Except.toOption := rfl
      rw [hcount, List.cons_append, firstValues, ih]
      rfl
    | ok w =>
      have hcount : ((Except.ok w :: before).filterMap Except.toOption).length =
          (before.filterMap Except.toOption).length + 1 := rfl
      rw [hcount, List.cons_append, firstValues, ih]
      rfl

/-- The beginning ends with a value, and there are `n` before it. -/
theorem firstValues_eq_some_iff {n : Nat} {samples items : List Sample} :
    firstValues n samples = some items ↔ ∃ before v rest, items = before ++ [.ok v] ∧
      samples = before ++ .ok v :: rest ∧ (before.filterMap Except.toOption).length = n := by
  constructor
  · intro h
    fun_induction firstValues n samples generalizing items with
    | case1 => cases h
    | case2 n f samples ih =>
      obtain ⟨items, hitems, rfl⟩ := Option.map_eq_some_iff.1 h
      obtain ⟨before, v, rest, rfl, rfl, hcount⟩ := ih hitems
      exact ⟨.error f :: before, v, rest, rfl, rfl, hcount⟩
    | case3 v samples =>
      cases h
      exact ⟨[], v, samples, rfl, rfl, rfl⟩
    | case4 n w samples ih =>
      obtain ⟨items, hitems, rfl⟩ := Option.map_eq_some_iff.1 h
      obtain ⟨before, v, rest, rfl, rfl, hcount⟩ := ih hitems
      exact ⟨.ok w :: before, v, rest, rfl, rfl, congrArg (· + 1) hcount⟩
  · rintro ⟨before, v, rest, rfl, rfl, rfl⟩
    exact firstValues_of_before before v rest

theorem firstValues_eq_none_iff {n : Nat} {samples : List Sample} :
    firstValues n samples = none ↔ (samples.filterMap Except.toOption).length ≤ n := by
  fun_induction firstValues n samples with
  | case1 n => simp
  | case2 n f samples ih => exact Option.map_eq_none_iff.trans ih
  | case3 v samples => simp [Except.toOption]
  | case4 n v samples ih => exact Option.map_eq_none_iff.trans (ih.trans Nat.succ_le_succ_iff.symm)

theorem prefix_of_firstValues {n : Nat} {samples items : List Sample}
    (h : firstValues n samples = some items) : items <+: samples := by
  obtain ⟨before, v, rest, rfl, rfl, -⟩ := firstValues_eq_some_iff.1 h
  exact ⟨rest, by simp⟩

theorem firstValues_append {n : Nat} {samples items : List Sample} (more : List Sample)
    (h : firstValues n samples = some items) : firstValues n (samples ++ more) = some items := by
  obtain ⟨before, v, rest, hitems, rfl, hcount⟩ := firstValues_eq_some_iff.1 h
  exact firstValues_eq_some_iff.2 ⟨before, v, rest ++ more, hitems, by simp, hcount⟩

theorem exists_firstValues {n : Nat} {s : Stream} (h : n < s.values.length) :
    ∃ items, firstValues n s.items = some items := by
  rw [values_eq] at h
  refine Option.ne_none_iff_exists'.1 fun hnone => ?_
  exact Nat.not_lt.2 (firstValues_eq_none_iff.1 hnone) h

theorem endAfter_of_length_le {n : Nat} {s : Stream} (h : s.values.length ≤ n)
    (reason : Option StreamFault) : s.endAfter n reason = s := by
  rw [values_eq] at h
  rw [endAfter, firstValues_eq_none_iff.2 h]

theorem prefix_of_endAfter (n : Nat) (reason : Option StreamFault) (s : Stream) :
    (s.endAfter n reason).items <+: s.items := by
  rw [endAfter]
  split
  · rename_i hitems
    exact prefix_of_firstValues hitems
  · exact List.prefix_refl _

theorem prefix_of_limit (l : Limit) (s : Stream) : (s.limit l).items <+: s.items := by
  cases l with
  | upTo n =>
    rw [limit]
    split
    · exact List.prefix_refl _
    · exact prefix_of_endAfter _ _ s
  | missing => exact prefix_of_endAfter _ _ s

theorem values_endAfter (n : Nat) (reason : Option StreamFault) (s : Stream) :
    (s.endAfter n reason).values = s.values.take (n + 1) := by
  rcases Nat.lt_or_ge n s.values.length with hlen | hlen
  · obtain ⟨items, hsome⟩ := exists_firstValues hlen
    rw [endAfter, hsome, values_eq, values_eq]
    obtain ⟨before, v, rest, rfl, hs, rfl⟩ := firstValues_eq_some_iff.1 hsome
    dsimp only
    rw [hs, List.filterMap_append, List.filterMap_append, List.take_length_add_append]
    rfl
  · rw [endAfter_of_length_le hlen, List.take_of_length_le (Nat.le_succ_of_le hlen)]

theorem failure_endAfter (n : Nat) (reason : Option StreamFault) (s : Stream) :
    (s.endAfter n reason).failure = if n < s.values.length then reason else s.failure := by
  split
  · rename_i hlen
    obtain ⟨items, hsome⟩ := exists_firstValues hlen
    rw [endAfter, hsome]
  · rename_i hlen
    rw [endAfter_of_length_le (Nat.not_lt.1 hlen)]

/-- Behind the last value that is wanted nothing has a say. -/
theorem endAfter_of_begins {n : Nat} {s t : Stream} (hst : s.items <+: t.items)
    (h : n < s.values.length) (reason : Option StreamFault) :
    t.endAfter n reason = s.endAfter n reason := by
  obtain ⟨items, hitems⟩ := exists_firstValues h
  obtain ⟨rest, hrest⟩ := hst
  rw [endAfter, endAfter, hitems, ← hrest, firstValues_append rest hitems]

/-! ## Counting on from file to file -/

/-- What a reading passes on of one stream, where `count` values have been counted before. -/
def passed (l : Limit) (count : Nat) (s : Stream) : Stream :=
  match passOn l s.failure count s.items with
  | (items, .ended failure) => ⟨items, failure⟩
  | (items, .counted _) => ⟨items, none⟩

/-- Samples behind others are counted on from them, if the reading gets there. -/
theorem passOn_append (l : Limit) (failure : Option StreamFault) (count : Nat)
    (samples rest : List Sample) :
    passOn l failure count (samples ++ rest) =
      match passOn l none count samples with
      | (items, .ended failure) => (items, .ended failure)
      | (items, .counted count) =>
        (items ++ (passOn l failure count rest).1, (passOn l failure count rest).2) := by
  induction samples generalizing count with
  | nil => rfl
  | cons a samples ih =>
    rw [List.cons_append]
    cases a with
    | error f =>
      rw [passOn, passOn, ih]
      cases passOn l none count samples with
      | mk items p => cases p <;> rfl
    | ok v =>
      rw [passOn, passOn]
      cases l.after (count + 1) with
      | ended reason => rfl
      | counted count =>
        dsimp only
        rw [ih]
        cases passOn l none count samples with
        | mk items p => cases p <;> rfl

/-- A file that fails is the last one. -/
theorem exists_ended_of_failure (l : Limit) (f : StreamFault) (count : Nat) (samples : List Sample) :
    ∃ items reason, passOn l (some f) count samples = (items, .ended reason) := by
  induction samples generalizing count with
  | nil => exact ⟨[], some f, rfl⟩
  | cons a samples ih =>
    cases a with
    | error g =>
      obtain ⟨items, reason, h⟩ := ih count
      exact ⟨.error g :: items, reason, by rw [passOn, h]⟩
    | ok v =>
      rw [passOn]
      cases l.after (count + 1) with
      | ended reason => exact ⟨_, reason, rfl⟩
      | counted count =>
        obtain ⟨items, reason, h⟩ := ih count
        refine ⟨.ok v :: items, reason, ?_⟩
        dsimp only
        rw [h]

theorem readFrom_eq_passed (tree : Storage.Tree) (l : Limit) (count : Nat) (paths : List Text) :
    readFrom tree l count paths = passed l count (ofFiles tree paths) := by
  induction paths generalizing count with
  | nil => rfl
  | cons path paths ih =>
    rw [readFrom, ofFiles, append]
    dsimp only
    cases hfailure : (ofFile tree path).failure with
    | some f =>
      obtain ⟨items, reason, h⟩ := exists_ended_of_failure l f count (ofFile tree path).items
      rw [passed, h]
    | none =>
      rw [passed, passOn_append]
      cases passOn l none count (ofFile tree path).items with
      | mk items p =>
        cases p with
        | ended reason => rfl
        | counted count =>
          dsimp only
          rw [ih, passed]
          cases passOn l (ofFiles tree paths).failure count (ofFiles tree paths).items with
          | mk items p => cases p <;> rfl

theorem passed_cons_error (l : Limit) (count : Nat) (f : SampleFault) (s : Stream) :
    passed l count (cons (.error f) s) = cons (.error f) (passed l count s) := by
  rw [passed, cons, passOn, passed]
  cases passOn l s.failure count s.items with
  | mk items p => cases p <;> rfl

theorem passed_cons_ok (l : Limit) (count : Nat) (v : Json.Value) (s : Stream) :
    passed l count (cons (.ok v) s) =
      match l.after (count + 1) with
      | .ended reason => ⟨[.ok v], reason⟩
      | .counted count => cons (.ok v) (passed l count s) := by
  rw [passed, cons, passOn]
  cases l.after (count + 1) with
  | ended reason => rfl
  | counted count =>
    dsimp only
    rw [passed]
    cases passOn l s.failure count s.items with
    | mk items p => cases p <;> rfl

/-- The reading ends with the first count that the limit does not let pass. -/
theorem passed_of_ended {l : Limit} {count n : Nat} {reason : Option StreamFault}
    (hpass : ∀ k < n, l.after (count + k + 1) = .counted (count + k + 1))
    (hend : l.after (count + n + 1) = .ended reason) (s : Stream) :
    passed l count s = s.endAfter n reason := by
  obtain ⟨samples, failure⟩ := s
  induction samples generalizing count n with
  | nil => cases failure <;> rfl
  | cons a samples ih =>
    cases a with
    | error f =>
      have hrest := passed_cons_error l count f ⟨samples, failure⟩
      rw [ih hpass hend, endAfter] at hrest
      refine hrest.trans ?_
      rw [endAfter, firstValues]
      cases firstValues n samples <;> rfl
    | ok v =>
      have hrest := passed_cons_ok l count v ⟨samples, failure⟩
      cases n with
      | zero =>
        rw [hend] at hrest
        exact hrest
      | succ n =>
        have hpass' : ∀ k < n, l.after (count + 1 + k + 1) = .counted (count + 1 + k + 1) := by
          intro k hk
          have h := hpass (k + 1) (Nat.succ_lt_succ hk)
          rwa [← Nat.add_assoc, Nat.add_right_comm count] at h
        rw [← Nat.add_assoc, Nat.add_right_comm count] at hend
        rw [hpass 0 n.succ_pos] at hrest
        dsimp only [Nat.add_zero] at hrest
        rw [ih hpass' hend, endAfter] at hrest
        refine hrest.trans ?_
        rw [endAfter, firstValues]
        cases firstValues n samples <;> rfl

/-- A limit that lets every count pass is none. -/
theorem passed_of_counted {l : Limit} (hpass : ∀ k, l.after k = .counted k) (count : Nat) (s : Stream) :
    passed l count s = s := by
  obtain ⟨samples, failure⟩ := s
  induction samples generalizing count with
  | nil => cases failure <;> rfl
  | cons a samples ih =>
    cases a with
    | error f =>
      have hrest := passed_cons_error l count f ⟨samples, failure⟩
      rwa [ih] at hrest
    | ok v =>
      have hrest := passed_cons_ok l count v ⟨samples, failure⟩
      rw [hpass] at hrest
      dsimp only at hrest
      rwa [ih] at hrest

theorem read_eq_limit (tree : Storage.Tree) (paths : List Text) (l : Limit) :
    read tree paths l = (ofFiles tree paths).limit l := by
  rw [read, readFrom_eq_passed]
  cases l with
  | upTo n =>
    rw [limit]
    split
    · rename_i hn
      refine passed_of_counted (fun k => ?_) 0 _
      rw [Limit.after, if_neg (by omega)]
    · rename_i hn
      refine passed_of_ended (fun k hk => ?_) ?_ _
      · rw [Limit.after, if_neg (by omega)]
      · rw [Limit.after, if_pos (by omega)]
  | missing => exact passed_of_ended (by simp) rfl _

/-! ## What is cut off -/

/-- The shortest beginning of `whole` with `n` values, which ends well. -/
structure CutAt (n : Nat) (whole s : Stream) : Prop where
  begins : s.items <+: whole.items
  count : s.values.length = n
  shortest : ∀ t : Stream, t.items <+: whole.items → n ≤ t.values.length → s.items <+: t.items
  last : ∃ before v, s.items = before ++ [.ok v]
  succeeds : s.failure = none

theorem cutAt_endAfter {n : Nat} {whole : Stream} (h : n < whole.values.length) :
    CutAt (n + 1) whole (whole.endAfter n none) := by
  obtain ⟨items, hitems⟩ := exists_firstValues h
  have hcut : whole.endAfter n none = ⟨items, none⟩ := by rw [endAfter, hitems]
  refine ⟨prefix_of_endAfter n none whole, ?_, fun t hprefix hlen => ?_, ?_, by rw [hcut]⟩
  · rw [values_endAfter, List.length_take, Nat.min_eq_left h]
  · rw [endAfter_of_begins hprefix hlen]
    exact prefix_of_endAfter n none t
  · obtain ⟨before, v, rest, hlast, -⟩ := firstValues_eq_some_iff.1 hitems
    exact ⟨before, v, by rw [hcut, hlast]⟩

theorem ofFiles_eq_foldr (tree : Storage.Tree) (paths : List Text) :
    ofFiles tree paths = (paths.map (ofFile tree)).foldr append empty := by
  induction paths with
  | nil => rfl
  | cons path paths ih => rw [ofFiles, ih, List.map_cons, List.foldr_cons]

theorem prefix_ofFiles_append (tree : Storage.Tree) (paths others : List Text) :
    (ofFiles tree paths).items <+: (ofFiles tree (paths ++ others)).items := by
  induction paths with
  | nil => exact List.nil_prefix
  | cons path paths ih =>
    rw [List.cons_append, ofFiles, ofFiles, append, append]
    cases (ofFile tree path).failure with
    | some f => exact List.prefix_refl _
    | none => exact (List.prefix_append_right_inj _).2 ih

theorem ofFiles_congr {tree tree' : Storage.Tree} {paths : List Text}
    (h : ∀ path ∈ paths, tree'.read path = tree.read path) : ofFiles tree' paths = ofFiles tree paths := by
  rw [ofFiles_eq_foldr, ofFiles_eq_foldr]
  refine congrArg (·.foldr append empty) (List.map_congr_left fun path hpath => ?_)
  rw [ofFile, ofFile, h path hpath]

theorem read_of_reads {tree tree' : Storage.Tree} {paths : List Text}
    (h : ∀ path ∈ paths, tree'.read path = tree.read path) (l : Limit) :
    read tree' paths l = read tree paths l := by
  rw [read_eq_limit, read_eq_limit, ofFiles_congr h]

theorem read_all (tree : Storage.Tree) (paths : List Text) {n : Int} (hn : n ≤ 0) :
    read tree paths (.upTo n) = ofFiles tree paths := by
  rw [read_eq_limit, limit, if_pos hn]

theorem read_upTo (tree : Storage.Tree) (paths : List Text) (n : Nat) :
    read tree paths (.upTo (n + 1 : Nat)) = (ofFiles tree paths).endAfter n none := by
  rw [read_eq_limit, limit, if_neg (by omega)]
  rfl

/-- A limit that is not positive is none: the files are read one after the other, up to the first that
fails. A positive one cuts the shortest beginning with so many values off what is read without it, or
leaves that as it is if there are fewer, and its failure with it. So a reading fails just if the values
before the failure are too few. The files behind the last value have no say, nor is there a need for
them. -/
theorem read_cuts_beginning (tree : Storage.Tree) (paths : List Text) {n : Nat} (hn : 0 < n) :
    let whole := read tree paths (.upTo 0)
    let s := read tree paths (.upTo n)
    (∀ m : Int, m ≤ 0 → read tree paths (.upTo m) = (paths.map (ofFile tree)).foldr append empty) ∧
    (n ≤ whole.values.length → CutAt n whole s) ∧
    (whole.values.length < n → s = whole) ∧
    (∀ f, s.failure = some f ↔ whole.failure = some f ∧ whole.values.length < n) ∧
    ∀ before after, paths = before ++ after → n ≤ (read tree before (.upTo 0)).values.length →
      ∀ (tree' : Storage.Tree) (others : List Text),
        (∀ path ∈ before, tree'.read path = tree.read path) →
        read tree' (before ++ others) (.upTo n) = s := by
  intro whole s
  obtain ⟨k, rfl⟩ := Nat.exists_eq_add_one.2 hn
  have hwhole : whole = ofFiles tree paths := read_all tree paths Int.le_rfl
  have hs : s = whole.endAfter k none := by rw [hwhole, ← read_upTo]
  refine ⟨fun m hm => ?_, fun hlen => ?_, fun hlen => ?_, fun f => ?_, ?_⟩
  · rw [read_all tree paths hm, ofFiles_eq_foldr]
  · rw [hs]
    exact cutAt_endAfter hlen
  · rw [hs, endAfter_of_length_le (Nat.le_of_lt_succ hlen)]
  · rw [hs, failure_endAfter]
    split
    · rename_i hlen
      have hmany : ¬whole.values.length < k + 1 := by omega
      simp only [hmany, and_false, reduceCtorEq]
    · rename_i hlen
      have hfew : whole.values.length < k + 1 := by omega
      simp only [hfew, and_true]
  · rintro before after rfl hlen tree' others hkept
    rw [read_all tree before Int.le_rfl] at hlen
    have hcut : ∀ (t : Storage.Tree) (more : List Text), ofFiles t before = ofFiles tree before →
        read t (before ++ more) (.upTo (k + 1 : Nat)) = (ofFiles tree before).endAfter k none := by
      intro t more ht
      rw [read_upTo]
      rw [← ht] at hlen ⊢
      exact endAfter_of_begins (prefix_ofFiles_append t before more) hlen none
    exact (hcut tree' others (ofFiles_congr hkept)).trans (hcut tree after rfl).symm

/-- A file with a line that is no sample, and another one. There is no third. -/
def twoFiles : Storage.Tree :=
  (Storage.Tree.empty.put (Storage.Place.named "a") (.file (Utf8.encode "1\noops\n2\n"))).put
    (Storage.Place.named "b") (.file (Utf8.encode "3"))

theorem read_cuts_beginning_two_files :
    let paths : List Text := ["a", "b", "c"]
    let whole := read twoFiles paths (.upTo 0)
    let s := read twoFiles paths (.upTo 2)
    (0 < 2 ∧ whole.values.length = 3 ∧ whole.failure ≠ none) ∧
      CutAt 2 whole s ∧ s.items.length = 3 ∧
      (∀ others, read twoFiles ("a" :: others) (.upTo 2) = s) ∧
      read twoFiles paths (.upTo 4) = whole := by
  intro paths whole s
  have hcount : whole.values.length = 3 ∧ whole.failure ≠ none ∧ s.items.length = 3 ∧
      (read twoFiles ["a"] (.upTo 0)).values.length = 2 := by decide +kernel
  obtain ⟨hwhole, hfailure, hs, hfirst⟩ := hcount
  obtain ⟨-, hcut, -, -, hbefore⟩ := read_cuts_beginning twoFiles paths Nat.two_pos
  obtain ⟨-, -, hfewer, -⟩ := read_cuts_beginning twoFiles paths (Nat.succ_pos 3)
  have htwo : 2 ≤ whole.values.length := by omega
  have hfour : whole.values.length < 4 := by omega
  exact ⟨⟨Nat.two_pos, hwhole, hfailure⟩, hcut htwo, hs, fun others =>
    hbefore ["a"] ["b", "c"] rfl (Nat.le_of_eq hfirst.symm) twoFiles others fun _ _ => rfl, hfewer hfour⟩

end JsonShape.Samples.Stream
