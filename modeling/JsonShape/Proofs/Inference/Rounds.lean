import JsonShape.Proofs.Inference.Bracketing
import Mathlib.Data.Nat.Log
/-!
# JsonShape.Proofs.Inference.Rounds

Joining in pairs, round after round, and the shards that are joined this way.

* `Bracketing.Full`, `Bracketing.depth`: a bracketing without empty ends, and its height.
* `Bracketing.full_pairs`: the bracketing that rounds of pairs make.
* `Shape.iterate_joinRound`: how many rounds there are.
* `getElem?_shards`: which part of a list each shard is.
* `Shape.joins_in_order`: every shape, and every value of a sharded list, is joined once and in order.
-/

namespace JsonShape

/-- One round halves the number of shapes, so a power of two fewer is left to reach. -/
theorem clog_two_eq {n : Nat} (h : 2 ≤ n) : Nat.clog 2 n = Nat.clog 2 ((n + 1) / 2) + 1 := by
  simpa using Nat.clog_of_two_le Nat.one_lt_two h

namespace Bracketing

variable {α : Type}

/-- Something stands at each end. -/
inductive Full : Bracketing α → Prop where
  | leaf (a : α) : Full (leaf a)
  | node {l r : Bracketing α} : Full l → Full r → Full (node l r)

def depth : Bracketing α → Nat
  | none => 0
  | leaf _ => 0
  | node l r => max l.depth r.depth + 1

/-- What a node has if both its sides have something weaker. -/
theorem forall_mem_round {P Q : Bracketing α → Prop} (hnode : ∀ {b c}, P b → P c → Q (node b c))
    (hweaker : ∀ {b}, P b → Q b) {bs : List (Bracketing α)} (h : ∀ b ∈ bs, P b) :
    ∀ b ∈ round bs, Q b := by
  fun_induction round bs with
  | case1 b c rest ih =>
    obtain ⟨hb, h⟩ := List.forall_mem_cons.1 h
    obtain ⟨hc, hrest⟩ := List.forall_mem_cons.1 h
    exact List.forall_mem_cons.2 ⟨hnode hb hc, ih hrest⟩
  | case2 bs => exact fun b hb => hweaker (h b hb)

/-- Rounds of pairs leave no empty end, and each adds at most one level. -/
theorem full_pairs {bs : List (Bracketing α)} (hne : bs ≠ []) {d : Nat}
    (h : ∀ b ∈ bs, b.Full ∧ b.depth ≤ d) :
    (pairs bs).Full ∧ (pairs bs).depth ≤ d + Nat.clog 2 bs.length := by
  -- For all `d` at once: a round adds a level and takes one off the logarithm.
  fun_induction pairs bs generalizing d with
  | case1 => exact absurd rfl hne
  | case2 b => simpa using h
  | case3 b c rest ih =>
    have hround : ∀ e ∈ round (b :: c :: rest), e.Full ∧ e.depth ≤ d + 1 := by
      refine forall_mem_round ?_ ?_ h
      · rintro l r ⟨hl, hld⟩ ⟨hr, hrd⟩
        exact ⟨.node hl hr, Nat.succ_le_succ (max_le hld hrd)⟩
      · rintro e ⟨he, hed⟩
        exact ⟨he, Nat.le_succ_of_le hed⟩
    obtain ⟨hfull, hdepth⟩ := ih (List.cons_ne_nil _ _) hround
    refine ⟨hfull, ?_⟩
    rw [length_round] at hdepth
    rw [clog_two_eq (by simp)]
    omega

/-- `s` is what joining gives that takes each element once, in order, and nests no deeper than it has
to. -/
def Joins (f : α → Shape) (as : List α) (s : Shape) : Prop :=
  ∃ b : Bracketing α, b.Full ∧ b.depth ≤ Nat.clog 2 as.length ∧ b.leaves = as ∧ b.shape f = s

theorem joins_joinPairs (f : α → Shape) {as : List α} (hne : as ≠ []) :
    Joins f as (Shape.joinPairs (as.map f)) := by
  have hleaf : ∀ b ∈ as.map leaf, b.Full ∧ b.depth ≤ 0 := by
    intro b hb
    obtain ⟨a, -, rfl⟩ := List.mem_map.1 hb
    exact ⟨.leaf a, Nat.le_refl 0⟩
  obtain ⟨hfull, hdepth⟩ := full_pairs (mt List.map_eq_nil_iff.1 hne) hleaf
  rw [List.length_map, Nat.zero_add] at hdepth
  exact ⟨_, hfull, hdepth, leaves_pairs_leaf as, shape_pairs_leaf f as⟩

end Bracketing

/-! ## Rounds -/

namespace Shape

/-- Rounds go on as long as there are several shapes and end with a single one. -/
theorem iterate_joinRound {ss : List Shape} (hne : ss ≠ []) :
    (∀ k < Nat.clog 2 ss.length, 1 < (joinRound^[k] ss).length) ∧
      joinRound^[Nat.clog 2 ss.length] ss = [joinPairs ss] := by
  fun_induction joinPairs ss with
  | case1 => exact absurd rfl hne
  | case2 s => simp
  | case3 s t rest ih =>
    obtain ⟨hlong, hlast⟩ := ih (List.cons_ne_nil _ _)
    rw [length_joinRound] at hlong hlast
    rw [clog_two_eq (by simp)]
    refine ⟨fun k hk => ?_, hlast⟩
    cases k with
    | zero => simp
    | succ k => exact hlong k (Nat.lt_of_succ_lt_succ hk)

end Shape

/-! ## Shards -/

theorem getElem?_shardsOfSucc {α : Type} (n : Nat) (as : List α) (i : Nat) :
    (shardsOfSucc n as)[i]? =
      if i * (n + 1) < as.length then some ((as.drop (i * (n + 1))).take (n + 1)) else none := by
  fun_induction shardsOfSucc n as generalizing i with
  | case1 => simp
  | case2 a rest ih =>
    cases i with
    | zero => simp
    | succ i =>
      have hplace : (i + 1) * (n + 1) = n + i * (n + 1) + 1 := by
        rw [Nat.succ_mul]
        omega
      rw [List.getElem?_cons_succ, ih, List.length_drop, List.drop_drop, hplace, List.length_cons,
        List.drop_succ_cons]
      exact if_congr (by omega) rfl rfl

/-- Each shard is the part of the list that begins where those before it end. -/
theorem getElem?_shards {α : Type} {size : Nat} (hsize : 1 ≤ size) (as : List α) (i : Nat) :
    (shards size as)[i]? =
      if i * size < as.length then some ((as.drop (i * size)).take size) else none := by
  have h := getElem?_shardsOfSucc (size - 1) as i
  rwa [Nat.sub_add_cancel hsize] at h

theorem of_mem_shards {α : Type} {size : Nat} (hsize : 1 ≤ size) {as part : List α}
    (h : part ∈ shards size as) : part ≠ [] ∧ part.length ≤ size := by
  obtain ⟨i, hi⟩ := List.mem_iff_getElem?.1 h
  rw [getElem?_shards hsize] at hi
  split at hi
  · rename_i hlt
    cases hi
    refine ⟨List.ne_nil_of_length_pos ?_, List.length_take_le _ _⟩
    rw [List.length_take, List.length_drop]
    omega
  · cases hi

theorem shards_eq_nil_iff {α : Type} {size : Nat} {as : List α} : shards size as = [] ↔ as = [] := by
  rw [shards]
  cases as <;> simp [shardsOfSucc]

namespace Shape

/-- What sharding gives is the parts, each folded from the left, joined once and in order. -/
theorem joins_of_inferSharded {vs : List Json.Value} {workers : Option Int} {size : Int} {s : Shape}
    (h : (inferSharded vs workers size).result = .ok s) :
    if vs = [] then s = .unknown else Bracketing.Joins infer (shards size.toNat vs) s := by
  rw [eq_inferShards_of_result h, inferShards]
  split
  · rename_i hvs
    rw [shards_eq_nil_iff.2 hvs, List.map_nil, joinPairs]
  · rename_i hvs
    exact Bracketing.joins_joinPairs infer (mt shards_eq_nil_iff.1 hvs)

theorem infer_eq_foldl (vs : List Json.Value) :
    infer vs = vs.foldl (fun s v => s.join (ofValue v)) .unknown := by
  rw [infer, joinAll, List.foldl_map]

/-- Joining in pairs ends, and takes each shape once and in order. The shards of a list are parts of it
that follow each other, none of them empty or too long, and whatever comes of them is their shapes,
each folded from the left, joined in this way. -/
theorem joins_in_order (ss : List Shape) (vs : List Json.Value) (size : Int) (hsize : 1 ≤ size) :
    (ss ≠ [] →
      (∀ k < Nat.clog 2 ss.length, 1 < (joinRound^[k] ss).length) ∧
        joinRound^[Nat.clog 2 ss.length] ss = [joinPairs ss] ∧
        Bracketing.Joins id ss (joinPairs ss)) ∧
    (∀ i, (shards size.toNat vs)[i]? =
      if i * size.toNat < vs.length then some ((vs.drop (i * size.toNat)).take size.toNat)
      else none) ∧
    (∀ part ∈ shards size.toNat vs, part ≠ [] ∧ (part.length : Int) ≤ size) ∧
    (shards size.toNat vs).flatten = vs ∧
    ∀ workers : Option Int,
      ((∀ n ∈ workers, 0 < n) → ∃ s, (inferSharded vs workers size).result = .ok s) ∧
      ∀ s, (inferSharded vs workers size).result = .ok s →
        if vs = [] then s = .unknown
        else
          Bracketing.Joins (fun part => part.foldl (fun s v => s.join (ofValue v)) .unknown)
            (shards size.toNat vs) s := by
  have hsize' : 1 ≤ size.toNat := by omega
  have hfold : infer = fun part => part.foldl (fun s v => s.join (ofValue v)) .unknown :=
    funext infer_eq_foldl
  refine ⟨fun hss => ?_, getElem?_shards hsize' vs, fun part hpart => ?_, flatten_shards _ _,
    fun workers => ⟨?_, ?_⟩⟩
  · obtain ⟨hlong, hlast⟩ := iterate_joinRound hss
    have hjoins := Bracketing.joins_joinPairs id hss
    rw [List.map_id] at hjoins
    exact ⟨hlong, hlast, hjoins⟩
  · obtain ⟨hne, hlen⟩ := of_mem_shards hsize' hpart
    exact ⟨hne, by omega⟩
  · exact fun hworkers => ⟨_, inferSharded_result_eq_ok vs hsize hworkers⟩
  · intro s hs
    rw [← hfold]
    exact joins_of_inferSharded hs

/-- Three shapes take two rounds, and three values two shards. -/
theorem joins_in_order_odd_lists :
    let ss : List Shape := [.scalar .null, .object [], .array .unknown]
    let vs : List Json.Value := [.int 1, .null, .string "x"]
    (1 : Int) ≤ 2 ∧ ss ≠ [] ∧ joinRound (joinRound ss) = [joinPairs ss] ∧
      Bracketing.Joins id ss (joinPairs ss) ∧
      ∃ s, (inferSharded vs none 2).result = .ok s ∧
        Bracketing.Joins (fun part => part.foldl (fun s v => s.join (ofValue v)) .unknown)
          [[.int 1, .null], [.string "x"]] s := by
  intro ss vs
  have hsize : (1 : Int) ≤ 2 := by decide
  have hss : ss ≠ [] := List.cons_ne_nil _ _
  have hrounds : Nat.clog 2 ss.length = 2 := by simp [ss, clog_two_eq]
  have hparts : shards 2 vs = [[.int 1, .null], [.string "x"]] := by simp [vs, shards, shardsOfSucc]
  obtain ⟨hpairs, -, -, -, hsharded⟩ := joins_in_order ss vs 2 hsize
  obtain ⟨-, hlast, hjoins⟩ := hpairs hss
  rw [hrounds] at hlast
  obtain ⟨hok, hof⟩ := hsharded none
  obtain ⟨s, hs⟩ := hok (by simp)
  exact ⟨hsize, hss, hlast, hjoins, s, hs, hparts ▸ hof s hs⟩

end Shape

end JsonShape
