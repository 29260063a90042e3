import NexusGateway.Lib.CString
import Mathlib.Algebra.Order.BigOperators.Group.List
import Mathlib.Algebra.Order.Ring.Int

/- The upstream nodes and the choice among them (`upstream.c`).

   `nexus_upstream_pick` adds to the counter of each healthy node its weight, takes
   the first healthy node of the largest counter, and subtracts from that node what
   was added in all. What is proved of every choice:

   1. what it does to the nodes, and when it returns `NULL` (`pickIndex_cases`);
   2. only a healthy node is returned (`upstreamPick_healthy`).

   The counters are `int`s in the source; here they do not overflow. -/
namespace NexusGateway
open CString

/-- `NEXUS_UPSTREAM_MAX_NODES`. -/
def upstreamMaxNodes : Nat := 16

/-- `nexus_upstream_node_t`. No node is added with a weight below 1. -/
structure UpstreamNode where
  host : CharArray 64
  port : Int32
  weight : Int
  healthy : Bool
  activeConns : Int
  weight_pos : 0 < weight
  deriving DecidableEq, Repr

/-- `nexus_upstream_t`: the first `node_count` nodes. -/
structure Upstream where
  nodes : List UpstreamNode
  maxWeight : Int
  gcdWeight : Int
  nodes_le : nodes.length ≤ upstreamMaxNodes
  deriving DecidableEq, Repr

/-- `nexus_upstream_init`. -/
def upstreamInit : Upstream := ⟨[], 0, 0, Nat.zero_le _⟩

/-- `nexus_upstream_add_node`, and what it returns. -/
def upstreamAddNode (u : Upstream) (host : Bytes) (port : Int32) (weight : Int) : Upstream × Int :=
  if hc : u.nodes.length ≥ upstreamMaxNodes then (u, -1)
  else
    let n : UpstreamNode := {
      host := .snprintf size64_pos host
      port := port
      weight := if weight > 0 then weight else 1
      healthy := true
      activeConns := 0
      weight_pos := by split <;> omega }
    ({ u with
        nodes := u.nodes ++ [n]
        nodes_le := push_length_le hc n }, 0)

/-- `recompute`. -/
def recompute (u : Upstream) : Upstream :=
  let mw := u.nodes.foldl (fun mw n => if n.weight > mw then n.weight else mw) 0
  let g := match u.nodes with
    | [] => 0
    | n :: ns => ns.foldl (fun g n => (Int.gcd g n.weight : Int)) n.weight
  { u with maxWeight := mw, gcdWeight := if g > 0 then g else 1 }

/-- The first loop of `nexus_upstream_pick` on one node. -/
def UpstreamNode.raise (n : UpstreamNode) : UpstreamNode :=
  if n.healthy then { n with activeConns := n.activeConns + n.weight } else n

/-- The total of the first loop. -/
def healthyWeight (nodes : List UpstreamNode) : Int :=
  nodes.foldl (fun total n => if n.healthy then total + n.weight else total) 0

/-- The second loop, from index `i`: the best index so far, and its counter. -/
def pickBest : Nat → Option (Nat × Int) → List UpstreamNode → Option (Nat × Int)
  | _, best, [] => best
  | i, best, n :: ns =>
    -- strictly larger: of equal counters the first node's is kept
    let better := n.healthy && best.all (fun b => n.activeConns > b.2)
    pickBest (i + 1) (if better then some (i, n.activeConns) else best) ns

/-- The end of the choice: the node at `i` pays `total`. -/
def UpstreamNode.pay (total : Int) (n : UpstreamNode) : UpstreamNode :=
  { n with activeConns := n.activeConns - total }

/-- `nexus_upstream_pick`: the upstream after it, and the node at the pointer it
    returns, `none` for `NULL`. -/
def upstreamPick (u : Upstream) : Upstream × Option UpstreamNode :=
  if u.nodes.isEmpty then (u, none)
  else
    let u := if u.maxWeight = 0 then recompute u else u
    let total := healthyWeight u.nodes
    let raised := u.nodes.map UpstreamNode.raise
    let u : Upstream := { u with
      nodes := raised, nodes_le := by rw [List.length_map]; exact u.nodes_le }
    if total = 0 then (u, none)
    else
      match pickBest 0 none raised with
      | none => (u, none)
      | some (best, _) =>
        let nodes := raised.modify best (UpstreamNode.pay total)
        ({ u with
            nodes := nodes
            nodes_le := by rw [List.length_modify]; exact u.nodes_le }, nodes[best]?)

/-- The index of the node that `nexus_upstream_pick` returns a pointer to. -/
def pickIndex (u : Upstream) : Option Nat :=
  if healthyWeight u.nodes = 0 then none
  else (pickBest 0 none (u.nodes.map UpstreamNode.raise)).map Prod.fst

/-! ## What a choice does -/

@[simp] theorem UpstreamNode.raise_healthy (n : UpstreamNode) : n.raise.healthy = n.healthy := by
  unfold UpstreamNode.raise
  split <;> rfl

/-- The index found is the one held before, or that of a healthy node with the
    counter found. -/
theorem pickBest_some {i : Nat} {best : Option (Nat × Int)} {nodes : List UpstreamNode} {j : Nat}
    {val : Int} (h : pickBest i best nodes = some (j, val)) :
    best = some (j, val) ∨
    ∃ k n, j = i + k ∧ nodes[k]? = some n ∧ n.healthy = true ∧ n.activeConns = val := by
  induction nodes generalizing i best with
  | nil => exact Or.inl h
  | cons n ns ih =>
    rw [pickBest] at h
    rcases ih h with hb | ⟨k, m, rfl, hm⟩
    · split at hb
      · rename_i hbetter
        cases hb
        exact Or.inr ⟨0, n, rfl, rfl, (Bool.and_eq_true _ _ ▸ hbetter).1, rfl⟩
      · exact Or.inl hb
    · exact Or.inr ⟨k + 1, m, by omega, hm⟩

/-- What is found has at least the counter held before, and that of every healthy
    node. In particular something is found where there is one. -/
theorem pickBest_max {i : Nat} {best : Option (Nat × Int)} {nodes : List UpstreamNode} {val : Int}
    (h : (∃ b, best = some b ∧ val ≤ b.2) ∨
      ∃ n ∈ nodes, n.healthy = true ∧ val ≤ n.activeConns) :
    ∃ b, pickBest i best nodes = some b ∧ val ≤ b.2 := by
  induction nodes generalizing i best with
  | nil =>
    rcases h with h | ⟨n, hn, _⟩
    · exact h
    · cases hn
  | cons n ns ih =>
    rw [pickBest]
    apply ih
    rcases h with ⟨b, rfl, hb⟩ | ⟨m, hm, hh, hval⟩
    · left
      split
      · rename_i hbetter
        simp only [Option.all_some, Bool.and_eq_true, gt_iff_lt, decide_eq_true_eq] at hbetter
        have hlt := hbetter.2
        exact ⟨_, rfl, by show val ≤ n.activeConns; omega⟩
      · exact ⟨b, rfl, hb⟩
    · rcases List.mem_cons.mp hm with rfl | hm
      · left
        cases best with
        | none => exact ⟨(i, m.activeConns), by simp [hh], hval⟩
        | some b =>
          by_cases hlt : b.2 < m.activeConns
          · exact ⟨(i, m.activeConns), by simp [hh, hlt], hval⟩
          · exact ⟨b, by simp [hlt], by omega⟩
      · exact Or.inr ⟨m, hm, hh, hval⟩

theorem healthyWeight_eq (nodes : List UpstreamNode) :
    healthyWeight nodes = (nodes.map (fun n => if n.healthy then n.weight else 0)).sum := by
  have h : ∀ (ns : List UpstreamNode) (t : Int),
      ns.foldl (fun total n => if n.healthy then total + n.weight else total) t =
        t + (ns.map (fun n => if n.healthy then n.weight else 0)).sum := by
    intro ns
    induction ns with
    | nil => intro t; simp
    | cons n ns ih =>
      intro t
      rw [List.foldl_cons, ih, List.map_cons, List.sum_cons]
      cases n.healthy
      · simp
      · simp [Int.add_assoc]
  rw [healthyWeight, h, Int.zero_add]

theorem healthyWeight_eq_zero {nodes : List UpstreamNode} :
    healthyWeight nodes = 0 ↔ ∀ n ∈ nodes, n.healthy = false := by
  rw [healthyWeight_eq]
  induction nodes with
  | nil => simp
  | cons n ns ih =>
    have hnonneg : 0 ≤ (ns.map (fun n => if n.healthy then n.weight else 0)).sum := by
      apply List.sum_nonneg
      intro x hx
      obtain ⟨m, _, rfl⟩ := List.mem_map.mp hx
      have := m.weight_pos
      split <;> omega
    have hpos := n.weight_pos
    rw [List.map_cons, List.sum_cons, List.forall_mem_cons, ← ih]
    cases n.healthy with
    | false => simp
    | true =>
      simp only [if_true, Bool.true_eq_false, false_and, iff_false]
      omega

/-- The best of the nodes raised, where there is a healthy one: a healthy node of the
    largest counter. -/
theorem pickBest_raised {nodes : List UpstreamNode} (h : ∃ n ∈ nodes, n.healthy = true) :
    ∃ best n, pickBest 0 none (nodes.map UpstreamNode.raise) = some (best, n.raise.activeConns) ∧
      nodes[best]? = some n ∧ n.healthy = true ∧
      ∀ m ∈ nodes, m.healthy = true → m.raise.activeConns ≤ n.raise.activeConns := by
  have hmax : ∀ m ∈ nodes, m.healthy = true →
      ∃ b, pickBest 0 none (nodes.map UpstreamNode.raise) = some b ∧ m.raise.activeConns ≤ b.2 := by
    intro m hm hh
    apply pickBest_max
    exact Or.inr ⟨m.raise, List.mem_map_of_mem hm, by rw [m.raise_healthy, hh], le_refl _⟩
  obtain ⟨m, hm, hh⟩ := h
  obtain ⟨⟨best, val⟩, hbest, _⟩ := hmax m hm hh
  rcases pickBest_some hbest with h0 | ⟨k, r, hk, hr, hrh, hval⟩
  · cases h0
  -- the index is one of the nodes', and the counter its node's
  rw [List.getElem?_map] at hr
  obtain ⟨n, hn, rfl⟩ := Option.map_eq_some_iff.mp hr
  rw [n.raise_healthy] at hrh
  have hbk : best = k := by omega
  subst hbk hval
  refine ⟨best, n, hbest, hn, hrh, ?_⟩
  intro m' hm' hh'
  obtain ⟨b, hb, hle⟩ := hmax m' hm' hh'
  rw [hbest] at hb
  cases hb
  exact hle

theorem map_raise_unhealthy {nodes : List UpstreamNode} (h : ∀ n ∈ nodes, n.healthy = false) :
    nodes.map UpstreamNode.raise = nodes := by
  calc nodes.map UpstreamNode.raise
      = nodes.map id := by
        apply List.map_congr_left
        intro n hn
        simp [UpstreamNode.raise, h n hn]
    _ = nodes := List.map_id nodes

/-- **What a choice does**: without a healthy node it returns `NULL` and changes no
    node; else every healthy node is raised, and one of the largest counter pays the
    total and is returned. -/
theorem pickIndex_cases (u : Upstream) :
    ((∀ n ∈ u.nodes, n.healthy = false) ∧ pickIndex u = none ∧
      (upstreamPick u).1.nodes = u.nodes ∧ (upstreamPick u).2 = none) ∨
    ∃ best n, pickIndex u = some best ∧ u.nodes[best]? = some n ∧ n.healthy = true ∧
      (∀ m ∈ u.nodes, m.healthy = true → m.raise.activeConns ≤ n.raise.activeConns) ∧
      (upstreamPick u).1.nodes =
        (u.nodes.map UpstreamNode.raise).modify best (UpstreamNode.pay (healthyWeight u.nodes)) ∧
      (upstreamPick u).2 = some (n.raise.pay (healthyWeight u.nodes)) := by
  -- the nodes are the same whether the weights are recomputed or not
  have hnodes : (if u.maxWeight = 0 then recompute u else u).nodes = u.nodes := by
    split <;> rfl
  by_cases hall : ∀ n ∈ u.nodes, n.healthy = false
  · left
    have htotal := healthyWeight_eq_zero.mpr hall
    refine ⟨hall, if_pos htotal, ?_⟩
    unfold upstreamPick
    split
    · exact ⟨rfl, rfl⟩
    · simp only [hnodes, htotal, if_true, map_raise_unhealthy hall, and_self]
  · right
    have htotal : healthyWeight u.nodes ≠ 0 := fun h0 => hall (healthyWeight_eq_zero.mp h0)
    have hne : u.nodes.isEmpty = false := by
      cases hu : u.nodes with
      | nil => exact absurd (by rw [hu]; simp) hall
      | cons => rfl
    simp only [not_forall, Bool.not_eq_false, exists_prop] at hall
    obtain ⟨best, n, hbest, hn, hh, hmax⟩ := pickBest_raised hall
    refine ⟨best, n, ?_, hn, hh, hmax, ?_⟩
    · rw [pickIndex, if_neg htotal, hbest]
      rfl
    · unfold upstreamPick
      rw [hne, if_neg Bool.false_ne_true]
      simp only [hnodes, if_neg htotal, hbest, true_and]
      simp [hn]

theorem upstreamPick_cases (u : Upstream) :
    ((∀ n ∈ u.nodes, n.healthy = false) ∧ (upstreamPick u).1.nodes = u.nodes ∧
      (upstreamPick u).2 = none) ∨
    ∃ best n, u.nodes[best]? = some n ∧ n.healthy = true ∧
      (∀ m ∈ u.nodes, m.healthy = true → m.raise.activeConns ≤ n.raise.activeConns) ∧
      (upstreamPick u).1.nodes =
        (u.nodes.map UpstreamNode.raise).modify best (UpstreamNode.pay (healthyWeight u.nodes)) ∧
      (upstreamPick u).2 = some (n.raise.pay (healthyWeight u.nodes)) := by
  rcases pickIndex_cases u with ⟨hall, _, hrest⟩ | ⟨best, n, _, hrest⟩
  · exact Or.inl ⟨hall, hrest⟩
  · exact Or.inr ⟨best, n, hrest⟩

theorem pickIndex_spec (u : Upstream) :
    (upstreamPick u).2 = (pickIndex u).bind (fun i => (upstreamPick u).1.nodes[i]?) := by
  rcases pickIndex_cases u with ⟨_, hi, _, hnone⟩ | ⟨best, n, hi, hn, _, _, hnodes, hsome⟩
  · rw [hi, hnone]
    rfl
  · rw [hi, hsome, Option.bind_some, hnodes, List.getElem?_modify_eq, List.getElem?_map, hn]
    rfl

/-- **Only a healthy node is returned.** -/
theorem upstreamPick_healthy {u : Upstream} {n : UpstreamNode} (h : (upstreamPick u).2 = some n) :
    n.healthy = true := by
  rcases upstreamPick_cases u with ⟨_, _, hnone⟩ | ⟨best, m, _, hh, _, _, hsome⟩
  · rw [hnone] at h
    cases h
  · rw [hsome] at h
    cases h
    exact (m.raise_healthy).trans hh

end NexusGateway
