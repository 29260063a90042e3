import NexusGateway.Upstream
import NexusGateway.Lib.SmoothRoundRobin
import Mathlib.Algebra.BigOperators.Fin

/- The choice of a node is smooth weighted round-robin.

   `picks_run`: the picks of an upstream with a healthy node are a run over the
   indices of its healthy nodes. `weighted_round_robin`: so after any number of picks
   from zero counters every healthy node has had its share to within a bounded
   number, its counter is bounded on both sides, and after whole rounds all counters
   are zero again; no `int` overflows on the way. -/
namespace NexusGateway
open CString SmoothRoundRobin

/-- The upstream after `k` picks. -/
def afterPicks (u : Upstream) (k : Nat) : Upstream := (fun u => (upstreamPick u).1)^[k] u

/-- How often `k` picks return the node at index `i`. -/
def timesPicked (u : Upstream) (i k : Nat) : Nat :=
  Nat.count (fun t => pickIndex (afterPicks u t) = some i) k

/-- The number of healthy nodes. -/
def healthyCount (nodes : List UpstreamNode) : Nat := nodes.countP UpstreamNode.healthy

theorem afterPicks_succ (u : Upstream) (k : Nat) :
    afterPicks u (k + 1) = (upstreamPick (afterPicks u k)).1 :=
  Function.iterate_succ_apply' _ _ _

/-! ## What a choice leaves -/

/-- A node without its counter. -/
def UpstreamNode.idle (n : UpstreamNode) : UpstreamNode := { n with activeConns := 0 }

@[simp] theorem UpstreamNode.idle_raise (n : UpstreamNode) : n.raise.idle = n.idle := by
  unfold UpstreamNode.raise
  split <;> rfl

@[simp] theorem UpstreamNode.idle_pay (total : Int) (n : UpstreamNode) :
    (n.pay total).idle = n.idle := rfl

theorem UpstreamNode.idle_eq {m n : UpstreamNode} (h : m.idle = n.idle) :
    m.weight = n.weight ∧ m.healthy = n.healthy := by
  have hw := congrArg UpstreamNode.weight h
  have hh := congrArg UpstreamNode.healthy h
  exact ⟨hw, hh⟩

theorem UpstreamNode.raise_activeConns {n : UpstreamNode} (h : n.healthy = true) :
    n.raise.activeConns = n.activeConns + n.weight := by
  rw [UpstreamNode.raise, if_pos h]

theorem upstreamPick_nodes (u : Upstream) (i : Nat) :
    ((upstreamPick u).1.nodes[i]?).map UpstreamNode.idle = (u.nodes[i]?).map UpstreamNode.idle ∧
    ∀ n, u.nodes[i]? = some n → n.healthy = false → (upstreamPick u).1.nodes[i]? = some n := by
  rcases pickIndex_cases u with ⟨_, _, hnodes, _⟩ | ⟨best, b, _, hb, hh, _, hnodes, _⟩
  · rw [hnodes]
    exact ⟨rfl, fun n hn _ => hn⟩
  · rw [hnodes, List.getElem?_modify, List.getElem?_map, Option.map_eq_map]
    refine ⟨?_, fun n hn hun => ?_⟩
    · cases u.nodes[i]? with
      | none => rfl
      | some n =>
        rw [Option.map_some, Option.map_some, Option.map_some, Option.map_some]
        split <;> simp
    · have hne : best ≠ i := by
        rintro rfl
        rw [hb] at hn
        cases hn
        rw [hh] at hun
        cases hun
      rw [hn, Option.map_some, Option.map_some, if_neg hne, UpstreamNode.raise, hun]
      rfl

theorem afterPicks_nodes (u : Upstream) (k i : Nat) :
    ((afterPicks u k).nodes[i]?).map UpstreamNode.idle = (u.nodes[i]?).map UpstreamNode.idle ∧
    ∀ n, u.nodes[i]? = some n → n.healthy = false → (afterPicks u k).nodes[i]? = some n := by
  induction k with
  | zero => exact ⟨rfl, fun n hn _ => hn⟩
  | succ k ih =>
    rw [afterPicks_succ]
    obtain ⟨h1, h2⟩ := upstreamPick_nodes (afterPicks u k) i
    exact ⟨h1.trans ih.1, fun n hn hun => h2 n (ih.2 n hn hun) hun⟩

/-- The node that stands at an index after some picks has the weight and the health of
    the one that stood there before. -/
theorem afterPicks_node {u : Upstream} {i : Nat} {n : UpstreamNode} (hn : u.nodes[i]? = some n)
    (k : Nat) : ∃ m, (afterPicks u k).nodes[i]? = some m ∧ m.weight = n.weight ∧
      m.healthy = n.healthy := by
  have h := (afterPicks_nodes u k i).1
  rw [hn, Option.map_some, Option.map_eq_some_iff] at h
  obtain ⟨m, hm, he⟩ := h
  exact ⟨m, hm, UpstreamNode.idle_eq he⟩

theorem node_afterPicks {u : Upstream} {k i : Nat} {m : UpstreamNode}
    (hm : (afterPicks u k).nodes[i]? = some m) : ∃ n, u.nodes[i]? = some n ∧
      m.weight = n.weight ∧ m.healthy = n.healthy := by
  have h := (afterPicks_nodes u k i).1
  rw [hm, Option.map_some, eq_comm, Option.map_eq_some_iff] at h
  obtain ⟨n, hn, he⟩ := h
  exact ⟨n, hn, UpstreamNode.idle_eq he.symm⟩

/-! ## The run -/

/-- The indices of the healthy nodes. -/
def healthyIndices (nodes : List UpstreamNode) : Finset Nat :=
  (Finset.range nodes.length).filter (fun i => (nodes[i]?).any UpstreamNode.healthy = true)

theorem mem_healthyIndices {nodes : List UpstreamNode} {i : Nat} :
    i ∈ healthyIndices nodes ↔ ∃ n, nodes[i]? = some n ∧ n.healthy = true := by
  rw [healthyIndices, Finset.mem_filter, Finset.mem_range, Option.any_eq_true]
  constructor
  · exact fun h => h.2
  · intro hyp
    obtain ⟨n, hn, hh⟩ := hyp
    exact ⟨(List.getElem?_eq_some_iff.mp hn).1, n, hn, hh⟩

theorem sum_healthyIndices {M : Type} [AddCommMonoid M] (nodes : List UpstreamNode)
    (f : UpstreamNode → M) :
    ∑ i ∈ healthyIndices nodes, ((nodes[i]?).map f).getD 0 =
      (nodes.map (fun n => if n.healthy then f n else 0)).sum := by
  rw [healthyIndices, Finset.sum_filter, Finset.sum_range, ← Fin.sum_univ_fun_getElem]
  apply Finset.sum_congr rfl
  intro i _
  rw [List.getElem?_eq_getElem i.2]
  simp

/-- What is read of the node at an index. -/
def nodeAt (nodes : List UpstreamNode) (f : UpstreamNode → Int) (i : Nat) : Int :=
  ((nodes[i]?).map f).getD 0

theorem nodeAt_some {nodes : List UpstreamNode} {f : UpstreamNode → Int} {i : Nat}
    {n : UpstreamNode} (h : nodes[i]? = some n) : nodeAt nodes f i = f n := by
  rw [nodeAt, h]
  rfl

theorem total_healthyIndices (nodes : List UpstreamNode) :
    total (healthyIndices nodes) (nodeAt nodes UpstreamNode.weight) = healthyWeight nodes := by
  rw [healthyWeight_eq]
  exact sum_healthyIndices nodes UpstreamNode.weight

theorem healthyCount_eq (nodes : List UpstreamNode) :
    healthyCount nodes = (nodes.map (fun n => if n.healthy then 1 else 0)).sum := by
  induction nodes with
  | nil => rfl
  | cons n ns ih =>
    rw [healthyCount, List.countP_cons, List.map_cons, List.sum_cons, ← ih, healthyCount,
      Nat.add_comm]

theorem card_healthyIndices (nodes : List UpstreamNode) :
    (healthyIndices nodes).card = healthyCount nodes := by
  rw [healthyCount_eq, ← sum_healthyIndices nodes (fun _ => 1), Finset.card_eq_sum_ones]
  apply Finset.sum_congr rfl
  intro i hi
  obtain ⟨n, hn, _⟩ := mem_healthyIndices.mp hi
  rw [hn]
  rfl

/-- The node of the pick after `k` picks. -/
def pickAfter (u : Upstream) (k : Nat) : Nat := (pickIndex (afterPicks u k)).getD 0

theorem pickIndex_afterPicks {u : Upstream} (hhealthy : ∃ n ∈ u.nodes, n.healthy = true) (k : Nat) :
    pickIndex (afterPicks u k) = some (pickAfter u k) := by
  rcases pickIndex_cases (afterPicks u k) with ⟨hall, _⟩ | ⟨best, n, hbest, _⟩
  · obtain ⟨n, hn, hh⟩ := hhealthy
    obtain ⟨i, hi⟩ := List.mem_iff_getElem?.mp hn
    obtain ⟨m, hm, _, hsame⟩ := afterPicks_node hi k
    have := hall m (List.mem_iff_getElem?.mpr ⟨i, hm⟩)
    rw [hsame, hh] at this
    cases this
  · rw [pickAfter, hbest]
    rfl

theorem timesPicked_eq {u : Upstream} (hhealthy : ∃ n ∈ u.nodes, n.healthy = true) (i k : Nat) :
    timesPicked u i k = chosen (pickAfter u) i k := by
  simp only [timesPicked, chosen, pickIndex_afterPicks hhealthy, Option.some.injEq]

theorem healthyWeight_afterPicks (u : Upstream) (k : Nat) :
    healthyWeight (afterPicks u k).nodes = healthyWeight u.nodes := by
  have hmap : (afterPicks u k).nodes.map UpstreamNode.idle = u.nodes.map UpstreamNode.idle := by
    apply List.ext_getElem?
    intro i
    rw [List.getElem?_map, List.getElem?_map, (afterPicks_nodes u k i).1]
  have hidle (ns : List UpstreamNode) :
      healthyWeight (ns.map UpstreamNode.idle) = healthyWeight ns := by
    rw [healthyWeight_eq, healthyWeight_eq, List.map_map]
    rfl
  rw [← hidle, hmap, hidle]

/-- **The picks are a run over the healthy nodes.** -/
theorem picks_run {u : Upstream} (hstart : ∀ n ∈ u.nodes, n.activeConns = 0)
    (hhealthy : ∃ n ∈ u.nodes, n.healthy = true) :
    Run (healthyIndices u.nodes) (nodeAt u.nodes UpstreamNode.weight)
      (fun k => nodeAt (afterPicks u k).nodes UpstreamNode.activeConns) (pickAfter u) where
  pos := by
    intro i hi
    obtain ⟨n, hn, _⟩ := mem_healthyIndices.mp hi
    rw [nodeAt_some hn]
    exact n.weight_pos
  start := by
    intro i hi
    obtain ⟨n, hn, _⟩ := mem_healthyIndices.mp hi
    show nodeAt u.nodes UpstreamNode.activeConns i = 0
    rw [nodeAt_some hn]
    exact hstart n (List.mem_iff_getElem?.mpr ⟨i, hn⟩)
  step := by
    intro k
    have hpick := pickIndex_afterPicks hhealthy k
    rcases pickIndex_cases (afterPicks u k) with ⟨_, hnone, _⟩ | ⟨best, b, hbest, hb, hh, hmax, hnodes, _⟩
    · rw [hnone] at hpick
      cases hpick
    rw [hbest] at hpick
    rw [← Option.some.inj hpick]
    -- a healthy node raised has its counter and its weight, as they stand before the pick
    have hraised (i : Nat) (hi : i ∈ healthyIndices u.nodes) : ∃ m,
        (afterPicks u k).nodes[i]? = some m ∧ m.healthy = true ∧
        m.raise.activeConns = nodeAt (afterPicks u k).nodes UpstreamNode.activeConns i +
          nodeAt u.nodes UpstreamNode.weight i := by
      obtain ⟨n, hn, hnh⟩ := mem_healthyIndices.mp hi
      obtain ⟨m, hm, hw, hmh⟩ := afterPicks_node hn k
      rw [hnh] at hmh
      rw [nodeAt_some hm, nodeAt_some hn]
      exact ⟨m, hm, hmh, by rw [UpstreamNode.raise_activeConns hmh, hw]⟩
    have hmem : best ∈ healthyIndices u.nodes := by
      obtain ⟨n, hn, _, hsame⟩ := node_afterPicks hb
      exact mem_healthyIndices.mpr ⟨n, hn, hsame.symm.trans hh⟩
    refine ⟨hmem, fun i hi => ?_, fun i hi => ?_⟩
    · obtain ⟨m, hm, hmh, heq⟩ := hraised i hi
      obtain ⟨b', hb', _, hbeq⟩ := hraised best hmem
      rw [hb] at hb'
      cases hb'
      rw [← heq, ← hbeq]
      exact hmax m (List.mem_iff_getElem?.mpr ⟨i, hm⟩) hmh
    · obtain ⟨m, hm, _, heq⟩ := hraised i hi
      rw [← heq, total_healthyIndices, ← healthyWeight_afterPicks u k]
      rw [afterPicks_succ, hnodes, nodeAt, List.getElem?_modify, List.getElem?_map, hm]
      by_cases hbi : best = i
      · simp [hbi, UpstreamNode.pay]
      · simp [hbi]

/-! ## The share of a node -/

/-- The values of an `int`. -/
def IsInt (x : Int) : Prop := -2 ^ 31 ≤ x ∧ x < 2 ^ 31

/-- Every `int` that a pick computes is in range: the counters it raises, its running
    totals and the counter it leaves the node returned. -/
structure PickFits (u : Upstream) : Prop where
  raised : ∀ n ∈ u.nodes, IsInt n.raise.activeConns
  total : ∀ ns, ns <+: u.nodes → IsInt (healthyWeight ns)
  paid : ∀ n, (upstreamPick u).2 = some n → IsInt n.activeConns

/-- What a node of weight `weight` at index `i` has had of `k` picks, and its counter,
    when `n` nodes of total weight `total` are healthy. -/
structure HasShare (u : Upstream) (total : Int) (n : Nat) (k i : Nat) (weight : Int) : Prop where
  ge : (k : ℚ) * weight / total - (n - 1) ≤ timesPicked u i k
  lt : (timesPicked u i k : ℚ) < k * weight / total + 1
  counter : ∃ m, (afterPicks u k).nodes[i]? = some m ∧ -total < m.activeConns ∧
    m.activeConns ≤ (n - 1) * total

theorem healthyWeight_nonneg (ns : List UpstreamNode) : 0 ≤ healthyWeight ns := by
  rw [healthyWeight_eq]
  apply List.sum_nonneg
  intro x hx
  obtain ⟨n, _, rfl⟩ := List.mem_map.mp hx
  have := n.weight_pos
  split <;> omega

theorem healthyWeight_append (ns ms : List UpstreamNode) :
    healthyWeight (ns ++ ms) = healthyWeight ns + healthyWeight ms := by
  simp only [healthyWeight_eq, List.map_append, List.sum_append]

theorem weight_le_healthyWeight {ns : List UpstreamNode} {n : UpstreamNode} (hn : n ∈ ns)
    (hh : n.healthy = true) : n.weight ≤ healthyWeight ns := by
  obtain ⟨pre, post, rfl⟩ := List.append_of_mem hn
  have hcons : healthyWeight (n :: post) = n.weight + healthyWeight post := by
    simp [healthyWeight_eq, hh]
  have h1 := healthyWeight_nonneg pre
  have h2 := healthyWeight_nonneg post
  rw [healthyWeight_append, hcons]
  omega

section
variable {u : Upstream} (hstart : ∀ n ∈ u.nodes, n.activeConns = 0)
  (hhealthy : ∃ n ∈ u.nodes, n.healthy = true)
include hstart hhealthy

theorem counter_bounds {i : Nat} {n : UpstreamNode} (hn : u.nodes[i]? = some n)
    (hh : n.healthy = true) (k : Nat) : ∃ m, (afterPicks u k).nodes[i]? = some m ∧
      m.healthy = true ∧ m.weight = n.weight ∧ -healthyWeight u.nodes < m.activeConns ∧
      m.activeConns ≤ (healthyCount u.nodes - 1) * healthyWeight u.nodes := by
  have hrun := picks_run hstart hhealthy
  have hi := mem_healthyIndices.mpr ⟨n, hn, hh⟩
  obtain ⟨m, hm, hw, hsame⟩ := afterPicks_node hn k
  have hgt := hrun.counter_gt k hi
  have hle := hrun.counter_le k hi
  rw [total_healthyIndices, nodeAt_some hm] at hgt hle
  rw [card_healthyIndices] at hle
  exact ⟨m, hm, hsame.trans hh, hw, hgt, hle⟩

theorem hasShare {i : Nat} {n : UpstreamNode} (hn : u.nodes[i]? = some n)
    (hh : n.healthy = true) (k : Nat) :
    HasShare u (healthyWeight u.nodes) (healthyCount u.nodes) k i n.weight := by
  have hrun := picks_run hstart hhealthy
  have hi := mem_healthyIndices.mpr ⟨n, hn, hh⟩
  have hge := hrun.count_ge k hi
  have hlt := hrun.count_lt k hi
  rw [total_healthyIndices, nodeAt_some hn, ← timesPicked_eq hhealthy] at hge hlt
  rw [card_healthyIndices] at hge
  obtain ⟨m, hm, _, _, hbounds⟩ := counter_bounds hstart hhealthy hn hh k
  exact ⟨hge, hlt, m, hm, hbounds⟩

theorem whole_rounds {k m : Nat} (hk : (k : Int) = m * healthyWeight u.nodes) :
    (∀ i n, u.nodes[i]? = some n → n.healthy = true → (timesPicked u i k : Int) = m * n.weight) ∧
    ∀ n ∈ (afterPicks u k).nodes, n.activeConns = 0 := by
  have hrun := picks_run hstart hhealthy
  rw [← total_healthyIndices] at hk
  constructor
  · intro i n hn hh
    obtain ⟨_, hcount⟩ := hrun.period hk (mem_healthyIndices.mpr ⟨n, hn, hh⟩)
    rwa [nodeAt_some hn, ← timesPicked_eq hhealthy] at hcount
  · intro n hn
    obtain ⟨i, hi⟩ := List.mem_iff_getElem?.mp hn
    obtain ⟨o, ho, _, hsame⟩ := node_afterPicks hi
    cases hh : o.healthy with
    | true =>
      obtain ⟨hzero, _⟩ := hrun.period hk (mem_healthyIndices.mpr ⟨o, ho, hh⟩)
      rwa [nodeAt_some hi] at hzero
    | false =>
      -- its counter has never been touched
      rw [(afterPicks_nodes u k i).2 o ho hh] at hi
      cases hi
      exact hstart n (List.mem_iff_getElem?.mpr ⟨i, ho⟩)

theorem pickFits (hint : 16 * healthyWeight u.nodes < 2 ^ 31) (k : Nat) :
    PickFits (afterPicks u k) := by
  have hW := healthyWeight_nonneg u.nodes
  have hcount : (healthyCount u.nodes : Int) ≤ 16 := by
    exact_mod_cast le_trans List.countP_le_length u.nodes_le
  have hmul : (healthyCount u.nodes : Int) * healthyWeight u.nodes ≤ 16 * healthyWeight u.nodes :=
    mul_le_mul_of_nonneg_right hcount hW
  have hshare : ((healthyCount u.nodes : Int) - 1) * healthyWeight u.nodes =
      healthyCount u.nodes * healthyWeight u.nodes - healthyWeight u.nodes := by ring
  refine ⟨fun n hn => ?_, fun ns hns => ?_, fun n hn => ?_⟩
  · obtain ⟨i, hi⟩ := List.mem_iff_getElem?.mp hn
    obtain ⟨o, ho, _, hsame⟩ := node_afterPicks hi
    cases hh : o.healthy with
    | true =>
      obtain ⟨m, hm, hmh, hw, hgt, hle⟩ := counter_bounds hstart hhealthy ho hh k
      rw [hi] at hm
      cases hm
      have hweight := weight_le_healthyWeight (List.mem_iff_getElem?.mpr ⟨i, ho⟩) hh
      have hpos := n.weight_pos
      rw [IsInt, UpstreamNode.raise_activeConns hmh]
      omega
    | false =>
      rw [(afterPicks_nodes u k i).2 o ho hh] at hi
      cases hi
      have hraise : n.raise = n := if_neg (by rw [hh]; decide)
      rw [hraise, hstart n (List.mem_iff_getElem?.mpr ⟨i, ho⟩)]
      exact ⟨by decide, by decide⟩
  · obtain ⟨ms, hms⟩ := hns
    have hsum := healthyWeight_append ns ms
    rw [hms, healthyWeight_afterPicks] at hsum
    have h1 := healthyWeight_nonneg ns
    have h2 := healthyWeight_nonneg ms
    exact ⟨by omega, by omega⟩
  · -- the node returned is one of the next nodes, and healthy
    have hidx := pickIndex_spec (afterPicks u k)
    rw [hn, pickIndex_afterPicks hhealthy, Option.bind_some, ← afterPicks_succ] at hidx
    obtain ⟨o, ho, _, hsame⟩ := node_afterPicks hidx.symm
    have hh : o.healthy = true := by
      rw [← hsame]
      exact upstreamPick_healthy hn
    obtain ⟨m, hm, _, _, hgt, hle⟩ := counter_bounds hstart hhealthy ho hh (k + 1)
    rw [← hidx] at hm
    cases hm
    exact ⟨by omega, by omega⟩

end

/-- **The picks are weighted round-robin.** For every upstream with a healthy node
    whose counters are zero and whose healthy weight, 16 times, is an `int`, and any
    number of picks: every healthy node has had its share, its counter is within its
    bounds, after whole rounds it has had exactly its weight of each and all counters
    are zero, and the next pick overflows nowhere. -/
theorem weighted_round_robin {u : Upstream} (hstart : ∀ n ∈ u.nodes, n.activeConns = 0)
    (hhealthy : ∃ n ∈ u.nodes, n.healthy = true) (hint : 16 * healthyWeight u.nodes < 2 ^ 31)
    (k : Nat) :
    (∀ i n, u.nodes[i]? = some n → n.healthy = true →
      HasShare u (healthyWeight u.nodes) (healthyCount u.nodes) k i n.weight) ∧
    (∀ m : Nat, (k : Int) = m * healthyWeight u.nodes →
      (∀ i n, u.nodes[i]? = some n → n.healthy = true →
        (timesPicked u i k : Int) = m * n.weight) ∧
      ∀ n ∈ (afterPicks u k).nodes, n.activeConns = 0) ∧
    PickFits (afterPicks u k) :=
  ⟨fun _ _ hn hh => hasShare hstart hhealthy hn hh k,
    fun _ hk => whole_rounds hstart hhealthy hk, pickFits hstart hhealthy hint k⟩

/-- Three nodes of weight 3, 2 and 1, all healthy. -/
def threeNodes : Upstream :=
  let u := (upstreamAddNode upstreamInit (ascii "127.0.0.1") 9001 3).1
  let u := (upstreamAddNode u (ascii "127.0.0.1") 9002 2).1
  (upstreamAddNode u (ascii "127.0.0.1") 9003 1).1

theorem weighted_round_robin_three :
    (∀ i n, threeNodes.nodes[i]? = some n → n.healthy = true →
      HasShare threeNodes (healthyWeight threeNodes.nodes) (healthyCount threeNodes.nodes) 6000 i
        n.weight) ∧
    (∀ m : Nat, ((6000 : Nat) : Int) = m * healthyWeight threeNodes.nodes →
      (∀ i n, threeNodes.nodes[i]? = some n → n.healthy = true →
        (timesPicked threeNodes i 6000 : Int) = m * n.weight) ∧
      ∀ n ∈ (afterPicks threeNodes 6000).nodes, n.activeConns = 0) ∧
    PickFits (afterPicks threeNodes 6000) :=
  weighted_round_robin (by decide +kernel) (by decide +kernel) (by decide +kernel) 6000

end NexusGateway
