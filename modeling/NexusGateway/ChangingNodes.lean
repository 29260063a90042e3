import NexusGateway.Lib.Turns
import NexusGateway.NodeCounters
import NexusGateway.WeightedPicks
import NexusGateway.WorkerEvents

/- The choice among nodes that are added, marked and judged between the picks.

   Nothing resets a counter: a node that is down keeps the one it had, and comes back with
   it. Each pick is a turn of the nodes that are healthy at the time (`pick_turn`), so
   every counter stays within fixed bounds in every state, whatever was done in between,
   and no `int` overflows (`counters_bounded`). Over any steps a node pays for its picks
   what it earned at the picks it was healthy for, up to a fixed amount (`picks_shared`),
   and one that stays healthy is picked again and again (`steady_node_picked`). A pick is one
   step: no verdict falls between its two loops, as the health checker's thread could make it. -/
namespace NexusGateway
open CString SmoothRoundRobin

/-- A call on the upstream, or a verdict of the health checker. -/
inductive NodeStep where
  | call (c : UpstreamCall)
  | judge (node : Nat) (healthy : Bool)

/-- The upstream after a step. -/
def nodeStep (u : Upstream) : NodeStep → Upstream
  | .call c => upstreamCall u c
  | .judge node healthy => setHealthy u node healthy

/-- The upstream after steps from its initialisation. -/
def upstreamAfter (steps : List NodeStep) : Upstream := steps.foldl nodeStep upstreamInit

/-- No node is added with a larger weight. -/
def NodeStep.AtMost (m : Int) : NodeStep → Prop
  | .call (.addNode _ _ weight) => weight ≤ m
  | _ => True

instance (m : Int) : DecidablePred (NodeStep.AtMost m)
  | .call (.addNode _ _ weight) => inferInstanceAs (Decidable (weight ≤ m))
  | .call (.mark _ _ _) => isTrue trivial
  | .call .pick => isTrue trivial
  | .judge _ _ => isTrue trivial

def NodeStep.isPick : NodeStep → Bool
  | .call .pick => true
  | _ => false

/-- The counter at an index, zero where there is no node. -/
def counterAt (u : Upstream) (i : Nat) : Int := nodeAt u.nodes UpstreamNode.activeConns i

/-- The invariant: no node's weight is above `m`, and every group of counters is within
    its room. -/
structure Bounded (m : Int) (u : Upstream) : Prop where
  weights : ∀ w ∈ u.nodes.map UpstreamNode.weight, w ≤ m
  counters : Within (Finset.range upstreamMaxNodes) m (counterAt u)

/-! ## What each step does to the counters -/

theorem counterAt_map {u u' : Upstream} {f : Nat → UpstreamNode → UpstreamNode}
    (hnodes : ∀ i, u'.nodes[i]? = (u.nodes[i]?).map (f i))
    (hf : ∀ i n, (f i n).activeConns = n.activeConns) : counterAt u' = counterAt u := by
  funext i
  rw [counterAt, counterAt, nodeAt, nodeAt, hnodes, Option.map_map]
  congr 2
  funext n
  exact hf i n

theorem counterAt_mark (u : Upstream) (host : Bytes) (port healthy : Int32) :
    counterAt (upstreamMark u host port healthy) = counterAt u := by
  refine counterAt_map (f := fun _ n => if n.port = port ∧ strEq n.host.text host = true then
    { n with healthy := healthy != 0 } else n) (fun i => List.getElem?_map) fun i n => ?_
  split <;> rfl

theorem counterAt_judge (u : Upstream) (node : Nat) (healthy : Bool) :
    counterAt (setHealthy u node healthy) = counterAt u := by
  refine counterAt_map (f := fun i n => if node = i then { n with healthy := healthy } else n)
    (fun i => ?_) fun i n => ?_
  · rw [setHealthy, List.getElem?_modify]
    rfl
  · split <;> rfl

theorem counterAt_addNode (u : Upstream) (host : Bytes) (port : Int32) (weight : Int) :
    counterAt (upstreamAddNode u host port weight).1 = counterAt u := by
  unfold upstreamAddNode
  split
  · rfl
  · funext i
    rw [counterAt, counterAt, nodeAt, nodeAt]
    dsimp only
    obtain hlt | heq | hgt := Nat.lt_trichotomy i u.nodes.length
    · rw [List.getElem?_append_left hlt]
    · rw [heq, List.getElem?_append_right le_rfl, List.getElem?_eq_none le_rfl]
      simp
    · rw [List.getElem?_eq_none hgt.le, List.getElem?_eq_none]
      simp only [List.length_append, List.length_singleton]
      omega

theorem mem_range_of_node {u : Upstream} {i : Nat} {n : UpstreamNode} (hn : u.nodes[i]? = some n) :
    i ∈ Finset.range upstreamMaxNodes :=
  Finset.mem_range.mpr (Nat.lt_of_lt_of_le (List.getElem?_eq_some_iff.mp hn).1 u.nodes_le)

/-- **A pick is a turn of the healthy nodes.** -/
theorem pick_turn {u : Upstream} {best : Nat} (hpick : pickIndex u = some best) :
    Turn (Finset.range upstreamMaxNodes) (healthyIndices u.nodes) (nodeAt u.nodes UpstreamNode.weight)
      (counterAt u) (counterAt (upstreamPick u).1) best := by
  obtain ⟨_, hnone, _⟩ | ⟨best', b, hbest, hb, hh, hmax, hnodes, _⟩ := pickIndex_cases u
  · rw [hnone] at hpick
    cases hpick
  rw [hbest] at hpick
  cases hpick
  -- a healthy node raised has its counter and its weight
  have hraised {i : Nat} {n : UpstreamNode} (hn : u.nodes[i]? = some n) (hnh : n.healthy = true) :
      counterAt u i + nodeAt u.nodes UpstreamNode.weight i = n.raise.activeConns := by
    rw [counterAt, nodeAt_some hn, nodeAt_some hn, UpstreamNode.raise_activeConns hnh]
  refine ⟨fun i hi => ?_, mem_healthyIndices.mpr ⟨b, hb, hh⟩, fun i hi => ?_, fun i hi => ?_,
    fun i _ => ?_⟩
  · obtain ⟨n, hn, _⟩ := mem_healthyIndices.mp hi
    exact mem_range_of_node hn
  · obtain ⟨n, hn, _⟩ := mem_healthyIndices.mp hi
    rw [nodeAt_some hn]
    exact n.weight_pos
  · obtain ⟨n, hn, hnh⟩ := mem_healthyIndices.mp hi
    rw [hraised hn hnh, hraised hb hh]
    exact hmax n (List.mem_of_getElem? hn) hnh
  · rw [total_healthyIndices, counterAt, nodeAt, hnodes, List.getElem?_modify, List.getElem?_map]
    cases hn : u.nodes[i]? with
    | none =>
      have hout : i ∉ healthyIndices u.nodes := by
        rintro hi
        obtain ⟨n, hn', _⟩ := mem_healthyIndices.mp hi
        rw [hn] at hn'
        cases hn'
      have hne : i ≠ best := by
        rintro rfl
        rw [hn] at hb
        cases hb
      simp [counterAt, nodeAt, hn, hout, hne]
    | some n =>
      have hmem : i ∈ healthyIndices u.nodes ↔ n.healthy = true := by
        rw [mem_healthyIndices, hn]
        simp
      have hraise : n.raise.activeConns = n.activeConns + if n.healthy = true then n.weight else 0 := by
        unfold UpstreamNode.raise
        split <;> simp
      rw [counterAt, nodeAt_some hn, nodeAt_some hn, if_congr hmem rfl rfl, ← hraise]
      by_cases hi : i = best
      · simp [hi, UpstreamNode.pay]
      · simp [hi, Ne.symm hi]

theorem counterAt_pick_none {u : Upstream} (hpick : pickIndex u = none) :
    counterAt (upstreamPick u).1 = counterAt u := by
  obtain ⟨_, _, hnodes, _⟩ | ⟨best, _, hbest, _⟩ := pickIndex_cases u
  · funext i
    rw [counterAt, hnodes]
    rfl
  · rw [hbest] at hpick
    cases hpick

/-! ## The weights -/

/-- The weights of the nodes, in order. -/
def Upstream.weights (u : Upstream) : List Int := u.nodes.map UpstreamNode.weight

/-- The weights that a step adds. -/
def NodeStep.adds (u : Upstream) : NodeStep → List Int
  | .call (.addNode _ _ weight) =>
    if u.nodes.length ≥ upstreamMaxNodes then [] else [if weight > 0 then weight else 1]
  | _ => []

theorem weights_eq {u u' : Upstream} {f : Nat → UpstreamNode → UpstreamNode}
    (hnodes : ∀ i, u'.nodes[i]? = (u.nodes[i]?).map (f i))
    (hf : ∀ i n, (f i n).weight = n.weight) : u'.weights = u.weights := by
  apply List.ext_getElem?
  intro i
  rw [Upstream.weights, Upstream.weights, List.getElem?_map, List.getElem?_map, hnodes,
    Option.map_map]
  congr 1
  funext n
  exact hf i n

theorem weights_pick (u : Upstream) : (upstreamPick u).1.weights = u.weights := by
  apply List.ext_getElem?
  intro i
  have hidle := congrArg (Option.map UpstreamNode.weight) (upstreamPick_nodes u i).1
  rw [Option.map_map, Option.map_map] at hidle
  rw [Upstream.weights, Upstream.weights, List.getElem?_map, List.getElem?_map]
  exact hidle

/-- A step leaves the weights, and adds that of a new node at the end. -/
theorem weights_step (u : Upstream) (s : NodeStep) :
    (nodeStep u s).weights = u.weights ++ s.adds u := by
  cases s with
  | judge node healthy =>
    simp only [NodeStep.adds, List.append_nil]
    refine weights_eq (f := fun i n => if node = i then { n with healthy := healthy } else n)
      (fun i => ?_) fun i n => ?_
    · rw [nodeStep, setHealthy, List.getElem?_modify]
      rfl
    · split <;> rfl
  | call c =>
    cases c with
    | addNode host port weight =>
      simp only [nodeStep, upstreamCall, upstreamAddNode, NodeStep.adds]
      split
      · exact (List.append_nil _).symm
      · exact List.map_append
    | mark host port healthy =>
      simp only [NodeStep.adds, List.append_nil]
      refine weights_eq (f := fun _ n => if n.port = port ∧ strEq n.host.text host = true then
        { n with healthy := healthy != 0 } else n) (fun i => List.getElem?_map) fun i n => ?_
      split <;> rfl
    | pick =>
      simp only [NodeStep.adds, List.append_nil]
      exact weights_pick u

theorem weights_step_le {m : Int} {u : Upstream} {s : NodeStep} (hm : 1 ≤ m) (hs : s.AtMost m)
    (hu : ∀ w ∈ u.weights, w ≤ m) : ∀ w ∈ (nodeStep u s).weights, w ≤ m := by
  intro w hw
  rw [weights_step] at hw
  obtain hold | hnew := List.mem_append.mp hw
  · exact hu w hold
  · cases s with
    | judge node healthy => exact absurd hnew List.not_mem_nil
    | call c =>
      cases c with
      | addNode host port weight =>
        unfold NodeStep.adds at hnew
        dsimp only at hnew
        split at hnew
        · exact absurd hnew List.not_mem_nil
        · rw [List.mem_singleton.mp hnew]
          split
          · exact hs
          · exact hm
      | mark host port healthy => exact absurd hnew List.not_mem_nil
      | pick => exact absurd hnew List.not_mem_nil

/-! ## Any steps -/

theorem Bounded.weight {m : Int} {u : Upstream} (hu : Bounded m u) {n : UpstreamNode}
    (hn : n ∈ u.nodes) : n.weight ≤ m :=
  hu.weights n.weight (List.mem_map_of_mem hn)

/-- Every step keeps the invariant. -/
theorem nodeStep_bounded {m : Int} {u : Upstream} {s : NodeStep} (hm : 1 ≤ m) (hs : s.AtMost m)
    (hu : Bounded m u) : Bounded m (nodeStep u s) := by
  refine ⟨weights_step_le hm hs hu.weights, ?_⟩
  cases s with
  | judge node healthy =>
    rw [nodeStep, counterAt_judge]
    exact hu.counters
  | call c =>
    cases c with
    | addNode host port weight =>
      rw [nodeStep, upstreamCall, counterAt_addNode]
      exact hu.counters
    | mark host port healthy =>
      rw [nodeStep, upstreamCall, counterAt_mark]
      exact hu.counters
    | pick =>
      rw [nodeStep, upstreamCall]
      cases hpick : pickIndex u with
      | none =>
        rw [counterAt_pick_none hpick]
        exact hu.counters
      | some best =>
        refine (pick_turn hpick).within hu.counters (by omega) fun i hi => ?_
        obtain ⟨n, hn, _⟩ := mem_healthyIndices.mp hi
        rw [nodeAt_some hn]
        exact hu.weight (List.mem_of_getElem? hn)

theorem upstreamInit_bounded {m : Int} (hm : 1 ≤ m) : Bounded m upstreamInit :=
  ⟨fun _ hn => absurd hn List.not_mem_nil, within_zero (by omega) fun _ _ => rfl⟩

theorem steps_bounded {m : Int} (hm : 1 ≤ m) (steps : List NodeStep) :
    ∀ {u : Upstream}, Bounded m u → (∀ s ∈ steps, s.AtMost m) → Bounded m (steps.foldl nodeStep u) := by
  induction steps with
  | nil => exact fun hu _ => hu
  | cons s steps ih =>
    intro u hu hsteps
    obtain ⟨hs, hrest⟩ := List.forall_mem_cons.mp hsteps
    exact ih (nodeStep_bounded hm hs hu) hrest

theorem Bounded.counter {m : Int} {u : Upstream} (hu : Bounded m u) {n : UpstreamNode}
    (hn : n ∈ u.nodes) : -(155 * m) ≤ n.activeConns ∧ n.activeConns ≤ 85 * m := by
  obtain ⟨i, hi⟩ := List.mem_iff_getElem?.mp hn
  have hle := hu.counters.counter_le (mem_range_of_node hi)
  have hge := hu.counters.counter_ge (mem_range_of_node hi)
  rw [counterAt, nodeAt_some hi, Finset.card_range, upstreamMaxNodes] at hle hge
  push_cast at hle hge
  constructor <;> linarith

theorem healthyWeight_le {m : Int} (hm : 0 ≤ m) {ns : List UpstreamNode}
    (hns : ∀ n ∈ ns, n.weight ≤ m) : healthyWeight ns ≤ ns.length * m := by
  rw [healthyWeight_eq]
  have hsum := List.sum_le_card_nsmul (ns.map fun n => if n.healthy then n.weight else 0) m fun x hx => by
    obtain ⟨n, hn, rfl⟩ := List.mem_map.mp hx
    have := hns n hn
    split <;> omega
  rwa [List.length_map, nsmul_eq_mul] at hsum

theorem Bounded.total {m : Int} (hm : 0 ≤ m) {u : Upstream} (hu : Bounded m u)
    {ns : List UpstreamNode} (hns : ns <+: u.nodes) : healthyWeight ns ≤ 16 * m := by
  have hlen : (ns.length : Int) ≤ 16 := by exact_mod_cast le_trans hns.length_le u.nodes_le
  have hle := healthyWeight_le hm fun n hn => hu.weight (hns.subset hn)
  have hmul := mul_le_mul_of_nonneg_right hlen hm
  omega

theorem Bounded.pickFits {m : Int} (hm : 1 ≤ m) (hint : 155 * m ≤ 2 ^ 31) {u : Upstream}
    (hu : Bounded m u) : PickFits u := by
  refine ⟨fun n hn => ?_, fun ns hns => ?_, fun n hn => ?_⟩
  · obtain ⟨hge, hle⟩ := hu.counter hn
    have hweight := hu.weight hn
    have hpos := n.weight_pos
    unfold UpstreamNode.raise
    split
    · exact ⟨by dsimp only; omega, by dsimp only; omega⟩
    · exact ⟨by omega, by omega⟩
  · have hle := hu.total (by omega) hns
    have hnonneg := healthyWeight_nonneg ns
    exact ⟨by omega, by omega⟩
  · -- the node returned is one of the upstream after the pick
    rw [pickIndex_spec] at hn
    obtain ⟨i, _, hi⟩ := Option.bind_eq_some_iff.mp hn
    have hnext : Bounded m (upstreamPick u).1 :=
      nodeStep_bounded (s := .call .pick) hm trivial hu
    obtain ⟨hge, hle⟩ := hnext.counter (List.mem_of_getElem? hi)
    exact ⟨by omega, by omega⟩

/-- **No counter leaves its bounds and no pick overflows**, whatever the health of the
    nodes does. For every sequence of added nodes, marks, verdicts of the health checker
    and picks, in which no node is added with a weight above `m`: in the state reached
    every counter is between `-155 m` and `85 m`, and if `155 m` is at most 2^31 the next
    pick computes only `int`s. -/
theorem counters_bounded {m : Int} (hm : 1 ≤ m) {steps : List NodeStep}
    (hsteps : ∀ s ∈ steps, s.AtMost m) :
    (∀ n ∈ (upstreamAfter steps).nodes, -(155 * m) ≤ n.activeConns ∧ n.activeConns ≤ 85 * m) ∧
    (155 * m ≤ 2 ^ 31 → PickFits (upstreamAfter steps)) := by
  have hu := steps_bounded hm steps (upstreamInit_bounded hm) hsteps
  exact ⟨fun n hn => hu.counter hn, fun hint => hu.pickFits hm hint⟩

/-- Two nodes of which the first goes down and comes back. -/
def returningSteps : List NodeStep :=
  [.call (.addNode (ascii "a") 1 5), .call (.addNode (ascii "b") 2 3), .call .pick, .judge 0 false,
    .call .pick, .call (.mark (ascii "a") 1 1)]

theorem returningSteps_atMost : ∀ s ∈ returningSteps, s.AtMost 5 := by decide

theorem counters_bounded_returning :
    (∀ n ∈ (upstreamAfter returningSteps).nodes,
      -(155 * 5) ≤ n.activeConns ∧ n.activeConns ≤ 85 * 5) ∧
    ((155 * 5 : Int) ≤ 2 ^ 31 → PickFits (upstreamAfter returningSteps)) :=
  counters_bounded (by decide) returningSteps_atMost

/-! ## Who pays for the picks -/

/-- What a step adds to the counter at an index: a pick raises the nodes that are healthy. -/
def NodeStep.earns (i : Nat) (u : Upstream) : NodeStep → Int
  | .call .pick => if i ∈ healthyIndices u.nodes then nodeAt u.nodes UpstreamNode.weight i else 0
  | _ => 0

/-- What a step takes from it: the pick that returns the node takes the healthy weight. -/
def NodeStep.pays (i : Nat) (u : Upstream) : NodeStep → Int
  | .call .pick => if pickIndex u = some i then healthyWeight u.nodes else 0
  | _ => 0

/-- The sum over the steps, each with the upstream it meets. -/
def summed (f : Upstream → NodeStep → Int) : Upstream → List NodeStep → Int
  | _, [] => 0
  | u, s :: steps => f u s + summed f (nodeStep u s) steps

theorem counterAt_step (u : Upstream) (s : NodeStep) {i : Nat} (hi : i < upstreamMaxNodes) :
    counterAt (nodeStep u s) i = counterAt u i + s.earns i u - s.pays i u := by
  cases s with
  | judge node healthy => simp [nodeStep, counterAt_judge, NodeStep.earns, NodeStep.pays]
  | call c =>
    cases c with
    | addNode host port weight =>
      simp [nodeStep, upstreamCall, counterAt_addNode, NodeStep.earns, NodeStep.pays]
    | mark host port healthy =>
      simp [nodeStep, upstreamCall, counterAt_mark, NodeStep.earns, NodeStep.pays]
    | pick =>
      simp only [nodeStep, upstreamCall, NodeStep.earns, NodeStep.pays]
      cases hpick : pickIndex u with
      | none =>
        have hout : i ∉ healthyIndices u.nodes := by
          intro hmem
          obtain ⟨n, hn, hh⟩ := mem_healthyIndices.mp hmem
          obtain ⟨hall, _⟩ | ⟨best, _, hbest, _⟩ := pickIndex_cases u
          · rw [hall n (List.mem_of_getElem? hn)] at hh
            cases hh
          · rw [hbest] at hpick
            cases hpick
        simp [counterAt_pick_none hpick, hout]
      | some best =>
        rw [(pick_turn hpick).next i (Finset.mem_range.mpr hi), total_healthyIndices]
        simp [eq_comm]

theorem counterAt_steps {i : Nat} (hi : i < upstreamMaxNodes) (steps : List NodeStep) :
    ∀ u : Upstream, counterAt (steps.foldl nodeStep u) i =
      counterAt u i + summed (NodeStep.earns i) u steps - summed (NodeStep.pays i) u steps := by
  induction steps with
  | nil => simp [summed]
  | cons s steps ih =>
    intro u
    rw [List.foldl_cons, ih, counterAt_step u s hi, summed, summed]
    ring

/-- **Every node pays for what it earns.** For every sequence of steps from the
    initialisation with no weight above `m`, and any steps after it: what a node pays for
    the picks that return it (the weight that is healthy at the time) differs from its own
    weight, summed over the picks for which it is healthy, by at most `240 m`, however long
    the steps are and whatever the health of the nodes does. -/
theorem picks_shared {m : Int} (hm : 1 ≤ m) {before steps : List NodeStep}
    (hbefore : ∀ s ∈ before, s.AtMost m) (hsteps : ∀ s ∈ steps, s.AtMost m) {i : Nat}
    (hi : i < upstreamMaxNodes) :
    |summed (NodeStep.earns i) (upstreamAfter before) steps -
      summed (NodeStep.pays i) (upstreamAfter before) steps| ≤ 240 * m := by
  have hstart := steps_bounded hm before (upstreamInit_bounded hm) hbefore
  have hend := steps_bounded hm steps hstart hsteps
  have hcounter := counterAt_steps hi steps (upstreamAfter before)
  have hup := hstart.counters.apart hend.counters (Finset.mem_range.mpr hi)
  have hdown := hend.counters.apart hstart.counters (Finset.mem_range.mpr hi)
  rw [← upstreamAfter] at hup hdown
  rw [hcounter, Finset.card_range, upstreamMaxNodes] at hup hdown
  push_cast at hup hdown
  rw [abs_le]
  constructor <;> linarith

theorem picks_shared_returning :
    |summed (NodeStep.earns 0) (upstreamAfter returningSteps) [.call .pick, .call .pick] -
      summed (NodeStep.pays 0) (upstreamAfter returningSteps) [.call .pick, .call .pick]| ≤ 240 * 5 :=
  picks_shared (by decide) returningSteps_atMost (by decide) (by decide)

/-! ## A node that stays healthy -/

/-- The node at the index is healthy at every pick of the steps. -/
def HealthyAtPicks (i : Nat) : Upstream → List NodeStep → Prop
  | _, [] => True
  | u, s :: steps => (s.isPick → i ∈ healthyIndices u.nodes) ∧ HealthyAtPicks i (nodeStep u s) steps

/-- How many of the steps are picks. -/
def picksIn (steps : List NodeStep) : Nat := steps.countP NodeStep.isPick

/-- How many of the steps are picks that return the node at the index. -/
def picksOf (i : Nat) : Upstream → List NodeStep → Nat
  | _, [] => 0
  | u, s :: steps =>
    (if s.isPick ∧ pickIndex u = some i then 1 else 0) + picksOf i (nodeStep u s) steps

/-- What all nodes weigh together. -/
def allWeight (u : Upstream) : Int := u.weights.sum

theorem healthyWeight_le_all (u : Upstream) : healthyWeight u.nodes ≤ allWeight u := by
  rw [healthyWeight_eq, allWeight, Upstream.weights]
  apply List.sum_le_sum
  intro n _
  have := n.weight_pos
  split <;> omega

theorem allWeight_step (u : Upstream) (s : NodeStep) : allWeight u ≤ allWeight (nodeStep u s) := by
  rw [allWeight, allWeight, weights_step, List.sum_append]
  have hadds : 0 ≤ (s.adds u).sum := by
    apply List.sum_nonneg
    intro w hw
    have hnode : w ∈ (nodeStep u s).weights := by
      rw [weights_step]
      exact List.mem_append_right _ hw
    obtain ⟨n, _, rfl⟩ := List.mem_map.mp hnode
    exact n.weight_pos.le
  omega

theorem allWeight_steps (steps : List NodeStep) :
    ∀ u : Upstream, allWeight u ≤ allWeight (steps.foldl nodeStep u) := by
  induction steps with
  | nil => exact fun _ => le_rfl
  | cons s steps ih => exact fun u => (allWeight_step u s).trans (ih (nodeStep u s))

theorem weight_step {u : Upstream} {i : Nat} {w : Int} (hw : u.weights[i]? = some w) (s : NodeStep) :
    (nodeStep u s).weights[i]? = some w := by
  rw [weights_step, List.getElem?_append_left (List.getElem?_eq_some_iff.mp hw).1, hw]

theorem nodeAt_weight {u : Upstream} {i : Nat} {w : Int} (hw : u.weights[i]? = some w) :
    nodeAt u.nodes UpstreamNode.weight i = w := by
  rw [Upstream.weights, List.getElem?_map] at hw
  rw [nodeAt, hw, Option.getD_some]

theorem earned_steady {i : Nat} {w : Int} (steps : List NodeStep) :
    ∀ {u : Upstream}, u.weights[i]? = some w → HealthyAtPicks i u steps →
      summed (NodeStep.earns i) u steps = picksIn steps * w := by
  induction steps with
  | nil => simp [summed, picksIn]
  | cons s steps ih =>
    intro u hw hhealthy
    obtain ⟨hnow, hlater⟩ := hhealthy
    rw [summed, ih (weight_step hw s) hlater, picksIn, picksIn, List.countP_cons]
    cases hs : s.isPick with
    | false =>
      have hzero : s.earns i u = 0 := by
        unfold NodeStep.isPick at hs
        unfold NodeStep.earns
        split
        · cases hs
        · rfl
      simp [hzero]
    | true =>
      have hearns : s.earns i u = w := by
        unfold NodeStep.isPick at hs
        unfold NodeStep.earns
        split
        · rw [if_pos (hnow rfl), nodeAt_weight hw]
        · split at hs
          · contradiction
          · cases hs
      rw [hearns]
      push_cast
      simp
      ring

theorem paid_le {i : Nat} (steps : List NodeStep) : ∀ u : Upstream,
    summed (NodeStep.pays i) u steps ≤ picksOf i u steps * allWeight (steps.foldl nodeStep u) := by
  induction steps with
  | nil => simp [summed, picksOf]
  | cons s steps ih =>
    intro u
    have hrest := ih (nodeStep u s)
    have hall := (healthyWeight_le_all u).trans (allWeight_steps (s :: steps) u)
    have hnonneg := (healthyWeight_nonneg u.nodes).trans hall
    have hpays : s.pays i u ≤
        ((if s.isPick ∧ pickIndex u = some i then 1 else 0 : Nat) : Int) *
          allWeight ((s :: steps).foldl nodeStep u) := by
      unfold NodeStep.pays NodeStep.isPick
      split
      · by_cases hi : pickIndex u = some i
        · simpa [hi] using hall
        · simp [hi]
      · simp
    rw [List.foldl_cons] at hpays ⊢
    rw [summed, picksOf, Nat.cast_add, add_mul]
    exact add_le_add hpays hrest

/-- **A node that stays healthy is picked again and again.** For every sequence of steps
    from the initialisation with no weight above `m`, and any steps after it at whose picks
    the node at an index is healthy, whatever happens to the others: its weight times the
    number of picks is at most the weight of all nodes times the number of picks that
    return it, and `240 m` more. So it gets its share of any long run of picks, and of any
    picks that weigh more than `240 m` it gets one. -/
theorem steady_node_picked {m : Int} (hm : 1 ≤ m) {before steps : List NodeStep}
    (hbefore : ∀ s ∈ before, s.AtMost m) (hsteps : ∀ s ∈ steps, s.AtMost m) {i : Nat}
    {n : UpstreamNode} (hn : (upstreamAfter before).nodes[i]? = some n)
    (hhealthy : HealthyAtPicks i (upstreamAfter before) steps) :
    picksIn steps * n.weight ≤
      picksOf i (upstreamAfter before) steps * allWeight (upstreamAfter (before ++ steps)) +
        240 * m ∧
    (240 * m < picksIn steps * n.weight → 0 < picksOf i (upstreamAfter before) steps) := by
  have hi := Finset.mem_range.mp (mem_range_of_node hn)
  have hw : (upstreamAfter before).weights[i]? = some n.weight := by
    rw [Upstream.weights, List.getElem?_map, hn, Option.map_some]
  have hshared := (abs_le.mp (picks_shared hm hbefore hsteps hi)).2
  have hpaid := paid_le (i := i) steps (upstreamAfter before)
  have hend : steps.foldl nodeStep (upstreamAfter before) = upstreamAfter (before ++ steps) := by
    rw [upstreamAfter, upstreamAfter, List.foldl_append]
  rw [earned_steady steps hw hhealthy] at hshared
  rw [hend] at hpaid
  have hle : picksIn steps * n.weight ≤
      picksOf i (upstreamAfter before) steps * allWeight (upstreamAfter (before ++ steps)) +
        240 * m := by linarith
  refine ⟨hle, fun hlong => Nat.pos_of_ne_zero fun hzero => ?_⟩
  rw [hzero, Nat.cast_zero, zero_mul, zero_add] at hle
  omega

/-- The node that came back is picked beside one that goes down. -/
def steadySteps : List NodeStep := [.call .pick, .judge 1 false, .call .pick]

theorem steady_node_picked_returning :
    ∃ n : UpstreamNode, (upstreamAfter returningSteps).nodes[0]? = some n ∧
      picksIn steadySteps * n.weight ≤
        picksOf 0 (upstreamAfter returningSteps) steadySteps *
          allWeight (upstreamAfter (returningSteps ++ steadySteps)) + 240 * 5 ∧
      ((240 * 5 : Int) < picksIn steadySteps * n.weight →
        0 < picksOf 0 (upstreamAfter returningSteps) steadySteps) := by
  have hsteps : ∀ s ∈ steadySteps, s.AtMost 5 := by decide
  have hnode : ((upstreamAfter returningSteps).nodes[0]?).isSome = true := by decide +kernel
  obtain ⟨n, hn⟩ := Option.isSome_iff_exists.mp hnode
  refine ⟨n, hn, steady_node_picked (by decide) returningSteps_atMost hsteps hn ?_⟩
  exact ⟨fun _ => by decide +kernel, fun h => absurd h (by decide), fun _ => by decide +kernel,
    trivial⟩

end NexusGateway
