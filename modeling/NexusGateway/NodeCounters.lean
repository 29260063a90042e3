import NexusGateway.Upstream
import NexusGateway.Lib.Runs
import Mathlib.Tactic.Ring

/- The counters of the upstream nodes over any sequence of calls (`upstream.c`).

   Nodes are added, marked and chosen in any order. A choice adds to the counters of the
   healthy nodes what it takes from one of them, whichever nodes are healthy at the time,
   and a node that is down keeps its counter until it is back. So the counters sum to
   zero in every state reached (`counters_balanced`). -/
namespace NexusGateway
open CString

/-- `nexus_upstream_mark`. -/
def upstreamMark (u : Upstream) (host : Bytes) (port : Int32) (healthy : Int32) : Upstream :=
  { u with
    nodes := u.nodes.map fun n =>
      if n.port = port ∧ strEq n.host.text host = true then { n with healthy := healthy != 0 } else n
    nodes_le := by rw [List.length_map]; exact u.nodes_le }

/-- A call that changes the upstream. -/
inductive UpstreamCall where
  | addNode (host : Bytes) (port : Int32) (weight : Int)
  | mark (host : Bytes) (port : Int32) (healthy : Int32)
  | pick

/-- The upstream after a call. -/
def upstreamCall (u : Upstream) : UpstreamCall → Upstream
  | .addNode host port weight => (upstreamAddNode u host port weight).1
  | .mark host port healthy => upstreamMark u host port healthy
  | .pick => (upstreamPick u).1

/-- The sum of the counters. -/
def countersSum (nodes : List UpstreamNode) : Int := (nodes.map UpstreamNode.activeConns).sum

/-! ## What each call does to the sum -/

theorem countersSum_addNode (u : Upstream) (host : Bytes) (port : Int32) (weight : Int) :
    countersSum (upstreamAddNode u host port weight).1.nodes = countersSum u.nodes := by
  unfold upstreamAddNode
  split
  · rfl
  · simp [countersSum]

theorem countersSum_mark (u : Upstream) (host : Bytes) (port healthy : Int32) :
    countersSum (upstreamMark u host port healthy).nodes = countersSum u.nodes := by
  unfold countersSum upstreamMark
  rw [List.map_map]
  congr 1
  apply List.map_congr_left
  intro n _
  rw [Function.comp_apply]
  split <;> rfl

theorem countersSum_raise (nodes : List UpstreamNode) :
    countersSum (nodes.map UpstreamNode.raise) = countersSum nodes + healthyWeight nodes := by
  rw [healthyWeight_eq, countersSum, countersSum, List.map_map]
  induction nodes with
  | nil => rfl
  | cons n ns ih =>
    have hn : n.raise.activeConns = n.activeConns + if n.healthy then n.weight else 0 := by
      unfold UpstreamNode.raise
      split
      · rfl
      · rw [Int.add_zero]
    simp only [List.map_cons, List.sum_cons, Function.comp_apply] at ih ⊢
    rw [ih, hn]
    ring

theorem countersSum_pay (total : Int) {nodes : List UpstreamNode} {i : Nat}
    (h : i < nodes.length) :
    countersSum (nodes.modify i (UpstreamNode.pay total)) = countersSum nodes - total := by
  unfold countersSum
  induction nodes generalizing i with
  | nil => cases h
  | cons n ns ih =>
    cases i with
    | zero =>
      rw [List.modify_zero_cons, List.map_cons, List.sum_cons, List.map_cons, List.sum_cons]
      show n.activeConns - total + _ = _
      ring
    | succ i =>
      rw [List.modify_succ_cons, List.map_cons, List.sum_cons, List.map_cons, List.sum_cons,
        ih (Nat.lt_of_succ_lt_succ h)]
      ring

/-- A choice takes from one node what it gives to all. -/
theorem countersSum_pick (u : Upstream) :
    countersSum (upstreamPick u).1.nodes = countersSum u.nodes := by
  obtain ⟨_, hnodes, _⟩ | ⟨best, n, hn, _, _, hnodes, _⟩ := upstreamPick_cases u
  · rw [hnodes]
  · have hlt : best < (u.nodes.map UpstreamNode.raise).length := by
      rw [List.length_map]
      exact (List.getElem?_eq_some_iff.mp hn).1
    rw [hnodes, countersSum_pay _ hlt, countersSum_raise]
    ring

theorem countersSum_call (u : Upstream) (call : UpstreamCall) :
    countersSum (upstreamCall u call).nodes = countersSum u.nodes := by
  cases call with
  | addNode host port weight => exact countersSum_addNode u host port weight
  | mark host port healthy => exact countersSum_mark u host port healthy
  | pick => exact countersSum_pick u

/-! ## Any sequence of calls -/

theorem countersSum_calls (calls : List UpstreamCall) :
    countersSum (calls.foldl upstreamCall upstreamInit).nodes = 0 := by
  have hkeep {u u' : Upstream} {call : UpstreamCall} (hu : countersSum u.nodes = 0)
      (hcall : some (upstreamCall u call) = some u') : countersSum u'.nodes = 0 := by
    cases hcall
    rw [countersSum_call, hu]
  exact Runs.run_keeps hkeep calls rfl (Runs.run_total upstreamCall calls upstreamInit)

/-- `NULL` is returned exactly when no node is healthy. -/
theorem upstreamPick_eq_none (u : Upstream) :
    (upstreamPick u).2 = none ↔ ∀ n ∈ u.nodes, n.healthy = false := by
  obtain ⟨hall, _, hnone⟩ | ⟨best, n, hn, hh, _, _, hsome⟩ := upstreamPick_cases u
  · exact iff_of_true hnone hall
  · refine iff_of_false (fun h => ?_) (fun hall => ?_)
    · rw [hsome] at h
      cases h
    · rw [hall n (List.mem_of_getElem? hn)] at hh
      cases hh

/-- **The counters are balanced and every choice is of a healthy node.** After any calls
    the counters sum to zero; a choice then returns `NULL` exactly when no node is healthy,
    with every node as it was, and else returns a healthy node of the upstream. -/
theorem counters_balanced (calls : List UpstreamCall) :
    let u := calls.foldl upstreamCall upstreamInit
    countersSum u.nodes = 0 ∧
    ((upstreamPick u).2 = none ↔ ∀ n ∈ u.nodes, n.healthy = false) ∧
    ((upstreamPick u).2 = none → (upstreamPick u).1.nodes = u.nodes) ∧
    ∀ n, (upstreamPick u).2 = some n → n ∈ (upstreamPick u).1.nodes ∧ n.healthy = true := by
  intro u
  refine ⟨countersSum_calls calls, upstreamPick_eq_none u, fun hnull => ?_, fun n hn =>
    ⟨?_, upstreamPick_healthy hn⟩⟩
  · obtain ⟨_, hnodes, _⟩ | ⟨_, _, _, _, _, _, hsome⟩ := upstreamPick_cases u
    · exact hnodes
    · rw [hsome] at hnull
      cases hnull
  · rw [pickIndex_spec] at hn
    obtain ⟨i, _, hi⟩ := Option.bind_eq_some_iff.mp hn
    exact List.mem_of_getElem? hi

/-- A node that was marked down keeps the counter it had, and the sum with it. -/
example : ((([.addNode (ascii "a") 1 3, .addNode (ascii "b") 2 1, .pick, .mark (ascii "a") 1 0,
    .pick, .mark (ascii "a") 1 1] : List UpstreamCall).foldl upstreamCall upstreamInit).nodes.map
      UpstreamNode.activeConns) = [-1, 1] := by
  decide +kernel

end NexusGateway
