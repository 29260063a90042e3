import NexusGateway.WorkerEvents
import NexusGateway.Lib.Streaks

/- The health checker (`health.c`).

   A thread probes every node in turn, round after round. It counts a node's failures in a
   row and marks the node down when the count reaches the threshold; a success marks it up
   and starts the count again. The mark is left as it is in between, and still says at any
   time whether the last `fail_threshold` probes of the node all failed (`healthy_iff`). What a
   round does to the upstream is a sequence of the worker's health steps (`round_marks`).

   What a probe finds is a parameter: in each round, of each node by its index. -/
namespace NexusGateway
open CString Streaks

/-- `nexus_health_checker_t`. The upstream is shared with the worker and kept apart here. -/
structure HealthChecker where
  intervalSec : Int32
  failThreshold : Int32
  failCount : List Int32
  failCount_length : failCount.length = upstreamMaxNodes
  deriving DecidableEq, Repr

/-- `nexus_health_create`. -/
def healthCreate (intervalSec failThreshold : Int32) : HealthChecker where
  intervalSec := intervalSec
  failThreshold := failThreshold
  failCount := List.replicate upstreamMaxNodes 0
  failCount_length := List.length_replicate

/-- A store into `fail_count`. -/
def HealthChecker.setCount (h : HealthChecker) (i : Nat) (count : Int32) : HealthChecker :=
  { h with
    failCount := h.failCount.set i count
    failCount_length := by rw [List.length_set]; exact h.failCount_length }

/-- The body of the inner loop of `run`, for the node at `i`. -/
def probeNode (s : HealthChecker × Upstream) (i : Nat) (ok : Bool) : HealthChecker × Upstream :=
  if ok then (s.1.setCount i 0, setHealthy s.2 i true)
  else
    let count := s.1.failCount.getD i 0 + 1
    (s.1.setCount i count, if count ≥ s.1.failThreshold then setHealthy s.2 i false else s.2)

/-- One round of `run`: every node is probed. -/
def healthRound (s : HealthChecker × Upstream) (probe : Nat → Bool) : HealthChecker × Upstream :=
  (List.range s.2.nodes.length).foldl (fun s i => probeNode s i (probe i)) s

/-- The rounds of `run`. -/
def healthRun (s : HealthChecker × Upstream) (rounds : List (Nat → Bool)) :
    HealthChecker × Upstream :=
  rounds.foldl healthRound s

/-- An upstream with these nodes added. -/
def freshUpstream (nodes : List (Bytes × Int32 × Int)) : Upstream :=
  nodes.foldl (fun u n => (upstreamAddNode u n.1 n.2.1 n.2.2).1) upstreamInit

/-! ## The worker's steps -/

/-- The event loop with another upstream. -/
def EventLoop.withUpstream (l : EventLoop) (u : Upstream) : EventLoop :=
  { l with worker := { l.worker with upstream := u } }

/-- The step is a verdict of the health checker. -/
def WorkerStep.IsHealth : WorkerStep → Prop
  | .event _ => False
  | .health _ _ => True

theorem probeNode_marks (h : HealthChecker) (l : EventLoop) (i : Nat) (ok : Bool) :
    ∃ steps : List WorkerStep, (∀ s ∈ steps, s.IsHealth) ∧
      steps.foldl EventLoop.step l =
        l.withUpstream (probeNode (h, l.worker.upstream) i ok).2 := by
  unfold probeNode
  split
  · exact ⟨[.health i true], by simp [WorkerStep.IsHealth], rfl⟩
  · dsimp only
    split
    · exact ⟨[.health i false], by simp [WorkerStep.IsHealth], rfl⟩
    · exact ⟨[], by simp, rfl⟩

/-- **What a round does to the worker** is a sequence of its health steps. -/
theorem round_marks (h : HealthChecker) (l : EventLoop) (probe : Nat → Bool) :
    ∃ steps : List WorkerStep, (∀ s ∈ steps, s.IsHealth) ∧
      steps.foldl EventLoop.step l =
        l.withUpstream (healthRound (h, l.worker.upstream) probe).2 := by
  rw [healthRound]
  generalize List.range _ = nodes
  induction nodes using List.reverseRecOn with
  | nil => exact ⟨[], by simp, rfl⟩
  | append_singleton nodes i ih =>
    obtain ⟨steps, hhealth, hsteps⟩ := ih
    rw [List.foldl_append, List.foldl_cons, List.foldl_nil]
    generalize nodes.foldl _ _ = s at hsteps ⊢
    obtain ⟨more, hmore, hlast⟩ := probeNode_marks s.1 (l.withUpstream s.2) i (probe i)
    refine ⟨steps ++ more, fun a ha => ?_, ?_⟩
    · exact (List.mem_append.mp ha).elim (hhealth a) (hmore a)
    · rw [List.foldl_append, hsteps, hlast]
      rfl

/-! ## One node -/

/-- What is kept of a node. -/
structure NodeMark where
  count : Int32
  healthy : Bool
  deriving DecidableEq, Repr

/-- What a probe makes of it. -/
def NodeMark.judge (threshold : Int32) (m : NodeMark) (ok : Bool) : NodeMark :=
  if ok then ⟨0, true⟩ else ⟨m.count + 1, if m.count + 1 ≥ threshold then false else m.healthy⟩

def NodeMark.fresh : NodeMark := ⟨0, true⟩

/-- The count is the streak of failures, and the mark says whether it has reached the
    threshold. -/
structure NodeMark.Tells (threshold : Int32) (results : List Bool) (m : NodeMark) : Prop where
  count : m.count.toInt = streak results
  healthy : m.healthy = true ↔ ¬ threshold.toInt ≤ streak results

theorem NodeMark.tells_judge {threshold : Int32} (hthreshold : 1 ≤ threshold) {results : List Bool}
    {m : NodeMark} (h : m.Tells threshold results) {ok : Bool}
    (hfew : (results ++ [ok]).countP (!·) < 2 ^ 31) :
    (m.judge threshold ok).Tells threshold (results ++ [ok]) := by
  have hpos : 1 ≤ threshold.toInt := by simpa [Int32.le_iff_toInt_le] using hthreshold
  cases ok with
  | true => exact ⟨by simp [judge], by simp [judge]; omega⟩
  | false =>
    have hle := streak_le_count (results ++ [false])
    rw [streak_failure] at hle
    have hcount : (m.count + 1).toInt = streak results + 1 := by
      rw [Int32.toInt_add, h.count]
      exact Int.bmod_eq_of_le (by simp; omega) (by simp; omega)
    refine ⟨by simp [judge, hcount], ?_⟩
    have hreached : m.count + 1 ≥ threshold ↔ threshold.toInt ≤ streak results + 1 := by
      rw [ge_iff_le, Int32.le_iff_toInt_le, hcount]
    by_cases hdown : threshold.toInt ≤ streak results + 1
    · simp [judge, hreached.mpr hdown, hdown]
    · have hup : m.healthy = true := h.healthy.mpr (by omega)
      simp [judge, mt hreached.mp hdown, hdown, hup]

/-- One node over all its probes. -/
theorem NodeMark.tells_run {threshold : Int32} (hthreshold : 1 ≤ threshold) (results : List Bool)
    (hfew : results.countP (!·) < 2 ^ 31) :
    (results.foldl (NodeMark.judge threshold) .fresh).Tells threshold results := by
  induction results using List.reverseRecOn with
  | nil =>
    have hpos : 1 ≤ threshold.toInt := by simpa [Int32.le_iff_toInt_le] using hthreshold
    exact ⟨by simp [fresh], by simp [fresh]; omega⟩
  | append_singleton results ok ih =>
    rw [List.foldl_append]
    apply tells_judge hthreshold _ hfew
    apply ih
    rw [List.countP_append] at hfew
    omega

/-! ## All nodes -/

/-- What is kept of the node at `i`. -/
def nodeMark (s : HealthChecker × Upstream) (i : Nat) : Option NodeMark :=
  (s.2.nodes[i]?).map fun n => ⟨s.1.failCount.getD i 0, n.healthy⟩

theorem nodeMark_setCount (h : HealthChecker) (u : Upstream) {i : Nat} (hi : i < u.nodes.length)
    (count : Int32) (j : Nat) :
    nodeMark (h.setCount i count, u) j =
      if j = i then (nodeMark (h, u) i).map (fun m => { m with count := count })
      else nodeMark (h, u) j := by
  have hcount : i < h.failCount.length := by
    have hmax := u.nodes_le
    rw [h.failCount_length]
    omega
  by_cases hj : j = i
  · subst hj
    simp [nodeMark, HealthChecker.setCount, hcount, Function.comp_def]
  · simp [nodeMark, HealthChecker.setCount, hj, Ne.symm hj]

theorem nodeMark_setHealthy (h : HealthChecker) (u : Upstream) (i : Nat) (healthy : Bool) (j : Nat) :
    nodeMark (h, setHealthy u i healthy) j =
      if j = i then (nodeMark (h, u) i).map (fun m => { m with healthy := healthy })
      else nodeMark (h, u) j := by
  by_cases hj : j = i
  · subst hj
    simp [nodeMark, setHealthy, Function.comp_def]
  · simp [nodeMark, setHealthy, hj, Ne.symm hj]

/-- A probe judges its node, and no other. -/
theorem nodeMark_probeNode (s : HealthChecker × Upstream) {i : Nat} (hi : i < s.2.nodes.length)
    (ok : Bool) (j : Nat) :
    nodeMark (probeNode s i ok) j =
      if j = i then (nodeMark s i).map (fun m => m.judge s.1.failThreshold ok)
      else nodeMark s j := by
  have hset (healthy : Bool) : i < (setHealthy s.2 i healthy).nodes.length := by
    simpa [setHealthy] using hi
  obtain ⟨n, hn⟩ : ∃ n, s.2.nodes[i]? = some n := ⟨_, List.getElem?_eq_getElem hi⟩
  have hmark : nodeMark s i = some ⟨s.1.failCount.getD i 0, n.healthy⟩ := by simp [nodeMark, hn]
  unfold probeNode
  split
  · rename_i hok
    rw [nodeMark_setCount _ _ (hset true), nodeMark_setHealthy, nodeMark_setHealthy]
    by_cases hj : j = i <;> simp [hj, hmark, NodeMark.judge, hok]
  · rename_i hfailed
    dsimp only
    split
    · rename_i hdown
      rw [nodeMark_setCount _ _ (hset false), nodeMark_setHealthy, nodeMark_setHealthy]
      by_cases hj : j = i <;> simp_all [NodeMark.judge]
    · rename_i hup
      rw [nodeMark_setCount _ _ hi]
      by_cases hj : j = i <;> simp_all [NodeMark.judge]

theorem probeNode_keeps (s : HealthChecker × Upstream) (i : Nat) (ok : Bool) :
    (probeNode s i ok).1.failThreshold = s.1.failThreshold ∧
    (probeNode s i ok).2.nodes.length = s.2.nodes.length := by
  unfold probeNode
  split
  · simp [HealthChecker.setCount, setHealthy]
  · dsimp only
    split <;> simp [HealthChecker.setCount, setHealthy]

/-- A round judges every node by its own probe. -/
theorem nodeMark_healthRound (s : HealthChecker × Upstream) (probe : Nat → Bool) :
    (healthRound s probe).1.failThreshold = s.1.failThreshold ∧
    (healthRound s probe).2.nodes.length = s.2.nodes.length ∧
    ∀ i, nodeMark (healthRound s probe) i =
      (nodeMark s i).map (fun m => m.judge s.1.failThreshold (probe i)) := by
  -- the nodes in front of `k` have been judged
  have hloop : ∀ k ≤ s.2.nodes.length,
      let t := (List.range k).foldl (fun s i => probeNode s i (probe i)) s
      t.1.failThreshold = s.1.failThreshold ∧ t.2.nodes.length = s.2.nodes.length ∧
      ∀ i, nodeMark t i = if i < k then
        (nodeMark s i).map (fun m => m.judge s.1.failThreshold (probe i)) else nodeMark s i := by
    intro k
    induction k with
    | zero => simp
    | succ k ih =>
      intro hk
      obtain ⟨hthreshold, hlen, hmarks⟩ := ih (by omega)
      rw [List.range_succ, List.foldl_append]
      simp only [List.foldl_cons, List.foldl_nil]
      obtain ⟨hkeep, hkeepLen⟩ := probeNode_keeps
        ((List.range k).foldl (fun s i => probeNode s i (probe i)) s) k (probe k)
      refine ⟨hkeep.trans hthreshold, hkeepLen.trans hlen, fun i => ?_⟩
      rw [nodeMark_probeNode _ (by omega), hthreshold, hmarks, hmarks]
      by_cases hi : i = k
      · simp [hi]
      · simp [hi, show i < k + 1 ↔ i < k by omega]
  obtain ⟨hthreshold, hlen, hmarks⟩ := hloop s.2.nodes.length (Nat.le_refl _)
  refine ⟨hthreshold, hlen, fun i => ?_⟩
  rw [healthRound, hmarks]
  split
  · rfl
  · rename_i hpast
    simp [nodeMark, List.getElem?_eq_none (Nat.le_of_not_lt hpast)]

/-- All rounds judge every node by its own probes. -/
theorem nodeMark_healthRun (rounds : List (Nat → Bool)) : ∀ s : HealthChecker × Upstream,
    (healthRun s rounds).2.nodes.length = s.2.nodes.length ∧
    ∀ i, nodeMark (healthRun s rounds) i = (nodeMark s i).map
      (fun m => (rounds.map (fun probe => probe i)).foldl (NodeMark.judge s.1.failThreshold) m) := by
  induction rounds with
  | nil => simp [healthRun]
  | cons probe rounds ih =>
    intro s
    obtain ⟨hthreshold, hlen, hround⟩ := nodeMark_healthRound s probe
    obtain ⟨hlater, hmarks⟩ := ih (healthRound s probe)
    refine ⟨hlater.trans hlen, fun i => (hmarks i).trans ?_⟩
    simp [hround, hthreshold, Function.comp_def]

/-! ## Fresh nodes -/

theorem upstreamAddNode_nodes (u : Upstream) (host : Bytes) (port : Int32) (weight : Int)
    (hroom : u.nodes.length < upstreamMaxNodes) :
    ∃ n : UpstreamNode, n.healthy = true ∧
      (upstreamAddNode u host port weight).1.nodes = u.nodes ++ [n] := by
  unfold upstreamAddNode
  rw [dif_neg (by omega)]
  exact ⟨_, rfl, rfl⟩

theorem freshUpstream_nodes (nodes : List (Bytes × Int32 × Int)) (h : nodes.length ≤ upstreamMaxNodes) :
    (freshUpstream nodes).nodes.length = nodes.length ∧
    ∀ n ∈ (freshUpstream nodes).nodes, n.healthy = true := by
  induction nodes using List.reverseRecOn with
  | nil => simp [freshUpstream, upstreamInit]
  | append_singleton nodes node ih =>
    rw [List.length_append, List.length_singleton] at h
    obtain ⟨hlen, hup⟩ := ih (by omega)
    obtain ⟨n, hn, hnodes⟩ := upstreamAddNode_nodes (freshUpstream nodes) node.1 node.2.1 node.2.2
      (by omega)
    have hfresh : (freshUpstream (nodes ++ [node])).nodes = (freshUpstream nodes).nodes ++ [n] := by
      rw [← hnodes]
      simp [freshUpstream]
    rw [hfresh]
    refine ⟨by simp [hlen], fun m hm => ?_⟩
    obtain hm | rfl := by simpa using hm
    · exact hup m hm
    · exact hn

/-- The last `n` probes of the node exist, and all failed. -/
def LastFailed (n : Int) (rounds : List (Nat → Bool)) (i : Nat) : Prop :=
  n ≤ rounds.length ∧ ∀ probe ∈ rounds.drop (rounds.length - n.toNat), probe i = false

/-- **Which nodes are marked healthy.** For every threshold of at least 1, up to 16 nodes just
    added and every rounds of probes, as long as no node fails 2^31 times: after them a node is
    marked healthy exactly when it is not so that its last `fail_threshold` probes exist and
    all failed, whatever the probes of the others. -/
theorem healthy_iff {threshold : Int32} (hthreshold : 1 ≤ threshold) (interval : Int32)
    {nodes : List (Bytes × Int32 × Int)} (hnodes : nodes.length ≤ upstreamMaxNodes)
    (rounds : List (Nat → Bool))
    (hfew : ∀ i < nodes.length, rounds.countP (fun probe => !probe i) < 2 ^ 31) :
    (healthRun (healthCreate interval threshold, freshUpstream nodes) rounds).2.nodes.length =
      nodes.length ∧
    ∀ i n, (healthRun (healthCreate interval threshold, freshUpstream nodes) rounds).2.nodes[i]? =
      some n → (n.healthy = true ↔ ¬ LastFailed threshold.toInt rounds i) := by
  obtain ⟨hlen, hup⟩ := freshUpstream_nodes nodes hnodes
  obtain ⟨hrunLen, hmarks⟩ :=
    nodeMark_healthRun rounds (healthCreate interval threshold, freshUpstream nodes)
  refine ⟨hrunLen.trans hlen, fun i n hn => ?_⟩
  have hi : i < nodes.length :=
    (hrunLen.trans hlen) ▸ (List.getElem?_eq_some_iff.mp hn).1
  obtain ⟨m, hm⟩ : ∃ m, (freshUpstream nodes).nodes[i]? = some m :=
    ⟨_, List.getElem?_eq_getElem (by omega)⟩
  have hfresh : nodeMark (healthCreate interval threshold, freshUpstream nodes) i =
      some .fresh := by
    have hmax : i < upstreamMaxNodes := by omega
    simp [nodeMark, hm, hup m (List.mem_of_getElem? hm), healthCreate, NodeMark.fresh, hmax]
  have hmark := hmarks i
  rw [hfresh, nodeMark, hn, Option.map_some, Option.map_some, Option.some.injEq] at hmark
  have htells := NodeMark.tells_run hthreshold (rounds.map (fun probe => probe i))
    (by simpa [List.countP_map, Function.comp_def] using hfew i hi)
  rw [show (healthCreate interval threshold, freshUpstream nodes).1.failThreshold = threshold from rfl]
    at hmark
  rw [← hmark] at htells
  have hpos : 1 ≤ threshold.toInt := by simpa [Int32.le_iff_toInt_le] using hthreshold
  have hstreak := le_streak_iff (rounds.map (fun probe => probe i)) threshold.toInt.toNat
  rw [htells.healthy, LastFailed]
  apply not_congr
  calc threshold.toInt ≤ streak (rounds.map (fun probe => probe i))
      ↔ threshold.toInt.toNat ≤ streak (rounds.map (fun probe => probe i)) := by omega
    _ ↔ _ := by
      rw [hstreak, List.length_map, ← List.map_drop, List.forall_mem_map]
      refine and_congr_left fun _ => ?_
      omega

/-- Two nodes, a threshold of 2: the first fails twice and then answers, the second fails in
    the last two of three rounds. -/
theorem healthy_iff_two_nodes :
    let rounds : List (Nat → Bool) := [fun i => i == 1, fun _ => false, fun i => i == 0]
    (healthRun (healthCreate 1 2, freshUpstream [(ascii "10.0.0.1", 80, 1), (ascii "10.0.0.2", 80, 1)])
      rounds).2.nodes.length = 2 ∧
    ∀ i n, (healthRun (healthCreate 1 2,
        freshUpstream [(ascii "10.0.0.1", 80, 1), (ascii "10.0.0.2", 80, 1)]) rounds).2.nodes[i]? =
      some n → (n.healthy = true ↔ ¬ LastFailed 2 rounds i) :=
  @healthy_iff 2 (by decide) 1 _ (by decide) _ fun _ _ =>
    Nat.lt_of_le_of_lt List.countP_le_length (by decide)

end NexusGateway
