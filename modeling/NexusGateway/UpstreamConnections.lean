import NexusGateway.BlacklistedClients
import NexusGateway.HealthChecks
import NexusGateway.WeightedPicks

/- Where a worker connects to.

   A worker has at most one node, that of `[upstream.api] server`, and its health checker
   judges it by what it has probed. In every run the node is the configured one with the last
   verdict on it (`node_run`), and a run of the loop and the checker's thread is a run with
   verdicts (`judged_run`). So a worker connects to that server and no other, exactly for the
   requests that have passed every check, and as long as the last two probes have not both
   failed (`connects_while_answering`). -/
namespace NexusGateway
open CString Runs

/-! ## The node -/

/-- The host and the port of `[upstream.api] server`. -/
def serverAddr (cfg : Config) : Option (Bytes × Int32) :=
  (configGet cfg (ascii "upstream.api") (ascii "server")).bind upstreamAddr

/-- The last verdict on the node; it is up before the first. -/
def nodeUp (steps : List WorkerStep) : Bool :=
  steps.foldl (fun up a => match a with
    | .health 0 healthy => healthy
    | _ => up) true

/-- The nodes, without their counters, are the server's with this verdict. -/
structure NodeIs (addr : Option (Bytes × Int32)) (up : Bool) (nodes : List UpstreamNode) : Prop where
  host : nodes.map (fun n => (n.host, n.port)) =
    addr.toList.map fun a => (CharArray.snprintf size64_pos a.1, a.2)
  healthy : ∀ n ∈ nodes, n.healthy = up

theorem nodeIs_start (cfg : Config) : NodeIs (serverAddr cfg) true (startUpstream cfg).nodes := by
  unfold startUpstream serverAddr
  cases (configGet cfg (ascii "upstream.api") (ascii "server")).bind upstreamAddr with
  | none => exact ⟨rfl, fun n hn => by cases hn⟩
  | some addr =>
    refine ⟨rfl, fun n hn => ?_⟩
    rw [List.mem_singleton.mp hn]

theorem NodeIs.cases {addr : Option (Bytes × Int32)} {up : Bool} {nodes : List UpstreamNode}
    (h : NodeIs addr up nodes) : (nodes = [] ∧ addr = none) ∨
      ∃ n a, nodes = [n] ∧ addr = some a ∧ n.host = CharArray.snprintf size64_pos a.1 ∧
        n.port = a.2 ∧ n.healthy = up := by
  have hhost := h.host
  cases addr with
  | none => exact .inl ⟨List.map_eq_nil_iff.mp hhost, rfl⟩
  | some a =>
    rw [Option.toList_some, List.map_singleton, List.map_eq_singleton_iff] at hhost
    obtain ⟨n, rfl, heq⟩ := hhost
    obtain ⟨hhost, hport⟩ := Prod.mk.inj heq
    exact .inr ⟨n, a, rfl, rfl, hhost, hport, h.healthy n (List.mem_singleton_self n)⟩

theorem nodeIs_one {n : UpstreamNode} {a : Bytes × Int32}
    (hhost : n.host = CharArray.snprintf size64_pos a.1) (hport : n.port = a.2) :
    NodeIs (some a) n.healthy [n] := by
  refine ⟨?_, fun m hm => by rw [List.mem_singleton.mp hm]⟩
  rw [List.map_singleton, hhost, hport]
  rfl

theorem NodeIs.pick {addr : Option (Bytes × Int32)} {up : Bool} {u : Upstream}
    (h : NodeIs addr up u.nodes) : NodeIs addr up (upstreamPick u).1.nodes := by
  have hidle : (upstreamPick u).1.nodes.map UpstreamNode.idle = u.nodes.map UpstreamNode.idle := by
    apply List.ext_getElem?
    intro i
    rw [List.getElem?_map, List.getElem?_map]
    exact (upstreamPick_nodes u i).1
  obtain ⟨hnodes, rfl⟩ | ⟨n, a, hnodes, rfl, hhost, hport, rfl⟩ := h.cases
  · rw [hnodes] at hidle
    rw [List.map_eq_nil_iff.mp hidle]
    exact ⟨rfl, fun m hm => by cases hm⟩
  · rw [hnodes, List.map_singleton, List.map_eq_singleton_iff] at hidle
    obtain ⟨m, hm, hsame⟩ := hidle
    rw [hm, ← (UpstreamNode.idle_eq hsame).2]
    exact nodeIs_one ((congrArg UpstreamNode.host hsame).trans hhost)
      ((congrArg UpstreamNode.port hsame).trans hport)

theorem NodeIs.judge {addr : Option (Bytes × Int32)} {up : Bool} {u : Upstream}
    (h : NodeIs addr up u.nodes) (node : Nat) (healthy : Bool) :
    NodeIs addr (if node = 0 then healthy else up) (setHealthy u node healthy).nodes := by
  unfold setHealthy
  dsimp only
  obtain ⟨hnodes, rfl⟩ | ⟨n, a, hnodes, rfl, hhost, hport, rfl⟩ := h.cases
  · rw [hnodes]
    cases node <;> exact ⟨rfl, fun m hm => by cases hm⟩
  · rw [hnodes]
    cases node with
    | zero => exact nodeIs_one (n := { n with healthy := healthy }) hhost hport
    | succ node =>
      rw [if_neg (Nat.succ_ne_zero node), List.modify_succ_cons, List.modify_nil]
      exact nodeIs_one hhost hport

/-- **The node of a run** is the configured one with the last verdict on it. -/
theorem node_run {cfg : Config} {s₀ s : LoopWorld} (hworker : s₀.loop.worker = startWorker cfg)
    {steps : List WorkerStep} (hrun : run LoopWorld.step s₀ steps = some s) :
    NodeIs (serverAddr cfg) (nodeUp steps) s.loop.worker.upstream.nodes := by
  refine run_snoc_induction (P := fun steps s =>
    NodeIs (serverAddr cfg) (nodeUp steps) s.loop.worker.upstream.nodes) ?_ ?_ steps hrun
  · rw [hworker]
    exact nodeIs_start cfg
  · intro steps s₁ a s₂ _ ih hstep
    rw [nodeUp, List.foldl_append, List.foldl_cons, List.foldl_nil, ← nodeUp]
    cases a with
    | health node healthy =>
      cases hstep
      have hjudged := ih.judge node healthy
      cases node with
      | zero => exact hjudged
      | succ node => exact hjudged
    | event e =>
      obtain ⟨_, _, hloop, _⟩ := worldStep_some hstep
      obtain ⟨_, u, htables, hu⟩ := onEvent_tables s₁.loop e
      rw [hloop, htables.upstream]
      rcases hu with rfl | rfl
      · exact ih
      · exact ih.pick

theorem NodeIs.picked_iff {addr : Option (Bytes × Int32)} {up : Bool} {u : Upstream}
    (h : NodeIs addr up u.nodes) (host : CharArray 64) (port : Int32) :
    (∃ n, (upstreamPick u).2 = some n ∧ n.host = host ∧ n.port = port) ↔
      up = true ∧ ∃ a, addr = some a ∧ host = CharArray.snprintf size64_pos a.1 ∧ port = a.2 := by
  obtain ⟨hdown, _, hnone⟩ | ⟨best, n, hget, hup, _, _, hsome⟩ := upstreamPick_cases u
  · rw [hnone]
    refine iff_of_false (fun ⟨n, hn, _⟩ => by cases hn) fun ⟨hup, a, ha, _⟩ => ?_
    obtain ⟨_, rfl⟩ | ⟨n, _, hnodes, _, _, _, rfl⟩ := h.cases
    · cases ha
    · rw [hdown n (by rw [hnodes]; exact List.mem_singleton_self n)] at hup
      cases hup
  · have hmem := List.mem_of_getElem? hget
    obtain ⟨hnodes, _⟩ | ⟨m, a, hnodes, rfl, hhost, hport, rfl⟩ := h.cases
    · rw [hnodes] at hmem
      cases hmem
    rw [hnodes] at hmem
    obtain rfl := List.mem_singleton.mp hmem
    have hhost' : (n.raise.pay (healthyWeight u.nodes)).host = n.host := by
      rw [UpstreamNode.raise, if_pos hup]
      rfl
    have hport' : (n.raise.pay (healthyWeight u.nodes)).port = n.port := by
      rw [UpstreamNode.raise, if_pos hup]
      rfl
    rw [hsome]
    constructor
    · rintro ⟨_, hx, rfl, rfl⟩
      cases hx
      exact ⟨hup, a, rfl, hhost'.trans hhost, hport'.trans hport⟩
    · rintro ⟨_, _, ha, rfl, rfl⟩
      cases ha
      exact ⟨_, rfl, hhost'.trans hhost, hport'.trans hport⟩

/-! ## The connections -/

/-- A whole request of the connection that has passed every check and fits its buffer. -/
structure ToUpstream (w : Worker) (c : ProxyConn) (e : Event) : Prop where
  whole : e.request.state = .done
  dynamic : Dynamic w c e.request e.calls.clientRead
  fits : serialized (workerRewrite w c e.request e.calls.clientRead.draw)
    e.calls.clientRead.serializedReq.bytes ≠ none

theorem close_connects_not (w : Worker) (c : ProxyConn) (host : CharArray 64) (port : Int32) :
    .connectUpstream host port ∉ (closeClientConn w c).actions := by
  unfold closeClientConn
  dsimp only
  intro hmem
  rcases List.mem_append.mp hmem with hmem | hmem
  · split at hmem <;> simp at hmem
  · split at hmem <;> simp at hmem

theorem connectUpstream_connects_iff {w : Worker} {c : ProxyConn} {node : UpstreamNode} {ufd : Int}
    {host : CharArray 64} {port : Int32} :
    .connectUpstream host port ∈ (connectUpstream w c node ufd).actions ↔
      node.host = host ∧ node.port = port := by
  have hhead (rest : List Action) (hrest : .connectUpstream host port ∉ rest) :
      .connectUpstream host port ∈ .connectUpstream node.host node.port :: rest ↔
        node.host = host ∧ node.port = port := by
    rw [List.mem_cons, or_iff_left hrest, Action.connectUpstream.injEq, eq_comm (a := host),
      eq_comm (a := port)]
  unfold connectUpstream
  dsimp only
  split
  · exact hhead _ (close_connects_not w c host port)
  · exact hhead _ (by simp)

theorem forwardRequest_connects_iff {w : Worker} {c : ProxyConn} {req : HttpReq}
    {node : UpstreamNode} {k : ClientReadCalls} {host : CharArray 64} {port : Int32} :
    .connectUpstream host port ∈ (forwardRequest w c req node k).actions ↔
      serialized (workerRewrite w c req k.draw) k.serializedReq.bytes ≠ none ∧
        node.host = host ∧ node.port = port := by
  cases htext : serialized (workerRewrite w c req k.draw) k.serializedReq.bytes with
  | none =>
    rw [forwardRequest_none htext]
    exact iff_of_false (close_connects_not w c host port) fun h => h.1 rfl
  | some text =>
    rw [forwardRequest_some htext, connectUpstream_connects_iff]
    exact (and_iff_right (Option.some_ne_none text)).symm

theorem routeRequest_connects_iff {w : Worker} {c : ProxyConn} {req : HttpReq}
    {k : ClientReadCalls} {host : CharArray 64} {port : Int32} :
    .connectUpstream host port ∈ (routeRequest w c req k).actions ↔
      (Dynamic w c req k ∧ serialized (workerRewrite w c req k.draw) k.serializedReq.bytes ≠ none) ∧
        ∃ node, (upstreamPick w.upstream).2 = some node ∧ node.host = host ∧ node.port = port := by
  have hip : (c.saveRequest req).clientIp = c.clientIp := rfl
  have hclosed {w' : Worker} {c' : ProxyConn} {before : List Action}
      (hbefore : .connectUpstream host port ∉ before) :
      .connectUpstream host port ∉ ((closeClientConn w' c').after before).actions := fun hmem =>
    (List.mem_append.mp hmem).elim hbefore (close_connects_not w' c' host port)
  unfold routeRequest
  dsimp only
  rw [hip]
  split
  · rename_i hlisted
    refine iff_of_false (hclosed (by simp)) fun h => ?_
    rw [h.1.1.unlisted] at hlisted
    cases hlisted
  rename_i hunlisted
  split
  · rename_i hrefused
    refine iff_of_false (hclosed (by simp)) fun h => ?_
    rw [h.1.1.admitted] at hrefused
    cases hrefused
  rename_i hadmitted
  split
  · rename_i hstatic
    refine iff_of_false (hclosed (by simp)) fun h => ?_
    rw [h.1.1.dynamic] at hstatic
    cases hstatic
  rename_i hdynamic
  have hpasses : Dynamic w c req k :=
    ⟨Bool.eq_false_iff.mpr hunlisted, by simpa using hadmitted, Bool.eq_false_iff.mpr hdynamic⟩
  split
  · rename_i hnone
    rw [hnone]
    exact iff_of_false (close_connects_not _ _ host port) fun ⟨_, _, hsome, _⟩ => by cases hsome
  · rename_i node hpicked
    rw [hpicked, forwardRequest_connects_iff]
    constructor
    · rintro ⟨hfits, hnode⟩
      exact ⟨⟨hpasses, hfits⟩, node, rfl, hnode⟩
    · rintro ⟨⟨_, hfits⟩, node', hsome, hnode⟩
      cases hsome
      exact ⟨hfits, hnode⟩

theorem clientRead_connects_iff {w : Worker} {c : ProxyConn} {e : Event}
    {host : CharArray 64} {port : Int32} :
    .connectUpstream host port ∈ (handleClientRead w c e.calls.clientRead).actions ↔
      ToUpstream w c e ∧
        ∃ node, (upstreamPick w.upstream).2 = some node ∧ node.host = host ∧ node.port = port := by
  have hnothing : (feed httpReqInit []).1.state ≠ .done := by decide
  cases hread : e.calls.clientRead.read with
  | data bytes hne hfits =>
    have hrequest : e.request = (feed httpReqInit bytes).1 := by rw [Event.request, hread]; rfl
    rw [handleClientRead_data hread]
    by_cases hdone : (feed httpReqInit bytes).1.state = .done
    · rw [if_neg (not_not.mpr hdone), routeRequest_connects_iff, ← hrequest]
      refine and_congr_left' ⟨fun h => ⟨hrequest ▸ hdone, ?_, h.2⟩, fun h => ⟨?_, h.fits⟩⟩
      · exact ⟨h.1.unlisted, h.1.admitted, h.1.dynamic⟩
      · exact ⟨h.dynamic.unlisted, h.dynamic.admitted, h.dynamic.dynamic⟩
    · rw [if_pos hdone]
      exact iff_of_false (close_connects_not w _ host port) fun h => hdone (hrequest ▸ h.1.whole)
  | eof =>
    have hrequest : e.request = (feed httpReqInit []).1 := by rw [Event.request, hread]; rfl
    unfold handleClientRead
    rw [hread]
    exact iff_of_false (close_connects_not w c host port) fun h => hnothing (hrequest ▸ h.1.whole)
  | failed wouldBlock =>
    have hrequest : e.request = (feed httpReqInit []).1 := by rw [Event.request, hread]; rfl
    unfold handleClientRead
    rw [hread]
    exact iff_of_false (close_connects_not w c host port) fun h => hnothing (hrequest ▸ h.1.whole)

theorem handleConn_connects {w : Worker} {c : ProxyConn} {e : Event} {host : CharArray 64}
    {port : Int32} (hmem : .connectUpstream host port ∈ (handleConn w c e.ev e.calls).actions) :
    handlerFor c e.ev = some .clientRead := by
  unfold handleConn at hmem
  split at hmem
  · assumption
  · unfold handleUpstreamWritable at hmem
    dsimp only at hmem
    split at hmem
    · simp at hmem
    split at hmem
    · exact absurd ((List.mem_append.mp hmem).resolve_left (by simp)) (close_connects_not w c host port)
    split at hmem <;> simp at hmem
  · unfold handleUpstreamReadable at hmem
    dsimp only at hmem
    split at hmem
    · simp at hmem
    split at hmem
    · exact absurd ((List.mem_append.mp hmem).resolve_left (by simp)) (close_connects_not w _ host port)
    · exact absurd ((List.mem_append.mp hmem).resolve_left (by simp)) (close_connects_not w c host port)
    · simp at hmem
    · simp at hmem
  · simp at hmem

theorem onEvent_connects {s : LoopWorld} {e : Event} {host : CharArray 64} {port : Int32}
    (hmem : .connectUpstream host port ∈ (onEvent s.loop e).2) :
    ∃ i c, RunsHandler s e i c .clientRead := by
  unfold onEvent at hmem
  split at hmem
  · unfold acceptConn at hmem
    split at hmem
    · simp at hmem
    split at hmem
    · simp at hmem
    split at hmem <;> simp at hmem
  rename_i hother
  split at hmem
  · simp at hmem
  rename_i i hfound
  split at hmem
  · simp at hmem
  · rename_i c hhere
    exact ⟨i, c, hother, hfound, hhere, handleConn_connects hmem⟩

/-- Where a worker connects to, whatever verdicts it is given: an event connects to a host and
    a port exactly when it brings a whole request that passes every check, the last verdict on the
    node is that it is up, and the host and the port are those of `[upstream.api] server`. -/
theorem connects_iff (cfg : Config) {s₀ s : LoopWorld} (hworker : s₀.loop.worker = startWorker cfg)
    {steps : List WorkerStep} (hrun : run LoopWorld.step s₀ steps = some s) (e : Event)
    (host : CharArray 64) (port : Int32) :
    .connectUpstream host port ∈ (onEvent s.loop e).2 ↔
      (∃ i c, RunsHandler s e i c .clientRead ∧ ToUpstream s.loop.worker c e) ∧
      nodeUp steps = true ∧
      ∃ a, serverAddr cfg = some a ∧ host = CharArray.snprintf size64_pos a.1 ∧ port = a.2 := by
  have hpicked := (node_run hworker hrun).picked_iff host port
  have hhandled {i : Nat} {c : ProxyConn} (hruns : RunsHandler s e i c .clientRead) :
      (onEvent s.loop e).2 = (handleClientRead s.loop.worker c e.calls.clientRead).actions := by
    rw [hruns.handled.2, handleConn, hruns.handler]
  constructor
  · intro hmem
    obtain ⟨i, c, hruns⟩ := onEvent_connects hmem
    rw [hhandled hruns] at hmem
    obtain ⟨hto, hnode⟩ := clientRead_connects_iff.mp hmem
    exact ⟨⟨i, c, hruns, hto⟩, hpicked.mp hnode⟩
  · rintro ⟨⟨i, c, hruns, hto⟩, hup⟩
    rw [hhandled hruns]
    exact clientRead_connects_iff.mpr ⟨hto, hpicked.mpr hup⟩

/-! ## The probes -/

/-- A worker with the checker that runs beside its loop. -/
structure ProbedWorld where
  world : LoopWorld
  checker : HealthChecker

/-- What such a worker does: its loop handles an event, or its checker's thread has probed a
    node. -/
inductive ProbedStep where
  | event (e : Event)
  | probe (node : Nat) (ok : Bool)

/-- The world with another upstream. -/
def LoopWorld.withUpstream (s : LoopWorld) (u : Upstream) : LoopWorld :=
  { s with loop := s.loop.withUpstream u }

def ProbedWorld.step (s : ProbedWorld) : ProbedStep → Option ProbedWorld
  | .event e => (s.world.step (.event e)).map fun world => { s with world := world }
  | .probe node ok =>
    -- the thread's loop goes over the nodes there are
    if node < s.world.loop.worker.upstream.nodes.length then
      let probed := probeNode (s.checker, s.world.loop.worker.upstream) node ok
      some ⟨s.world.withUpstream probed.2, probed.1⟩
    else none

/-- As `nexus_worker_run` starts the thread. -/
structure ProbedWorld.Started (cfg : Config) (s : ProbedWorld) : Prop where
  worker : s.world.loop.worker = startWorker cfg
  checker : s.checker = healthCreate 5 2

/-- The results of the probes of a run. -/
def probesOf (steps : List ProbedStep) : List Bool :=
  steps.filterMap fun
    | .probe _ ok => some ok
    | .event _ => none

/-- What the checker keeps of the node. -/
def markAfter (steps : List ProbedStep) : NodeMark := (probesOf steps).foldl (NodeMark.judge 2) .fresh

@[simp] theorem markAfter_event (steps : List ProbedStep) (e : Event) :
    markAfter (steps ++ [.event e]) = markAfter steps := by
  simp [markAfter, probesOf]

@[simp] theorem markAfter_probe (steps : List ProbedStep) (node : Nat) (ok : Bool) :
    markAfter (steps ++ [.probe node ok]) = (markAfter steps).judge 2 ok := by
  simp [markAfter, probesOf]

@[simp] theorem nodeUp_event (steps : List WorkerStep) (e : Event) :
    nodeUp (steps ++ [.event e]) = nodeUp steps := by
  simp [nodeUp]

@[simp] theorem nodeUp_health (steps : List WorkerStep) (healthy : Bool) :
    nodeUp (steps ++ [.health 0 healthy]) = healthy := by
  simp [nodeUp]

/-- The run, as one of a worker that is given verdicts: the last of them is the checker's mark. -/
structure Judged (s₀ : ProbedWorld) (steps : List ProbedStep) (s : ProbedWorld) : Prop where
  run : ∃ verdicts, Runs.run LoopWorld.step s₀.world verdicts = some s.world ∧
    nodeUp verdicts = (markAfter steps).healthy
  count : s.checker.failCount.getD 0 0 = (markAfter steps).count
  threshold : s.checker.failThreshold = 2

theorem run_more {State Step : Type*} {step : State → Step → Option State} {s s₁ s₂ : State}
    {steps : List Step} {a : Step} (hrun : run step s steps = some s₁) (hstep : step s₁ a = some s₂) :
    run step s (steps ++ [a]) = some s₂ := by
  rw [run_append, hrun, Option.bind_some, run, hstep]
  rfl

@[simp] theorem setCount_first (h : HealthChecker) (count : Int32) :
    (h.setCount 0 count).failCount.getD 0 0 = count := by
  have hfirst : 0 < h.failCount.length := by
    rw [h.failCount_length]
    decide
  simp [HealthChecker.setCount, List.getD_eq_getElem?_getD, hfirst]

/-- A probe of the node, where the checker keeps this mark of it, gives the verdict of the next mark
    or none. -/
theorem probeNode_mark {h : HealthChecker} {m : NodeMark} (hcount : h.failCount.getD 0 0 = m.count)
    (hthreshold : h.failThreshold = 2) (u : Upstream) (ok : Bool) :
    (probeNode (h, u) 0 ok).1 = h.setCount 0 (m.judge 2 ok).count ∧
    ((probeNode (h, u) 0 ok).2 = setHealthy u 0 (m.judge 2 ok).healthy ∨
      (probeNode (h, u) 0 ok).2 = u ∧ (m.judge 2 ok).healthy = m.healthy) := by
  cases ok with
  | true => exact ⟨rfl, .inl rfl⟩
  | false =>
    rw [probeNode, NodeMark.judge, if_neg Bool.false_ne_true, if_neg Bool.false_ne_true, hcount,
      hthreshold]
    refine ⟨rfl, ?_⟩
    dsimp only
    split
    · exact .inl rfl
    · exact .inr ⟨rfl, rfl⟩

/-- **A run with probes is a run with verdicts.** -/
theorem judged_run {cfg : Config} {s₀ s : ProbedWorld} (h₀ : s₀.Started cfg)
    {steps : List ProbedStep} (hrun : Runs.run ProbedWorld.step s₀ steps = some s) :
    Judged s₀ steps s := by
  refine run_snoc_induction (P := Judged s₀) ⟨⟨[], rfl, rfl⟩, ?_, ?_⟩ ?_ steps hrun
  · rw [h₀.checker]
    rfl
  · rw [h₀.checker]
    rfl
  intro steps s₁ a s₂ _ ⟨⟨verdicts, hverdicts, hup⟩, hcount, hthreshold⟩ hstep
  cases a with
  | event e =>
    obtain ⟨world, hworld, rfl⟩ := Option.map_eq_some_iff.mp hstep
    refine ⟨⟨verdicts ++ [.event e], run_more hverdicts hworld, ?_⟩, ?_, hthreshold⟩
    · rw [nodeUp_event, markAfter_event, hup]
    · rw [markAfter_event, ← hcount]
  | probe node ok =>
    unfold ProbedWorld.step at hstep
    dsimp only at hstep
    split at hstep
    · rename_i hnode
      cases hstep
      -- there is no other node than the first
      obtain rfl : node = 0 := by
        obtain ⟨hnone, _⟩ | ⟨_, _, hone, _⟩ := (node_run h₀.worker hverdicts).cases
        · rw [hnone] at hnode
          cases hnode
        · rw [hone] at hnode
          exact Nat.lt_one_iff.mp hnode
      obtain ⟨hchecker, hupstream⟩ := probeNode_mark hcount hthreshold s₁.world.loop.worker.upstream ok
      rw [hchecker]
      refine ⟨?_, by rw [markAfter_probe]; exact setCount_first _ _, hthreshold⟩
      rcases hupstream with hverdict | ⟨hsame, hkept⟩
      · rw [hverdict]
        refine ⟨verdicts ++ [.health 0 _], run_more hverdicts rfl, ?_⟩
        rw [nodeUp_health, markAfter_probe]
      · rw [hsame]
        refine ⟨verdicts, hverdicts, ?_⟩
        rw [markAfter_probe, hkept, hup]
    · cases hstep

theorem serverAddr_nulFree {cfg : Config} {a : Bytes × Int32} (h : serverAddr cfg = some a) :
    NulFree a.1 := by
  obtain ⟨v, hv, haddr⟩ := Option.bind_eq_some_iff.mp h
  obtain ⟨kv, _, rfl⟩ := Option.map_eq_some_iff.mp hv
  obtain ⟨i, _, rfl⟩ := Option.map_eq_some_iff.mp haddr
  exact kv.value_line.1.of_sublist (List.take_sublist i _)

/-- **A worker connects while its upstream answers.** For every configuration whose host fits its
    array, every run of a worker started with it and any interleaving with its checker's thread,
    in which fewer than 2^31 probes fail: an event connects to a host and a port exactly when it
    brings a whole request that passes every check, the last two probes have not both failed, and
    the host and the port are those of `[upstream.api] server`. -/
theorem connects_while_answering (cfg : Config) (hhost : ∀ a, serverAddr cfg = some a → a.1.length ≤ 63)
    {s₀ s : ProbedWorld} (h₀ : s₀.Started cfg) {steps : List ProbedStep}
    (hrun : run ProbedWorld.step s₀ steps = some s) (hfew : (probesOf steps).countP (!·) < 2 ^ 31)
    (e : Event) (host : CharArray 64) (port : Int32) :
    .connectUpstream host port ∈ (onEvent s.world.loop e).2 ↔
      (∃ i c, RunsHandler s.world e i c .clientRead ∧ ToUpstream s.world.loop.worker c e) ∧
      ¬ [false, false] <:+ probesOf steps ∧ serverAddr cfg = some (host.text, port) := by
  obtain ⟨⟨verdicts, hverdicts, hup⟩, _, _⟩ := judged_run h₀ hrun
  have htells : (markAfter steps).Tells 2 (probesOf steps) := NodeMark.tells_run (by decide) _ hfew
  have hanswers : nodeUp verdicts = true ↔ ¬ [false, false] <:+ probesOf steps := by
    rw [hup, htells.healthy]
    exact not_congr (Int.ofNat_le.trans (Streaks.le_streak_iff_suffix (probesOf steps) 2))
  have hwhole {a : Bytes × Int32} (ha : serverAddr cfg = some a) :
      (CharArray.snprintf size64_pos a.1).text = a.1 := by
    calc (CharArray.snprintf size64_pos a.1).text = a.1.take 63 :=
          congrArg (List.take 63) (cstr_of_nulFree (serverAddr_nulFree ha))
      _ = a.1 := List.take_of_length_le (hhost a ha)
  rw [connects_iff cfg h₀.worker hverdicts, hanswers]
  refine and_congr_right' (and_congr_right' ⟨?_, fun haddr => ?_⟩)
  · rintro ⟨a, ha, rfl, rfl⟩
    rw [hwhole ha, ha]
  · exact ⟨_, haddr, CharArray.ext (hwhole haddr).symm, rfl⟩

/-- A worker with an upstream as it enters its loop, beside its checker. -/
def servedConfig : Config := configLoad (ascii "[upstream.api]\nserver = 127.0.0.1:9001\n")

def servedWorld : ProbedWorld :=
  ⟨⟨⟨startWorker servedConfig, poolInit, 5, 0⟩, sampleWorld.table⟩, healthCreate 5 2⟩

/-- A request is taken to the upstream behind one probe that failed, but not behind two. -/
theorem connects_while_answering_served : ∃ s s',
    run ProbedWorld.step servedWorld [.event (acceptEvent 7), .probe 0 false] = some s ∧
    run ProbedWorld.step servedWorld [.event (acceptEvent 7), .probe 0 false, .probe 0 false] =
      some s' ∧
    (∃ i c, RunsHandler s.world (requestEvent 7 8) i c .clientRead ∧
      ToUpstream s.world.loop.worker c (requestEvent 7 8)) ∧
    .connectUpstream (.snprintf size64_pos (ascii "127.0.0.1")) 9001 ∉
      (onEvent s'.world.loop (requestEvent 7 8)).2 := by
  have hone : (run ProbedWorld.step servedWorld [.event (acceptEvent 7), .probe 0 false]).map (fun s =>
      decide (.connectUpstream (.snprintf size64_pos (ascii "127.0.0.1")) 9001 ∈
        (onEvent s.world.loop (requestEvent 7 8)).2)) = some true := by decide +kernel
  have htwo : (run ProbedWorld.step servedWorld
      [.event (acceptEvent 7), .probe 0 false, .probe 0 false]).isSome = true := by decide +kernel
  have hhost : ∀ a, serverAddr servedConfig = some a → a.1.length ≤ 63 := by
    rw [show serverAddr servedConfig = some (ascii "127.0.0.1", 9001) by decide +kernel]
    intro a ha
    cases ha
    decide
  obtain ⟨s, hs, hmem⟩ := Option.map_eq_some_iff.mp hone
  obtain ⟨s', hs'⟩ := Option.isSome_iff_exists.mp htwo
  refine ⟨s, s', hs, hs', ?_, fun hmem' => ?_⟩
  · exact ((connects_while_answering servedConfig hhost ⟨rfl, rfl⟩ hs (by decide) (requestEvent 7 8) _
      9001).mp (of_decide_eq_true hmem)).1
  · have hanswers := ((connects_while_answering servedConfig hhost ⟨rfl, rfl⟩ hs' (by decide)
      (requestEvent 7 8) _ 9001).mp hmem').2.1
    exact hanswers (List.suffix_refl _)

end NexusGateway
