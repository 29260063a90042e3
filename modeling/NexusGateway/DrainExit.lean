import NexusGateway.ActiveCount
import NexusGateway.Generations

/- When a worker leaves its event loop.

   The test at the end of the loop looks at the count of active connections and at two
   loads of shared words, made one after the other. The count never falls below the
   number of slots that hold a client (`Covers`), so a worker that leaves has none
   (`drain_exit`); the generation is greater than its own in the state in which it
   leaves, and `shutting_down` was set when it loaded it after its last wait. It need not
   be set any more (`left_after_clear`). -/
namespace NexusGateway

/-! ## The count and the slots -/

/-- The count of active connections is no less than the slots that hold a client. -/
structure Covers (l : EventLoop) : Prop where
  nonneg : ∀ c ∈ l.pool.slots, 0 ≤ c.fd
  counted : (l.pool.clients : Int) ≤ l.worker.activeConns

theorem slotStep_covers {c c' : ProxyConn} {active active' : Int} {ev : UInt32} {k : EventCalls}
    {ops : List Descriptors.Op} (h : SlotStep c active ev k c' active' ops) (hc : 0 ≤ c.fd) :
    0 ≤ c'.fd ∧ active + c'.client ≤ active' + c.client := by
  cases h with
  | kept => exact ⟨hc, le_refl _⟩
  | connected _ _ hfd => exact ⟨hfd ▸ hc, by rw [client_of_fd hfd]⟩
  | sent _ hfd => exact ⟨hfd ▸ hc, by rw [client_of_fd hfd]⟩
  | released _ hfd =>
    rw [afterClose_eq, client_zero hfd]
    exact ⟨hfd.ge, by omega⟩
  | releasedTwice _ _ hfd =>
    rw [afterClose_eq, client_zero hfd]
    exact ⟨hfd.ge, by omega⟩
  | dropped _ _ hfd =>
    rw [client_zero hfd]
    exact ⟨hfd.ge, by omega⟩

theorem nonneg_set {pool pool' : Pool} {i : Nat} {c' : ProxyConn}
    (hpool : pool'.slots = pool.slots.set i c') (hc' : 0 ≤ c'.fd) (h : ∀ c ∈ pool.slots, 0 ≤ c.fd) :
    ∀ c ∈ pool'.slots, 0 ≤ c.fd := by
  intro c hc
  rw [hpool] at hc
  obtain hold | rfl := List.mem_or_eq_of_mem_set hc
  · exact h c hold
  · exact hc'

/-- Every event keeps the count above the clients. -/
theorem loopStep_covers {l l' : EventLoop} {e : Event} {ops : List Descriptors.Op} (h : Covers l)
    (hstep : LoopStep l e l' ops) : Covers l' := by
  have hcounted := h.counted
  cases hstep with
  | still => exact h
  | forgot => exact h
  | admitted i c c' hlisten hslot hget hfree hopen hfd hufd hstate hpool hlistenFd hactive =>
    have hclients := clients_set hget hpool
    have hone : c'.client ≤ 1 := by
      unfold ProxyConn.client
      split <;> omega
    exact ⟨nonneg_set hpool (hfd.ge.trans' hopen) h.nonneg, by omega⟩
  | handled i c c' hother hslot hget hpool hlistenFd hslotStep =>
    have hclients := clients_set hget hpool
    obtain ⟨hc', hfall⟩ := slotStep_covers hslotStep (h.nonneg c (List.mem_iff_getElem?.mpr ⟨i, hget⟩))
    exact ⟨nonneg_set hpool hc' h.nonneg, by omega⟩

theorem poolInit_fd {c : ProxyConn} (hc : c ∈ poolInit.slots) : c.fd = 0 := by
  rw [List.eq_of_mem_replicate hc]
  rfl

theorem clients_poolInit : poolInit.clients = 0 := by
  rw [Pool.clients, List.countP_eq_zero]
  intro c hc
  simp [poolInit_fd hc]

theorem Covers.no_client {l : EventLoop} (h : Covers l) (hactive : l.worker.activeConns = 0) :
    ∀ c ∈ l.pool.slots, c.fd = 0 := by
  have hcounted := h.counted
  have hzero : l.pool.clients = 0 := by omega
  intro c hc
  have hnone : ¬ 0 < c.fd := by
    simpa using List.countP_eq_zero.mp hzero c hc
  have := h.nonneg c hc
  omega

theorem workerMove_covers {sh : Shared} {cfg : Config} {pc pc' : WorkerPc} {a : WorkerAct}
    {notices : List Notice} (hmove : WorkerMove sh cfg pc a pc' notices)
    (h : ∀ l, pc.loop = some l → Covers l) : ∀ l, pc'.loop = some l → Covers l := by
  intro l' hl'
  cases hmove with
  | entered w listenFd hactive =>
    cases hl'
    exact ⟨fun c hc => (poolInit_fd hc).ge, by rw [clients_poolInit, hactive]; rfl⟩
  | handled l e =>
    cases hl'
    exact loopStep_covers (h l rfl) (onEvent_step l e)
  | judged l =>
    cases hl'
    exact ⟨(h l rfl).nonneg, (h l rfl).counted⟩
  | judgedAccepting l =>
    cases hl'
    exact ⟨(h l rfl).nonneg, (h l rfl).counted⟩
  | judgedChecking l =>
    cases hl'
    exact ⟨(h l rfl).nonneg, (h l rfl).counted⟩
  | accepted l v e =>
    cases hl'
    exact loopStep_covers (h l rfl) (onEvent_step l e)
  | drained => cases hl'
  | died => cases hl'
  | _ => exact h l' hl'

theorem covers_run {cfg : Config} {online : Int32} {steps : List SystemStep} {s : System}
    (hrun : (systemInit cfg online).run steps = some s) :
    ∀ pid p, s.procs pid = some p → ∀ l, p.pc.loop = some l → Covers l :=
  Runs.run_keeps (loops_step workerMove_covers) steps (fun _ _ hp => by cases hp) hrun

/-! ## The load of `shutting_down` -/

/-- The step is not one of this worker's loop. -/
def SystemStep.quietFor (pid : Int) : SystemStep → Prop
  | .worker q a => q = pid → ∃ node healthy, a = .health node healthy
  | _ => True

/-- The worker's last step was to load `shutting_down`, which was `v` then. -/
def LoadedAs (cfg : Config) (online : Int32) (steps : List SystemStep) (pid : Int) (v : Int32) :
    Prop :=
  ∃ before rest s₀, steps = before ++ .worker pid .check :: rest ∧
    (systemInit cfg online).run before = some s₀ ∧ s₀.shared.shuttingDown = v ∧
    ∀ a ∈ rest, a.quietFor pid

theorem LoadedAs.later {cfg : Config} {online : Int32} {steps : List SystemStep} {pid : Int}
    {v : Int32} (h : LoadedAs cfg online steps pid v) {a : SystemStep} (ha : a.quietFor pid) :
    LoadedAs cfg online (steps ++ [a]) pid v := by
  obtain ⟨before, rest, s₀, rfl, hbefore, hv, hrest⟩ := h
  refine ⟨before, rest ++ [a], s₀, by simp, hbefore, hv, fun b hb => ?_⟩
  obtain hold | hnew := List.mem_append.mp hb
  · exact hrest b hold
  · rw [List.mem_singleton.mp hnew]
    exact ha

/-- A worker between its two loads has just made the first. -/
theorem checking_loaded (cfg : Config) (online : Int32) (steps : List SystemStep) {s : System}
    (hrun : (systemInit cfg online).run steps = some s) :
    ∀ {pid p l v}, s.procs pid = some p → p.pc = .checking l v → LoadedAs cfg online steps pid v := by
  refine Runs.run_snoc_induction (P := fun steps s => ∀ {pid p l v}, s.procs pid = some p →
    p.pc = .checking l v → LoadedAs cfg online steps pid v) (fun hp => by cases hp) ?_ steps hrun
  intro steps s₁ a s₂ hsteps ih hstep pid p l v hp hpc
  cases a with
  | sighup =>
    cases hstep
    exact (ih hp hpc).later trivial
  | master k =>
    obtain hold | ⟨_, rfl⟩ := (master_move hstep).procs pid p hp
    · exact (ih hold hpc).later trivial
    · cases hpc
  | worker q a =>
    obtain ⟨p₁, pc', _, hp₁, hmove, rfl⟩ := worker_step hstep
    obtain ⟨rfl, hself⟩ | ⟨hother, hold⟩ := update_some hp
    · cases hself
      dsimp only at hpc
      subst hpc
      generalize hpc₁ : p₁.pc = pc₁ at hmove
      cases hmove with
      | checked => exact ⟨steps, [], s₁, rfl, hsteps, rfl, fun _ hb => by cases hb⟩
      | judgedChecking l₁ v node healthy =>
        exact (ih hp₁ hpc₁).later (fun _ => ⟨node, healthy, rfl⟩)
    · exact (ih hold hpc).later (fun h => absurd h.symm hother)

/-- **When a worker leaves its loop for a drain.** For every run of the master, its
    workers and the signals sent to it, in any order, with any events and any results of
    their calls, and every step in the state reached with which a worker leaves its loop:
    the last step of its loop was to load `shutting_down`, which was set; the generation
    is greater than the worker's own; and no slot of its pool holds a client. -/
theorem drain_exit (cfg : Config) (online : Int32) {steps : List SystemStep} {s s' : System}
    (hrun : (systemInit cfg online).run steps = some s) {pid : Int} {a : WorkerAct}
    {notices : List Notice} (hstep : s.workerStep pid a = some (s', notices))
    (hleft : Notice.leftLoop ∈ notices) :
    ∃ p l v, s.procs pid = some p ∧ p.pc.loop = some l ∧ LoadedAs cfg online steps pid v ∧ v ≠ 0 ∧
      s.shared.drainGeneration > l.myGeneration ∧ ∀ c ∈ l.pool.slots, c.fd = 0 := by
  obtain ⟨p, pc', hp, hmove, _⟩ := workerStep_some hstep
  have hcovers := covers_run hrun pid p hp
  have hloaded (l : EventLoop) (v : Int32) :=
    checking_loaded cfg online steps hrun (l := l) (v := v) hp
  generalize hpc : p.pc = pc at hmove hcovers hloaded
  cases hmove with
  | drained l v hdrain hactive =>
    obtain ⟨hset, hgreater⟩ := shouldDrain_iff.mp hdrain
    refine ⟨p, l, v, hp, by rw [hpc]; rfl, hloaded l v rfl, hset, hgreater, ?_⟩
    exact (hcovers l rfl).no_client hactive
  | draining => simp at hleft
  | accepted => split at hleft <;> simp at hleft
  | _ => cases hleft

/-- What a worker does when it makes its second load. -/
def System.decides (s : System) (pid : Int) : Option (List Notice) :=
  (s.workerStep pid .decide).map Prod.snd

theorem decides_some {s : System} {pid : Int} {notices : List Notice}
    (h : s.decides pid = some notices) : ∃ s', s.workerStep pid .decide = some (s', notices) := by
  obtain ⟨⟨s', _⟩, hstep, rfl⟩ := Option.map_eq_some_iff.mp h
  exact ⟨s', hstep⟩

theorem drain_exit_reload : ∃ s s', (systemInit sampleConfig 1).run reloadSteps = some s ∧
    s.workerStep 100 .decide = some (s', [.drainMode, .leftLoop]) ∧
    ∃ p l v, s.procs 100 = some p ∧ p.pc.loop = some l ∧ LoadedAs sampleConfig 1 reloadSteps 100 v ∧
      v ≠ 0 ∧ s.shared.drainGeneration > l.myGeneration ∧ ∀ c ∈ l.pool.slots, c.fd = 0 := by
  have hrun : ((systemInit sampleConfig 1).run reloadSteps).bind (System.decides · 100) =
      some [.drainMode, .leftLoop] := by decide +kernel
  obtain ⟨s, hs, hdecides⟩ := Option.bind_eq_some_iff.mp hrun
  obtain ⟨s', hstep⟩ := decides_some hdecides
  exact ⟨s, s', hs, hstep, drain_exit sampleConfig 1 hs hstep (by decide)⟩

/-- A worker of the first reload loads `shutting_down`; that reload ends, and the next one
    has incremented the generation. -/
def clearedSteps : List SystemStep :=
  [.master ⟨none, 100, 0⟩, .master noCalls, .sighup, .master noCalls, .master noCalls,
    .master ⟨some sampleConfig, 0, 0⟩, .master noCalls, .master noCalls, .master noCalls,
    .master ⟨none, 101, 0⟩, .worker 101 (.enter idleWorker 5), .worker 101 .check, .worker 100 .die,
    .master noCalls, .master ⟨none, 0, 100⟩, .master noCalls, .master noCalls, .master noCalls,
    .master noCalls, .sighup, .master noCalls, .master noCalls, .master noCalls, .master noCalls,
    .master ⟨some sampleConfig, 0, 0⟩, .master noCalls, .master noCalls]

/-- The worker leaves its loop while `shutting_down` is not set. -/
theorem left_after_clear : ∃ s s', (systemInit sampleConfig 1).run clearedSteps = some s ∧
    s.workerStep 101 .decide = some (s', [.drainMode, .leftLoop]) ∧ s.shared.shuttingDown = 0 := by
  have hrun : ((systemInit sampleConfig 1).run clearedSteps).map
      (fun s => (s.decides 101, s.shared.shuttingDown)) = some (some [.drainMode, .leftLoop], 0) := by
    decide +kernel
  obtain ⟨s, hs, hstate⟩ := Option.map_eq_some_iff.mp hrun
  obtain ⟨hdecides, hflag⟩ := Prod.mk.inj hstate
  obtain ⟨s', hstep⟩ := decides_some hdecides
  exact ⟨s, s', hs, hstep, hflag⟩

end NexusGateway
