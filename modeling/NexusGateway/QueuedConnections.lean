import NexusGateway.Generations

/- The listening sockets of the workers, and who accepts what they queue.

   Each worker opens a socket of its own on the one port (`SO_REUSEPORT`), some time
   before it records its generation, and the kernel puts each new connection into the
   queue of any socket that is open. An old worker accepts nothing from the store of
   `shutting_down` on (`System.closes`), but its socket stays open until it leaves its
   loop, and what is queued there then is lost.

   `drained_queues_empty`: no worker leaves a connection behind in any run in which
   none is queued for a worker that no longer accepts and none waits in a queue when its
   worker stops accepting. `queued_connection_lost` is a run in which one is. -/
namespace NexusGateway
open CString

/-- A worker's listening socket, and the connections queued there. -/
structure Socket where
  owner : Int
  queue : List Nat
  deriving DecidableEq, Repr

/-- All processes, and the listening sockets that are open. -/
structure QueueWorld where
  sys : System
  sockets : List Socket

inductive QueueStep where
  | sys (a : SystemStep)
  | listen (pid : Int)
  | arrives (pid : Int) (client : Nat)

/-- The process is there and has not left its loop. -/
def System.runs (s : System) (pid : Int) : Bool := (s.procs pid).isSome && !s.exited pid

/-- The worker is before its set-up's end. -/
def System.starts (s : System) (pid : Int) : Bool :=
  match s.procs pid with
  | some ⟨_, .starting, _⟩ => true
  | _ => false

/-- The worker that takes a connection from its queue in this step. -/
def System.takes (s : System) : SystemStep → Option Int
  | .worker pid (.accept e) =>
    match s.procs pid with
    | some ⟨_, .accepting l _, _⟩ =>
      if l.refuses e.calls.accept = false ∧ 0 ≤ e.calls.accept.accepted then some pid else none
    | _ => none
  | _ => none

/-- The worker that enters its loop in this step. -/
def SystemStep.enters : SystemStep → Option Int
  | .worker pid a => if a.enters then some pid else none
  | _ => none

def QueueWorld.socketsOf (w : QueueWorld) (pid : Int) : List Socket :=
  w.sockets.filter (fun s => s.owner == pid)

/-- The kernel's part of a step: a connection is accepted from a queue that has one, and a
    worker enters its loop with its socket open. -/
def QueueWorld.allows (w : QueueWorld) (a : SystemStep) : Prop :=
  (∀ pid ∈ w.sys.takes a, ∃ s ∈ w.socketsOf pid, s.queue ≠ []) ∧
  ∀ pid ∈ a.enters, w.socketsOf pid ≠ []

instance (w : QueueWorld) (a : SystemStep) : Decidable (w.allows a) :=
  inferInstanceAs (Decidable (_ ∧ _))

/-- The socket after its first connection is accepted, if `pid` is its owner. -/
def Socket.accept (taker : Option Int) (s : Socket) : Socket :=
  if taker = some s.owner then { s with queue := s.queue.tail } else s

/-- The socket after a connection is queued for `pid`. -/
def Socket.arrive (pid : Int) (client : Nat) (s : Socket) : Socket :=
  if s.owner = pid then { s with queue := s.queue ++ [client] } else s

/-- A step of all processes and of the kernel. The socket of a process that is gone is
    closed with all that is queued there. -/
def QueueWorld.step (w : QueueWorld) : QueueStep → Option QueueWorld
  | .sys a =>
    if w.allows a then
      (w.sys.step a).map fun sys =>
        { sys := sys
          sockets := (w.sockets.map (.accept (w.sys.takes a))).filter (fun s => sys.runs s.owner) }
    else none
  | .listen pid =>
    if w.sys.starts pid ∧ w.socketsOf pid = [] then some { w with sockets := ⟨pid, []⟩ :: w.sockets }
    else none
  | .arrives pid client =>
    if w.socketsOf pid ≠ [] then some { w with sockets := w.sockets.map (.arrive pid client) }
    else none

def QueueWorld.run (w : QueueWorld) (steps : List QueueStep) : Option QueueWorld :=
  Runs.run QueueWorld.step w steps

/-- `nexus_master_run` in front of its first fork: nobody listens. -/
def queueInit (cfg : Config) (online : Int32) : QueueWorld := ⟨systemInit cfg online, []⟩

/-! ## Workers that no longer accept -/

/-- The worker has loaded `shutting_down` as set and not yet the generation. -/
def WorkerPc.loadedSet : WorkerPc → Bool
  | .checking _ v => v != 0
  | _ => false

/-- The worker no longer accepts: the generation is greater than its own, and
    `shutting_down` is set or was when the worker loaded it after its last wait. -/
def System.closes (s : System) (pid : Int) : Bool :=
  match s.procs pid with
  | none => false
  | some p =>
    match p.pc.loop with
    | none => false
    | some l =>
      decide (s.shared.drainGeneration > l.myGeneration) &&
        (s.shared.shuttingDown != 0 || p.pc.loadedSet)

theorem closes_iff {s : System} {pid : Int} :
    s.closes pid = true ↔ ∃ p l, s.procs pid = some p ∧ p.pc.loop = some l ∧
      s.shared.drainGeneration > l.myGeneration ∧
      (s.shared.shuttingDown ≠ 0 ∨ p.pc.loadedSet = true) := by
  unfold System.closes
  constructor
  · intro h
    split at h
    · cases h
    rename_i p hp
    split at h
    · cases h
    rename_i l hl
    rw [Bool.and_eq_true, Bool.or_eq_true, decide_eq_true_eq, bne_iff_ne] at h
    exact ⟨p, l, hp, hl, h⟩
  · rintro ⟨p, l, hp, hl, h⟩
    rw [hp]
    dsimp only
    rw [hl]
    dsimp only
    rw [Bool.and_eq_true, Bool.or_eq_true, decide_eq_true_eq, bne_iff_ne]
    exact h

/-- No worker that leaves its loop for a drain leaves a connection in its queue. -/
def QueueWorld.LeavesNone (w : QueueWorld) : Prop :=
  ∀ pid a s' notices, w.sys.workerStep pid a = some (s', notices) → Notice.leftLoop ∈ notices →
    ∀ s ∈ w.sockets, s.owner = pid → s.queue = []

/-- No connection is queued for a worker that no longer accepts, and none waits in a
    queue when a step of the master makes its worker stop accepting. -/
def Unqueued (w : QueueWorld) : QueueStep → Prop
  | .sys (.master k) => ∀ sys ∈ w.sys.masterStep k, ∀ s ∈ w.sockets, sys.closes s.owner = true →
      w.sys.closes s.owner = true ∨ s.queue = []
  | .sys _ => True
  | .listen _ => True
  | .arrives pid _ => w.sys.closes pid = false

/-- The queue of a worker that no longer accepts is empty. -/
def QueuesInv (w : QueueWorld) : Prop :=
  ∀ s ∈ w.sockets, w.sys.closes s.owner = true → s.queue = []

theorem workerMove_closes {s : System} {pid : Int} {p : WorkerProc} {pc' : WorkerPc} {a : WorkerAct}
    {notices : List Notice} (hp : s.procs pid = some p)
    (hmove : WorkerMove s.shared p.cfg p.pc a pc' notices) {l' : EventLoop} (hl' : pc'.loop = some l')
    (hgreater : s.shared.drainGeneration > l'.myGeneration)
    (hset : s.shared.shuttingDown ≠ 0 ∨ pc'.loadedSet = true) : s.closes pid = true := by
  obtain ⟨l, hl, hsame⟩ | ⟨_, hnow⟩ := workerMove_generation hmove hl'
  · refine closes_iff.mpr ⟨p, l, hp, hl, hsame ▸ hgreater, ?_⟩
    obtain hset | hset := hset
    · exact .inl hset
    · -- what it has loaded is the word as it was, unless it had loaded it before
      generalize p.pc = pc at hmove hl
      cases hmove with
      | checked => exact .inl (bne_iff_ne.mp hset)
      | judgedChecking => exact .inr hset
      | _ => cases hset
  · rw [hnow, gt_iff_lt, Int32.lt_iff_toInt_lt] at hgreater
    exact absurd hgreater (lt_irrefl _)

theorem worker_closes {s s' : System} {pid : Int} {a : WorkerAct}
    (hstep : s.step (.worker pid a) = some s') {q : Int} (hq : s'.closes q = true) :
    s.closes q = true := by
  obtain ⟨p, pc', _, hp, hmove, rfl⟩ := worker_step hstep
  obtain ⟨p', l', hp', hl', hgreater, hset⟩ := closes_iff.mp hq
  obtain ⟨rfl, hself⟩ | ⟨_, hold⟩ := update_some hp'
  · cases hself
    exact workerMove_closes hp hmove hl' hgreater hset
  · exact closes_iff.mpr ⟨p', l', hold, hl', hgreater, hset⟩

theorem sighup_closes {s s' : System} (hstep : s.step .sighup = some s') (q : Int) :
    s'.closes q = s.closes q := by
  cases hstep
  rfl

theorem sys_unqueued {w : QueueWorld} (h : QueuesInv w) {a : SystemStep} (hqueue : Unqueued w (.sys a))
    {sys : System} (hstep : w.sys.step a = some sys) :
    ∀ s ∈ w.sockets, sys.closes s.owner = true → s.queue = [] := by
  intro s hs hcloses
  cases a with
  | sighup =>
    rw [sighup_closes hstep] at hcloses
    exact h s hs hcloses
  | master k =>
    obtain hbefore | hempty := hqueue sys hstep s hs hcloses
    · exact h s hs hbefore
    · exact hempty
  | worker pid a => exact h s hs (worker_closes hstep hcloses)

theorem Socket.accept_owner (taker : Option Int) (s : Socket) : (s.accept taker).owner = s.owner := by
  unfold Socket.accept
  split <;> rfl

theorem Socket.accept_empty (taker : Option Int) {s : Socket} (h : s.queue = []) :
    (s.accept taker).queue = [] := by
  unfold Socket.accept
  split
  · show s.queue.tail = []
    rw [h]
    rfl
  · exact h

/-- Every step keeps the queues of workers that no longer accept empty. -/
theorem queuesInv_step {w w' : QueueWorld} {a : QueueStep} (h : QueuesInv w) (hqueue : Unqueued w a)
    (hstep : w.step a = some w') : QueuesInv w' := by
  cases a with
  | sys a =>
    unfold QueueWorld.step at hstep
    dsimp only at hstep
    split at hstep
    · obtain ⟨sys, hsys, rfl⟩ := Option.map_eq_some_iff.mp hstep
      intro s hs hcloses
      obtain ⟨s₀, hs₀, rfl⟩ := List.mem_map.mp (List.mem_filter.mp hs).1
      rw [Socket.accept_owner] at hcloses
      exact Socket.accept_empty _ (sys_unqueued h hqueue hsys s₀ hs₀ hcloses)
    · cases hstep
  | listen pid =>
    unfold QueueWorld.step at hstep
    dsimp only at hstep
    split at hstep
    · cases hstep
      intro s hs hcloses
      obtain rfl | hold := List.mem_cons.mp hs
      · rfl
      · exact h s hold hcloses
    · cases hstep
  | arrives pid client =>
    unfold QueueWorld.step at hstep
    dsimp only at hstep
    split at hstep
    · cases hstep
      intro s hs hcloses
      obtain ⟨s₀, hs₀, rfl⟩ := List.mem_map.mp hs
      unfold Socket.arrive at hcloses ⊢
      by_cases howner : s₀.owner = pid
      · rw [if_pos howner] at hcloses
        subst howner
        exact absurd (hqueue.symm.trans hcloses) Bool.false_ne_true
      · rw [if_neg howner] at hcloses ⊢
        exact h s₀ hs₀ hcloses
    · cases hstep

theorem leaves_closes {s s' : System} {pid : Int} {a : WorkerAct} {notices : List Notice}
    (hstep : s.workerStep pid a = some (s', notices)) (hleft : Notice.leftLoop ∈ notices) :
    s.closes pid = true := by
  obtain ⟨p, pc', hp, hmove, _⟩ := workerStep_some hstep
  refine closes_iff.mpr ⟨p, ?_⟩
  generalize p.pc = pc at hmove
  cases hmove with
  | drained l v hdrain =>
    obtain ⟨hset, hgreater⟩ := shouldDrain_iff.mp hdrain
    exact ⟨l, hp, rfl, hgreater, .inr (bne_iff_ne.mpr hset)⟩
  | draining => simp at hleft
  | accepted => split at hleft <;> simp at hleft
  | _ => cases hleft

/-- **No drained worker leaves a connection behind if none is queued for it.** For every
    run of the master, its workers, the signals sent to it and the kernel, in any order
    and over any number of reloads, with each new connection queued on any listening
    socket that is open: if no connection is queued for a worker that no longer accepts
    and none waits in a queue when the master makes its worker stop accepting, then in the
    state reached every worker that leaves its loop for a drain has an empty queue. -/
theorem drained_queues_empty (cfg : Config) (online : Int32) {steps : List QueueStep}
    {w : QueueWorld} (hqueue : Runs.Meets QueueWorld.step Unqueued (queueInit cfg online) steps)
    (hrun : (queueInit cfg online).run steps = some w) : w.LeavesNone := by
  have hinit : QueuesInv (queueInit cfg online) := fun s hs => by cases hs
  have hinv := Runs.run_invariant queuesInv_step steps hinit hqueue hrun
  intro pid a s' notices hstep hleft s hs howner
  subst howner
  exact hinv s hs (leaves_closes hstep hleft)

instance (w : QueueWorld) : DecidablePred (Unqueued w)
  | .sys .sighup => isTrue trivial
  | .sys (.master _) => inferInstanceAs (Decidable (∀ sys ∈ _, ∀ s ∈ w.sockets, _ → _))
  | .sys (.worker _ _) => isTrue trivial
  | .listen _ => isTrue trivial
  | .arrives _ _ => inferInstanceAs (Decidable (_ = _))

/-- A worker is started; a reload has set `shutting_down` and forked another, which opens
    its socket, and the first worker has loaded that word. -/
def restartSteps : List QueueStep :=
  [.sys (.master ⟨none, 100, 0⟩), .sys (.master noCalls), .listen 100,
    .sys (.worker 100 (.enter idleWorker 5)), .sys .sighup, .sys (.master noCalls),
    .sys (.master noCalls), .sys (.master ⟨some sampleConfig, 0, 0⟩), .sys (.master noCalls),
    .sys (.master noCalls), .sys (.master noCalls), .sys (.master ⟨none, 101, 0⟩), .listen 101,
    .sys (.worker 100 .check)]

/-- Whether the worker can leave its loop for a drain, and what is queued. -/
def QueueWorld.leaving (w : QueueWorld) (pid : Int) : Bool × List Socket :=
  match w.sys.workerStep pid .decide with
  | none => (false, w.sockets)
  | some r => (decide (Notice.leftLoop ∈ r.2), w.sockets)

theorem drained_queues_empty_restart : ∃ w,
    (queueInit sampleConfig 1).run (restartSteps ++ [.arrives 101 1]) = some w ∧
      w.leaving 100 = (true, [⟨101, [1]⟩, ⟨100, []⟩]) ∧ w.LeavesNone := by
  have hrun : ((queueInit sampleConfig 1).run (restartSteps ++ [.arrives 101 1])).map
      (QueueWorld.leaving · 100) = some (true, [⟨101, [1]⟩, ⟨100, []⟩]) := by decide +kernel
  have hqueue : Runs.Meets QueueWorld.step Unqueued (queueInit sampleConfig 1)
      (restartSteps ++ [.arrives 101 1]) := by decide +kernel
  obtain ⟨w, hw, hleaving⟩ := Option.map_eq_some_iff.mp hrun
  exact ⟨w, hw, hleaving, drained_queues_empty sampleConfig 1 hqueue hw⟩

/-- A client's connection is queued for the old worker, which leaves. -/
theorem queued_connection_lost : ∃ w,
    (queueInit sampleConfig 1).run (restartSteps ++ [.arrives 100 1]) = some w ∧ ¬ w.LeavesNone := by
  have hrun : ((queueInit sampleConfig 1).run (restartSteps ++ [.arrives 100 1])).map
      (QueueWorld.leaving · 100) = some (true, [⟨101, []⟩, ⟨100, [1]⟩]) := by decide +kernel
  obtain ⟨w, hw, hleaving⟩ := Option.map_eq_some_iff.mp hrun
  refine ⟨w, hw, fun hnone => ?_⟩
  unfold QueueWorld.leaving at hleaving
  split at hleaving
  · cases hleaving
  · rename_i r hstep
    obtain ⟨hleft, hsockets⟩ := Prod.mk.inj hleaving
    have hempty := hnone 100 .decide r.1 r.2 hstep (of_decide_eq_true hleft) ⟨100, [1]⟩
      (by rw [hsockets]; simp) rfl
    cases hempty

end NexusGateway
