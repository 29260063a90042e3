import NexusGateway.Lib.Parts
import NexusGateway.ForkedConfig
import NexusGateway.QueuedConnections
import NexusGateway.WorkerPlaces
import NexusGateway.UpstreamConnections
import NexusGateway.RateLimitedClients

/- The whole gateway: the master, its workers, and the descriptors of each process.

   `System` has the processes and what they share; `LoopWorld` has one worker with its
   descriptors. Here each process of the system has descriptors of its own, and a worker's
   set-up is that of `nexus_worker_run`. Whatever the master and the others do, a worker in its
   loop is what its own events make of a start with the configuration that it was forked
   with (`worker_runs`): what is proved of `LoopWorld` holds of every worker of the gateway.
   With what the master forks its workers with, it follows which configuration the
   gateway goes by between two reloads (`latest_in_force`). -/
namespace NexusGateway
open CString Descriptors Runs

/-! ## The processes with their descriptors -/

/-- All processes, and the descriptors of each. -/
structure Gateway where
  system : System
  tables : Int → Table Party

/-- A worker's set-up ends, with what the calls for its listening socket have returned and the
    descriptors that are open then; or any other step of a process. -/
inductive GatewayStep where
  | enter (pid : Int) (k : ListenCalls) (table : Table Party)
  | other (a : SystemStep)

/-- The step of the worker's loop, if this is one. -/
def WorkerAct.loopStep : WorkerAct → Option WorkerStep
  | .event e => some (.event e)
  | .accept e => some (.event e)
  | .health node healthy => some (.health node healthy)
  | _ => none

/-- The descriptors behind a step: none, if the kernel would not hand out what it takes. -/
def Gateway.descriptors (g : Gateway) : SystemStep → Option (Int → Table Party)
  | .worker pid a =>
    match (g.system.procs pid).bind fun p => p.pc.loop, a.loopStep with
    | some l, some b =>
      (LoopWorld.step ⟨l, g.tables pid⟩ b).map fun w => Function.update g.tables pid w.table
    | _, _ => some g.tables
  | _ => some g.tables

/-- The next step of any process. A worker enters its loop with what its start-up has built and
    its listening socket open. -/
def Gateway.step (g : Gateway) : GatewayStep → Option Gateway
  | .enter pid k table =>
    (g.system.procs pid).bind fun p =>
      (workerStart (fun _ _ => k) p.cfg).bind fun r =>
        if table.holder r.2 = some .other then
          (g.system.step (.worker pid (.enter r.1 r.2))).map fun system =>
            ⟨system, Function.update g.tables pid table⟩
        else none
  | .other a =>
    if a.enters.isSome then none
    else (g.system.step a).bind fun system => (g.descriptors a).map fun tables => ⟨system, tables⟩

/-- `nexus_master_run` in front of its first fork. -/
def gatewayInit (cfg : Config) (online : Int32) : Gateway := ⟨systemInit cfg online, fun _ => ⟨fun _ => none⟩⟩

/-- The worker enters its loop. -/
def GatewayStep.enters (pid : Int) : GatewayStep → Bool
  | .enter q _ _ => q == pid
  | .other _ => false

/-- The step of the worker's loop, if this is one. -/
def GatewayStep.loopStep (pid : Int) : GatewayStep → Option WorkerStep
  | .other (.worker q a) => if q = pid then a.loopStep else none
  | _ => none

/-- What a worker has done since it entered its loop. -/
def workerSteps (pid : Int) (steps : List GatewayStep) : List WorkerStep :=
  ownSteps (GatewayStep.enters pid) (GatewayStep.loopStep pid) steps

/-! ## One worker among the processes -/

/-- The worker with this number was forked with this configuration and is in its loop, with
    these descriptors. -/
def Gateway.Shows (pid : Int) (cfg : Config) (g : Gateway) (w : LoopWorld) : Prop :=
  ∃ p, g.system.procs pid = some p ∧ p.cfg = cfg ∧ p.pc.loop = some w.loop ∧ g.tables pid = w.table

/-- A worker enters its loop, started with this configuration. -/
structure StartedWith (cfg : Config) (w : LoopWorld) : Prop where
  started : w.Started
  worker : w.loop.worker = startWorker cfg

theorem workerStart_some {calls : Bytes → Int32 → ListenCalls} {cfg : Config} {r : Worker × Int}
    (h : workerStart calls cfg = some r) : r.1 = startWorker cfg := by
  unfold workerStart at h
  split at h
  · cases h
  split at h
  · cases h
  · dsimp only at h
    split at h
    · cases h
    · cases h
      rfl

theorem workerMove_loop {sh : Shared} {cfg : Config} {pc pc' : WorkerPc} {a : WorkerAct}
    {notices : List Notice} (h : WorkerMove sh cfg pc a pc' notices) (hother : a.enters = false)
    {l' : EventLoop} (hloop : pc'.loop = some l') :
    ∃ l, pc.loop = some l ∧ l' = a.loopStep.elim l l.step := by
  cases h with
  | entered => cases hother
  | drained => cases hloop
  | died => cases hloop
  | _ =>
    cases hloop
    exact ⟨_, rfl, rfl⟩

theorem worldStep_loop {w w' : LoopWorld} {b : WorkerStep} (h : w.step b = some w') :
    w'.loop = w.loop.step b := by
  cases b with
  | health node healthy =>
    cases h
    rfl
  | event e => exact (worldStep_some h).2.2.1

theorem gatewayStep_enter {g g' : Gateway} {pid : Int} {k : ListenCalls} {table : Table Party}
    (h : g.step (.enter pid k table) = some g') :
    ∃ p listenFd, g.system.procs pid = some p ∧ table.holder listenFd = some .other ∧
      g.system.step (.worker pid (.enter (startWorker p.cfg) listenFd)) = some g'.system ∧
      g'.tables = Function.update g.tables pid table := by
  obtain ⟨p, hp, hstart⟩ := Option.bind_eq_some_iff.mp h
  obtain ⟨⟨w, listenFd⟩, hbuilt, hopen⟩ := Option.bind_eq_some_iff.mp hstart
  obtain rfl : w = startWorker p.cfg := workerStart_some hbuilt
  split at hopen
  · rename_i hlistening
    obtain ⟨system, hstep, rfl⟩ := Option.map_eq_some_iff.mp hopen
    exact ⟨p, listenFd, hp, hlistening, hstep, rfl⟩
  · cases hopen

theorem gatewayStep_other {g g' : Gateway} {a : SystemStep} (h : g.step (.other a) = some g') :
    a.enters = none ∧ g.system.step a = some g'.system ∧ g.descriptors a = some g'.tables := by
  unfold Gateway.step at h
  dsimp only at h
  split at h
  · cases h
  · rename_i henters
    obtain ⟨system, hstep, hmap⟩ := Option.bind_eq_some_iff.mp h
    obtain ⟨tables, htables, rfl⟩ := Option.map_eq_some_iff.mp hmap
    exact ⟨Option.not_isSome_iff_eq_none.mp henters, hstep, htables⟩

theorem descriptors_other {g : Gateway} {q pid : Int} {a : WorkerAct} {tables : Int → Table Party}
    (h : g.descriptors (.worker q a) = some tables) (hother : q ≠ pid) : tables pid = g.tables pid := by
  unfold Gateway.descriptors at h
  dsimp only at h
  split at h
  · obtain ⟨w, _, rfl⟩ := Option.map_eq_some_iff.mp h
    exact Function.update_of_ne hother.symm _ _
  · cases h
    rfl

theorem descriptors_own {g : Gateway} {pid : Int} {p : WorkerProc} {a : WorkerAct} {l : EventLoop}
    {tables : Int → Table Party} (h : g.descriptors (.worker pid a) = some tables)
    (hp : g.system.procs pid = some p) (hl : p.pc.loop = some l) :
    run LoopWorld.step ⟨l, g.tables pid⟩ a.loopStep.toList =
      some ⟨a.loopStep.elim l l.step, tables pid⟩ := by
  unfold Gateway.descriptors at h
  dsimp only at h
  rw [hp, Option.bind_some, hl] at h
  cases hown : a.loopStep with
  | none =>
    rw [hown] at h
    cases h
    rfl
  | some b =>
    rw [hown] at h
    obtain ⟨w, hstep, rfl⟩ := Option.map_eq_some_iff.mp h
    have hloop := worldStep_loop hstep
    rw [Option.toList_some, run, hstep, Option.elim_some, Function.update_self, ← hloop]
    rfl

theorem enter_begins {pid : Int} {cfg : Config} {g g' : Gateway} {k : ListenCalls}
    {table : Table Party} (h : g.step (.enter pid k table) = some g') {w : LoopWorld}
    (hshows : Gateway.Shows pid cfg g' w) : StartedWith cfg w := by
  obtain ⟨p, listenFd, hp, hlistening, hstep, htables⟩ := gatewayStep_enter h
  obtain ⟨p₁, pc', _, hp₁, hmove, hsystem⟩ := worker_step hstep
  cases hp.symm.trans hp₁
  obtain ⟨p', hp', hcfg, hloop, htable⟩ := hshows
  rw [show g'.system.procs = Function.update _ _ _ by rw [hsystem], Function.update_self] at hp'
  rw [htables, Function.update_self] at htable
  obtain ⟨l, table'⟩ := w
  cases hp'
  cases htable
  generalize p.pc = pc at hmove
  cases hmove with
  | entered =>
    cases hloop
    exact ⟨⟨⟨rfl, rfl⟩, hlistening⟩, congrArg startWorker hcfg⟩

theorem enter_leaves {q pid : Int} {cfg : Config} {g g' : Gateway} {k : ListenCalls}
    {table : Table Party} (h : g.step (.enter q k table) = some g') (hother : pid ≠ q) {w : LoopWorld}
    (hshows : Gateway.Shows pid cfg g' w) : Gateway.Shows pid cfg g w := by
  obtain ⟨p, listenFd, _, _, hstep, htables⟩ := gatewayStep_enter h
  obtain ⟨_, pc', _, _, _, hsystem⟩ := worker_step hstep
  obtain ⟨p', hp', hcfg, hloop, htable⟩ := hshows
  rw [show g'.system.procs = Function.update _ _ _ by rw [hsystem],
    Function.update_of_ne hother] at hp'
  rw [htables, Function.update_of_ne hother] at htable
  exact ⟨p', hp', hcfg, hloop, htable⟩

theorem worker_moves {q pid : Int} {cfg : Config} {g g' : Gateway} {a : WorkerAct}
    (h : g.step (.other (.worker q a)) = some g') {w' : LoopWorld}
    (hshows : Gateway.Shows pid cfg g' w') : ∃ w, Gateway.Shows pid cfg g w ∧
      run LoopWorld.step w (GatewayStep.loopStep pid (.other (.worker q a))).toList = some w' := by
  obtain ⟨henters, hstep, hdescriptors⟩ := gatewayStep_other h
  obtain ⟨p, pc', _, hp, hmove, hsystem⟩ := worker_step hstep
  obtain ⟨p', hp', hcfg, hloop, htable⟩ := hshows
  rw [show g'.system.procs = Function.update _ _ _ by rw [hsystem]] at hp'
  rw [GatewayStep.loopStep]
  obtain ⟨rfl, hself⟩ | ⟨hother, hold⟩ := update_some hp'
  · cases hself
    have hentered : a.enters = false := by
      by_contra hyes
      rw [SystemStep.enters, if_pos (Bool.eq_true_of_not_eq_false hyes)] at henters
      cases henters
    obtain ⟨l, hl, hafter⟩ := workerMove_loop hmove hentered hloop
    have hown := descriptors_own hdescriptors hp hl
    obtain ⟨l', table'⟩ := w'
    cases htable
    cases hafter
    rw [if_pos rfl]
    exact ⟨⟨l, g.tables pid⟩, ⟨p, hp, hcfg, hl, rfl⟩, hown⟩
  · rw [descriptors_other hdescriptors hother.symm] at htable
    rw [if_neg hother.symm]
    exact ⟨w', ⟨p', hold, hcfg, hloop, htable⟩, rfl⟩

/-- What a step of the gateway does to one worker. -/
theorem gateway_moves {pid : Int} {cfg : Config} {g g' : Gateway} {a : GatewayStep}
    (h : g.step a = some g') : PartMoves (Gateway.Shows pid cfg) (StartedWith cfg)
      (GatewayStep.enters pid) (GatewayStep.loopStep pid) LoopWorld.step g a g' := by
  cases a with
  | enter q k table =>
    refine ⟨fun hbegins w hshows => ?_, fun hother w hshows => ?_⟩
    · obtain rfl : q = pid := beq_iff_eq.mp hbegins
      exact enter_begins h hshows
    · have hne : q ≠ pid := beq_eq_false_iff_ne.mp hother
      exact ⟨w, enter_leaves h hne.symm hshows, rfl⟩
  | other a =>
    refine ⟨nofun, fun _ w hshows => ?_⟩
    cases a with
    | worker q a => exact worker_moves h hshows
    | sighup =>
      obtain ⟨_, hstep, hdescriptors⟩ := gatewayStep_other h
      obtain ⟨p', hp', hcfg, hloop, htable⟩ := hshows
      rw [← Option.some.inj hstep] at hp'
      rw [← Option.some.inj hdescriptors] at htable
      exact ⟨w, ⟨p', hp', hcfg, hloop, htable⟩, rfl⟩
    | master k =>
      obtain ⟨_, hstep, hdescriptors⟩ := gatewayStep_other h
      obtain ⟨p', hp', hcfg, hloop, htable⟩ := hshows
      rw [← Option.some.inj hdescriptors] at htable
      obtain hold | ⟨_, rfl⟩ := (master_move hstep).procs pid p' hp'
      · exact ⟨w, ⟨p', hold, hcfg, hloop, htable⟩, rfl⟩
      · cases hloop

theorem shown_run {cfg : Config} {online : Int32} {steps : List GatewayStep} {g : Gateway}
    (hrun : run Gateway.step (gatewayInit cfg online) steps = some g) {pid : Int} {cfg' : Config}
    {w : LoopWorld} (hshows : Gateway.Shows pid cfg' g w) :
    ∃ s₀, StartedWith cfg' s₀ ∧ run LoopWorld.step s₀ (workerSteps pid steps) = some w := by
  refine part_run (fun w hnone => ?_) gateway_moves hrun hshows
  obtain ⟨_, hp, _⟩ := hnone
  cases hp

/-- **Every worker of the gateway makes a run of its own.** For every run of the master, its
    workers and the signals, and every worker that is in its loop: its loop and its descriptors
    are what its own events, since it entered, make of a start with the configuration that it
    was forked with. -/
theorem worker_runs (cfg : Config) (online : Int32) {steps : List GatewayStep} {g : Gateway}
    (hrun : run Gateway.step (gatewayInit cfg online) steps = some g) {pid : Int} {p : WorkerProc}
    (hp : g.system.procs pid = some p) {l : EventLoop} (hl : p.pc.loop = some l) :
    ∃ s₀ : LoopWorld, s₀.Started ∧ s₀.loop.worker = startWorker p.cfg ∧
      run LoopWorld.step s₀ (workerSteps pid steps) = some ⟨l, g.tables pid⟩ := by
  obtain ⟨s₀, hbegun, hown⟩ := shown_run (w := ⟨l, g.tables pid⟩) hrun ⟨p, hp, rfl, hl, rfl⟩
  exact ⟨s₀, hbegun.started, hbegun.worker, hown⟩

/-- The file that the gateway starts with, and the one that it reloads. -/
def plainFile : Bytes := ascii "[server]\nlisten = 127.0.0.1:8080\n"

def listingFile : Bytes :=
  ascii "[server]\nlisten = 127.0.0.1:8080\n[security]\nblacklist = 10.0.0.7\n"

/-- A reload replaces the one worker, which exits, and the new one accepts a connection. -/
def reloadedGateway : List GatewayStep :=
  [.other (.master ⟨none, 100, 0⟩), .other (.master noCalls), .enter 100 ⟨5, 0, 0⟩ sampleWorld.table,
    .other .sighup, .other (.master noCalls), .other (.master noCalls),
    .other (.master ⟨some (configLoad listingFile), 0, 0⟩), .other (.master noCalls),
    .other (.master noCalls), .other (.master noCalls), .other (.master ⟨none, 101, 0⟩),
    .enter 101 ⟨5, 0, 0⟩ sampleWorld.table, .other (.worker 100 .die), .other (.master noCalls),
    .other (.master ⟨none, 0, 100⟩), .other (.master noCalls), .other (.master noCalls),
    .other (.master noCalls), .other (.master noCalls), .other (.worker 101 .loadShutting),
    .other (.worker 101 (.accept (acceptEvent 7)))]

/-- The loop of a worker. -/
def Gateway.loop (g : Gateway) (pid : Int) : Option EventLoop := (g.system.procs pid).bind fun p => p.pc.loop

theorem worker_runs_reloaded : ∃ g p l s₀,
    run Gateway.step (gatewayInit (configLoad plainFile) 1) reloadedGateway = some g ∧
    g.system.procs 101 = some p ∧ p.pc.loop = some l ∧ s₀.Started ∧
    s₀.loop.worker = startWorker p.cfg ∧
    run LoopWorld.step s₀ (workerSteps 101 reloadedGateway) = some ⟨l, g.tables 101⟩ := by
  have hruns : ((run Gateway.step (gatewayInit (configLoad plainFile) 1) reloadedGateway).bind
      (Gateway.loop · 101)).isSome = true := by decide +kernel
  obtain ⟨l, hl⟩ := Option.isSome_iff_exists.mp hruns
  obtain ⟨g, hg, hloop⟩ := Option.bind_eq_some_iff.mp hl
  obtain ⟨p, hp, hloop⟩ := Option.bind_eq_some_iff.mp hloop
  obtain ⟨s₀, hstarted, hworker, hown⟩ := worker_runs (configLoad plainFile) 1 hg hp hloop
  exact ⟨g, p, l, s₀, hg, hp, hloop, hstarted, hworker, hown⟩

/-! ## The configuration that the gateway goes by -/

/-- The configuration that a step loads. -/
def Gateway.loads (g : Gateway) : GatewayStep → Option Config
  | .enter _ _ _ => none
  | .other a => g.system.loads a

/-- The configuration loaded last, `latest` being that before these steps. -/
def latestLoaded (latest : Config) (g : Gateway) : List GatewayStep → Config
  | [] => latest
  | a :: steps =>
    match g.step a with
    | none => latest
    | some g' => latestLoaded ((g.loads a).getD latest) g' steps

/-- A dead worker is replaced by one with no other configuration than the one loaded last. -/
def ReplacedByLatest (g : Gateway) : GatewayStep → Prop
  | .enter _ _ _ => True
  | .other a => ReplacesLatest g.system a

instance (g : Gateway) : DecidablePred (ReplacedByLatest g)
  | .enter _ _ _ => isTrue trivial
  | .other a => inferInstanceAs (Decidable (ReplacesLatest g.system a))

/-- Between two reloads: from the end of the last old worker to the next load. -/
def MasterPc.between : MasterPc → Bool
  | .reloading | .incrementing => false
  | pc => !pc.reloads

theorem between_iff {pc : MasterPc} : pc.between = true ↔
    pc.reloads = false ∧ pc ≠ .reloading ∧ pc ≠ .incrementing := by
  cases pc <;> simp [MasterPc.between, MasterPc.reloads]

/-- The workers forked since the latest increment have the configuration loaded last. -/
def NewHaveLatest (latest : Config) (s : System) : Prop :=
  s.master.pc ≠ .reloading → s.master.pc ≠ .incrementing →
    ∀ pid p, s.procs pid = some p → p.bornAt = s.increments → p.cfg = latest

/-- The invariant, `n` being the number of the workers' slots. -/
structure ConfigInv (n : Nat) (latest : Config) (s : System) : Prop where
  places : PlacesInv n s
  loaded : LatestInv latest s
  recent : NewHaveLatest latest s

theorem masterStep_children {s s' : System} {k : MasterCalls} (h : MasterStep s k s') {pid : Int}
    {p : WorkerProc} (hp : s'.procs pid = some p) : s.procs pid = some p ∨ s.procs pid = none := by
  have hforked {cfg : Config} {t : System} (hfork : ForkStep s cfg k.forked t)
      (hprocs : s'.procs = t.procs) : s.procs pid = some p ∨ s.procs pid = none := by
    rw [hprocs] at hp
    cases hfork with
    | failed => exact .inl hp
    | child _ hfree =>
      obtain ⟨rfl, _⟩ | ⟨_, hold⟩ := update_some hp
      · exact .inr hfree
      · exact .inl hold
  cases h.forksBy with
  | first t _ _ hfork hprocs => exact hforked hfork hprocs
  | reload t _ _ hfork hprocs => exact hforked hfork hprocs
  | replacement t _ _ hfork hprocs => exact hforked hfork hprocs
  | none _ hprocs => exact .inl (hprocs pid p hp)

/-- What a master's step leaves of the new workers' configuration. -/
theorem recent_master {n : Nat} {latest : Config} {s s' : System} {k : MasterCalls}
    (h : ConfigInv n latest s) (hreplaces : ReplacesLatest s (.master k)) (hstep : MasterStep s k s') :
    NewHaveLatest ((s.loads (.master k)).getD latest) s' := by
  have hforks := (masterStep_forks h.loaded hstep).mpr hreplaces
  -- away from the load, the publication and the increment
  have hsame (hreload : s.master.pc ≠ .reloading) (hcount : s.master.pc ≠ .incrementing)
      (hload : s.loads (.master k) = none) :
      NewHaveLatest ((s.loads (.master k)).getD latest) s' := by
    have hincrements : s'.increments = s.increments := by
      cases hstep.move.words with
      | kept _ hincrements => exact hincrements
      | incremented hpc => exact absurd hpc hcount
      | stored _ hincrements => exact hincrements
    rw [hload]
    intro _ _ pid p hp hborn
    obtain hold | hfree := masterStep_children hstep hp
    · exact h.recent hreload hcount pid p hold (hborn.trans hincrements)
    · exact hforks pid p hfree hp
  cases hstep with
  | loads => exact fun hne => absurd rfl hne
  | reloads => exact fun _ hne => absurd rfl hne
  | increments =>
    intro _ _ pid p hp hborn
    have hbefore := (h.places.either hp).2.1
    replace hborn : p.bornAt = s.increments + 1 := hborn
    omega
  | loadFails hpc hloaded =>
    exact hsame (by simp [hpc]) (by simp [hpc]) (by rw [System.loads, if_pos hpc, hloaded])
  | _ => exact hsame (by simp [*]) (by simp [*]) (by simp [System.loads, *])

theorem configInv_step {n : Nat} {latest : Config} {s s' : System} {a : SystemStep}
    (h : ConfigInv n latest s) (hreplaces : ReplacesLatest s a) (hstep : s.step a = some s') :
    ConfigInv n ((s.loads a).getD latest) s' := by
  refine ⟨placesInv_step h.places hstep, step_latest h.loaded hstep, ?_⟩
  cases a with
  | sighup =>
    cases hstep
    exact h.recent
  | master k => exact recent_master h hreplaces (master_step hstep)
  | worker pid a =>
    obtain ⟨p, pc', _, hp, _, rfl⟩ := worker_step hstep
    intro hreload hcount q p' hp' hborn
    obtain ⟨rfl, hself⟩ | ⟨_, hold⟩ := update_some hp'
    · cases hself
      exact h.recent hreload hcount _ p hp hborn
    · exact h.recent hreload hcount q p' hold hborn

theorem configInv_run {n : Nat} (steps : List GatewayStep) : ∀ {latest : Config} {g g' : Gateway},
    ConfigInv n latest g.system → Meets Gateway.step ReplacedByLatest g steps →
      run Gateway.step g steps = some g' → ConfigInv n (latestLoaded latest g steps) g'.system := by
  induction steps with
  | nil =>
    intro latest g g' h _ hrun
    cases hrun
    exact h
  | cons a steps ih =>
    intro latest g g' h hmeets hrun
    obtain ⟨g₁, hstep, hrest⟩ := Option.bind_eq_some_iff.mp hrun
    rw [latestLoaded, hstep]
    refine ih ?_ (hmeets.2 g₁ hstep) hrest
    cases a with
    | enter pid k table =>
      obtain ⟨p, listenFd, _, _, hsystem, _⟩ := gatewayStep_enter hstep
      exact configInv_step (a := .worker pid _) h trivial hsystem
    | other a => exact configInv_step h hmeets.1 (gatewayStep_other hstep).2.1

/-- The worker goes by this configuration: it is the one that it reads, the clients on its blacklist
    are refused and no others, the limiter has its rate, and the worker connects to its server and
    nowhere else. -/
structure GoesBy (cfg : Config) (w : LoopWorld) : Prop where
  reads : w.loop.worker.cfg = cfg
  refuses : ∀ e i c, RunsHandler w e i c .clientRead → e.request.state = .done →
    (Listed cfg c.clientIp.text ↔ Refuses c e.request (onEvent w.loop e).2)
  limits : w.loop.worker.rl.rate = rateLimit cfg
  connects : ∀ e host port, .connectUpstream host port ∈ (onEvent w.loop e).2 →
    ∃ a, serverAddr cfg = some a ∧ host = CharArray.snprintf size64_pos a.1 ∧ port = a.2

theorem settings_step {cfg : Config} {s s' : LoopWorld} {a : WorkerStep}
    (h : s.loop.worker.cfg = cfg ∧ s.loop.worker.rl.rate = rateLimit cfg)
    (hstep : s.step a = some s') :
    s'.loop.worker.cfg = cfg ∧ s'.loop.worker.rl.rate = rateLimit cfg := by
  obtain ⟨hcfg, hrate⟩ := h
  have hlimiter := limiterStep hstep
  constructor
  · cases a with
    | health node healthy =>
      cases hstep
      exact hcfg
    | event e =>
      obtain ⟨_, _, htables, _⟩ := onEvent_tables s.loop e
      rw [(worldStep_some hstep).2.2.1, htables.cfg, hcfg]
  · rw [← hrate]
    generalize s.admission a = given at hlimiter
    generalize s'.loop.worker.rl = rl' at hlimiter
    cases hlimiter with
    | unused => rfl
    | called k => exact (rlCheck_keys s.loop.worker.rl k.ip k.createdMs k.nowMs).1

theorem goesBy_run {cfg : Config} {s₀ s : LoopWorld} (h₀ : StartedWith cfg s₀)
    {steps : List WorkerStep} (hrun : run LoopWorld.step s₀ steps = some s) : GoesBy cfg s := by
  have hbl : s.loop.worker.bl = startBlacklist cfg := by
    rw [run_bl hrun, h₀.worker]
    rfl
  have hstart : s₀.loop.worker.cfg = cfg ∧ s₀.loop.worker.rl.rate = rateLimit cfg := by
    rw [h₀.worker]
    exact ⟨rfl, rfl⟩
  obtain ⟨hreads, hrate⟩ : s.loop.worker.cfg = cfg ∧ s.loop.worker.rl.rate = rateLimit cfg :=
    run_keeps settings_step steps hstart hrun
  refine ⟨hreads, fun e i c hruns hdone => listed_iff_refuses hbl hruns hdone, hrate, fun e host port hmem => ?_⟩
  exact ((connects_iff cfg h₀.worker hrun e host port).mp hmem).2.2

/-- **Between two reloads the gateway goes by the configuration loaded last.** For every run of
    the master, its workers and the signals, with any reloads, deaths and failed forks, in which
    no dead worker is replaced by one with another configuration: in every state between two
    reloads, every worker in its loop goes by the configuration loaded last, whatever it and
    the others have done. -/
theorem latest_in_force (cfg : Config) (online : Int32) {steps : List GatewayStep} {g : Gateway}
    (hreplaced : Meets Gateway.step ReplacedByLatest (gatewayInit cfg online) steps)
    (hrun : run Gateway.step (gatewayInit cfg online) steps = some g)
    (hbetween : g.system.master.pc.between = true) {pid : Int} {p : WorkerProc}
    (hp : g.system.procs pid = some p) {l : EventLoop} (hl : p.pc.loop = some l) :
    GoesBy (latestLoaded cfg (gatewayInit cfg online) steps) ⟨l, g.tables pid⟩ := by
  have hinit : ConfigInv (workerCount cfg online) cfg (gatewayInit cfg online).system :=
    ⟨placesInv_init cfg online, latestInv_init cfg online, nofun⟩
  have hinv := configInv_run steps hinit hreplaced hrun
  obtain ⟨hquiet, hreload, hcount⟩ := between_iff.mp hbetween
  have hborn := (hinv.places.settled hquiet hp).2
  rw [← hinv.recent hreload hcount pid p hp hborn]
  obtain ⟨s₀, hbegun, hown⟩ := shown_run (w := ⟨l, g.tables pid⟩) hrun ⟨p, hp, rfl, hl, rfl⟩
  exact goesBy_run hbegun hown

theorem latest_in_force_reloaded : ∃ g p l,
    run Gateway.step (gatewayInit (configLoad plainFile) 1) reloadedGateway = some g ∧
    g.system.procs 101 = some p ∧ p.pc.loop = some l ∧
    Listed (configLoad listingFile) sampleIp.text ∧
    GoesBy (configLoad listingFile) ⟨l, g.tables 101⟩ := by
  have hruns : (run Gateway.step (gatewayInit (configLoad plainFile) 1) reloadedGateway).map
      (fun g => (g.system.master.pc.between, (g.loop 101).isSome)) = some (true, true) := by
    decide +kernel
  have hreplaced : Meets Gateway.step ReplacedByLatest (gatewayInit (configLoad plainFile) 1)
      reloadedGateway := by decide +kernel
  have hlatest : latestLoaded (configLoad plainFile) (gatewayInit (configLoad plainFile) 1)
      reloadedGateway = configLoad listingFile := by decide +kernel
  obtain ⟨g, hg, hstate⟩ := Option.map_eq_some_iff.mp hruns
  obtain ⟨hbetween, hthere⟩ := Prod.mk.inj hstate
  obtain ⟨l, hl⟩ := Option.isSome_iff_exists.mp hthere
  obtain ⟨p, hp, hloop⟩ := Option.bind_eq_some_iff.mp hl
  have hforce := latest_in_force (configLoad plainFile) 1 hreplaced hg hbetween hp hloop
  rw [hlatest] at hforce
  exact ⟨g, p, l, hg, hp, hloop, by decide +kernel, hforce⟩

end NexusGateway
