import NexusGateway.WorkerPlaces
import NexusGateway.ActiveCount

/- A worker that drains.

   While a reload waits for its old workers, `shutting_down` is set (`flagInv_run`), the
   generation stays, and each old worker that has recorded a smaller one finds both in every
   load that it makes from then on. So it drains for good (`drains_for_good`): whatever the
   master, the other workers and the signals do, it refuses every connection that it is
   offered, its clients only get fewer, every pass of its loop is one of drain mode, and it
   leaves in the first of them that finds no active connection. -/
namespace NexusGateway

/-! ## The flag -/

/-- `shutting_down` is what the master's place says. -/
def FlagInv (s : System) : Prop :=
  s.shared.shuttingDown = if s.master.pc.drains then 1 else 0

theorem FlagInv.goto {s t : System} {pc : MasterPc} {m : Master} (h : FlagInv s)
    (hpc : s.master.pc = pc) (hflag : t.shared.shuttingDown = s.shared.shuttingDown)
    (hsame : m.pc.drains = pc.drains) : FlagInv (t.withMaster m) := by
  unfold FlagInv at h ⊢
  rw [hpc] at h
  rw [show (t.withMaster m).master.pc.drains = pc.drains from hsame]
  exact hflag.trans h

theorem ForkStep.flag {s t : System} {cfg : Config} {r : Int} (h : ForkStep s cfg r t) :
    t.shared.shuttingDown = s.shared.shuttingDown := by
  obtain ⟨procs, rfl, _⟩ := h.procs
  rfl

theorem WaitStep.flag {s t : System} {pid r : Int} (h : WaitStep s pid r t) :
    t.shared.shuttingDown = s.shared.shuttingDown := by
  obtain ⟨procs, killed, rfl, _⟩ := h.procs
  rfl

theorem CollectStep.flag {s t : System} {pid r : Int} (h : CollectStep s pid r t) :
    t.shared.shuttingDown = s.shared.shuttingDown := by
  obtain ⟨procs, killed, rfl, _⟩ := h.procs
  rfl

theorem FlagInv.master {s s' : System} {k : MasterCalls} (h : FlagInv s) (hstep : MasterStep s k s') :
    FlagInv s' := by
  cases hstep with
  | spawns _ _ hpc _ hfork => exact h.goto hpc hfork.flag rfl
  | spawned _ hpc => exact h.goto hpc rfl rfl
  | asked hpc => exact h.goto hpc rfl rfl
  | unasked hpc => exact h.goto hpc rfl rfl
  | clears hpc => exact h.goto hpc rfl rfl
  | loadFails hpc => exact h.goto hpc rfl rfl
  | loads _ hpc => exact h.goto hpc rfl rfl
  | reloads hpc => exact h.goto hpc rfl rfl
  | increments hpc => exact h.goto hpc rfl rfl
  | sets => rfl
  | respawns _ _ hpc _ hfork => exact h.goto hpc hfork.flag rfl
  | respawned _ hpc => exact h.goto hpc rfl rfl
  | skips _ _ _ hpc => exact h.goto hpc rfl rfl
  | drained _ _ _ _ hpc _ _ hwait => exact h.goto hpc hwait.flag rfl
  | drains _ _ _ _ hpc _ _ hwait => exact h.goto hpc hwait.flag rfl
  | drainEnds _ _ hpc => exact h.goto hpc rfl rfl
  | drainAgain _ _ hpc => exact h.goto hpc rfl rfl
  | kills _ _ hpc => exact h.goto hpc rfl rfl
  | spares _ _ hpc => exact h.goto hpc rfl rfl
  | killed _ hpc => exact h.goto hpc rfl rfl
  | collects _ _ hpc hwait => exact h.goto hpc hwait.flag rfl
  | finishes => rfl
  | reaps _ _ _ hpc _ hwait => exact h.goto hpc hwait.flag rfl
  | passes _ _ _ hpc _ hwait => exact h.goto hpc hwait.flag rfl
  | scanned _ hpc => exact h.goto hpc rfl rfl
  | replaces _ _ hpc hfork => exact h.goto hpc hfork.flag rfl

theorem flagInv_step {s s' : System} {a : SystemStep} (h : FlagInv s) (hstep : s.step a = some s') :
    FlagInv s' := by
  cases a with
  | sighup =>
    cases hstep
    exact h
  | master k => exact h.master (master_step hstep)
  | worker pid a =>
    obtain ⟨p, pc', _, _, _, rfl⟩ := worker_step hstep
    exact h

theorem flagInv_init (cfg : Config) (online : Int32) : FlagInv (systemInit cfg online) := rfl

theorem flagInv_run {cfg : Config} {online : Int32} {steps : List SystemStep} {s : System}
    (hrun : (systemInit cfg online).run steps = some s) : FlagInv s :=
  Runs.run_keeps flagInv_step steps (flagInv_init cfg online) hrun

theorem FlagInv.drains {s : System} (h : FlagInv s) (hset : s.shared.shuttingDown ≠ 0) :
    s.master.pc.drains = true := by
  unfold FlagInv at h
  by_contra hno
  rw [if_neg hno] at h
  exact hset h

theorem FlagInv.set {s : System} (h : FlagInv s) (hdrains : s.master.pc.drains = true) :
    s.shared.shuttingDown ≠ 0 := by
  unfold FlagInv at h
  rw [h, if_pos hdrains]
  decide

/-! ## The old workers of a reload -/

theorem setting_from {s s' : System} {k : MasterCalls} (hstep : MasterStep s k s')
    (hsetting : s'.master.pc = .setting) : s.master.pc = .incrementing := by
  cases hstep with
  | increments hpc => exact hpc
  | _ => cases hsetting

theorem drains_kept {n : Nat} {s s' : System} {k : MasterCalls} (hplaces : PlacesInv n s')
    (hstep : MasterStep s k s') (hdrains : s.master.pc.drains = true) {pid : Int} {p : WorkerProc}
    (hp : s'.procs pid = some p) (hborn : p.bornAt + 1 = s'.increments) :
    s'.master.pc.drains = true := by
  cases hplaces.known pid p hp with
  | worker j hget hslot hworker =>
    cases hpc : s'.master.pc with
    | setting =>
      rw [setting_from hstep hpc] at hdrains
      cases hdrains
    | _ =>
      rw [hpc] at hworker
      simp only [MasterPc.behind] at hworker
      omega
  | old j hget hawaits =>
    cases hpc : s'.master.pc with
    | respawning | draining | killing | collecting => rfl
    | _ =>
      rw [hpc] at hawaits
      cases hawaits

/-! ## The clients of a loop -/

/-- The loop holds no client that the other one does not hold. -/
structure Emptier (l l' : EventLoop) : Prop where
  clients : ∀ (i : Nat) (c' : ProxyConn), l'.pool.slots[i]? = some c' → 0 < c'.fd →
    ∃ c, l.pool.slots[i]? = some c ∧ c.fd = c'.fd
  active : l'.worker.activeConns ≤ l.worker.activeConns
  generation : l'.myGeneration = l.myGeneration

theorem Emptier.refl (l : EventLoop) : Emptier l l :=
  ⟨fun _ c hc _ => ⟨c, hc, rfl⟩, le_rfl, rfl⟩

theorem Emptier.trans {l₁ l₂ l₃ : EventLoop} (h : Emptier l₁ l₂) (h' : Emptier l₂ l₃) :
    Emptier l₁ l₃ := by
  refine ⟨fun i c₃ hc₃ hpos => ?_, h'.active.trans h.active, h'.generation.trans h.generation⟩
  obtain ⟨c₂, hc₂, hfd⟩ := h'.clients i c₃ hc₃ hpos
  obtain ⟨c₁, hc₁, hfd'⟩ := h.clients i c₂ hc₂ (hfd ▸ hpos)
  exact ⟨c₁, hc₁, hfd'.trans hfd⟩

theorem slotStep_emptier {c c' : ProxyConn} {active active' : Int} {ev : UInt32} {k : EventCalls}
    {ops : List Descriptors.Op} (h : SlotStep c active ev k c' active' ops) :
    (0 < c'.fd → c.fd = c'.fd) ∧ active' ≤ active := by
  have hclose : afterClose c active ≤ active := by
    unfold afterClose
    split <;> omega
  cases h with
  | kept => exact ⟨fun _ => rfl, le_rfl⟩
  | connected _ _ hfd => exact ⟨fun _ => hfd.symm, le_rfl⟩
  | sent _ hfd => exact ⟨fun _ => hfd.symm, le_rfl⟩
  | released _ hfd => exact ⟨fun hpos => by omega, hclose⟩
  | releasedTwice _ _ hfd => exact ⟨fun hpos => by omega, hclose⟩
  | dropped _ _ hfd => exact ⟨fun hpos => by omega, le_rfl⟩

/-- An event of a connection brings no client. -/
theorem onEvent_emptier {l : EventLoop} {e : Event} (hother : e.fd ≠ l.listenFd) :
    Emptier l (onEvent l e).1 := by
  have hgeneration := onEvent_generation l e
  have hstep := onEvent_step l e
  generalize e.ops (onEvent l e).2 = ops at hstep
  generalize (onEvent l e).1 = l' at hstep hgeneration ⊢
  cases hstep with
  | still => exact Emptier.refl l
  | forgot _ hlisten => exact absurd hlisten hother
  | admitted _ _ _ hlisten => exact absurd hlisten hother
  | handled i c c' _ _ hget hpool _ hslot =>
    obtain ⟨hfd, hactive⟩ := slotStep_emptier hslot
    refine ⟨fun j c₁ hc₁ hpos => ?_, hactive, hgeneration⟩
    rw [hpool] at hc₁
    by_cases hj : i = j
    · subst hj
      rw [List.getElem?_set_self (List.getElem?_eq_some_iff.mp hget).1] at hc₁
      cases hc₁
      exact ⟨c, hget, hfd hpos⟩
    · rw [List.getElem?_set_ne hj] at hc₁
      exact ⟨c₁, hc₁, rfl⟩

/-! ## A worker that is told -/

/-- What the worker has loaded of `shutting_down` and not used yet. -/
def WorkerPc.loaded : WorkerPc → Option Int32
  | .accepting _ v => some v
  | .checking _ v => some v
  | _ => none

/-- The worker's loop is emptier than `l₀`, and it holds no load from before it was told. -/
structure Told (l₀ : EventLoop) (pc : WorkerPc) : Prop where
  started : pc ≠ .starting
  loop : ∀ l, pc.loop = some l → Emptier l₀ l
  loaded : ∀ v, pc.loaded = some v → v ≠ 0

theorem Told.drains {l₀ l : EventLoop} {pc : WorkerPc} (h : Told l₀ pc) {generation v : Int32}
    (hgreater : generation > l₀.myGeneration) (hl : pc.loop = some l) (hv : pc.loaded = some v) :
    l.shouldDrain v generation = true :=
  shouldDrain_iff.mpr ⟨h.loaded v hv, (h.loop l hl).generation ▸ hgreater⟩

/-- What a draining worker does in a step because of the drain. -/
def drainNotices (l : EventLoop) : WorkerAct → List Notice
  | .accept _ => [.refused]
  | .decide => if l.worker.activeConns = 0 then [.drainMode, .leftLoop] else [.drainMode]
  | _ => []

section Told

variable {sh : Shared} {cfg : Config} {pc pc' : WorkerPc} {a : WorkerAct} {notices : List Notice}
  {l₀ : EventLoop} (hmove : WorkerMove sh cfg pc a pc' notices) (h : Told l₀ pc)
  (hset : sh.shuttingDown ≠ 0) (hgreater : sh.drainGeneration > l₀.myGeneration)

include hmove h hset hgreater

/-- A step of a worker that is told leaves it told, and is one of a drain. -/
theorem told_move : Told l₀ pc' ∧ ∀ l, pc.loop = some l → notices = drainNotices l a := by
  cases hmove with
  | entered => exact absurd rfl h.started
  | handled l e hother =>
    refine ⟨⟨nofun, fun l' hl' => ?_, nofun⟩, fun _ _ => rfl⟩
    cases hl'
    exact (h.loop l rfl).trans (onEvent_emptier hother)
  | judged l node healthy =>
    refine ⟨⟨nofun, fun l' hl' => ?_, nofun⟩, fun _ _ => rfl⟩
    cases hl'
    exact (h.loop l rfl).trans ⟨(Emptier.refl l).clients, le_rfl, rfl⟩
  | judgedAccepting l v node healthy =>
    refine ⟨⟨nofun, fun l' hl' => ?_, h.loaded⟩, fun _ _ => rfl⟩
    cases hl'
    exact (h.loop l rfl).trans ⟨(Emptier.refl l).clients, le_rfl, rfl⟩
  | judgedChecking l v node healthy =>
    refine ⟨⟨nofun, fun l' hl' => ?_, h.loaded⟩, fun _ _ => rfl⟩
    cases hl'
    exact (h.loop l rfl).trans ⟨(Emptier.refl l).clients, le_rfl, rfl⟩
  | loaded l =>
    refine ⟨⟨nofun, h.loop, fun v hv => ?_⟩, fun _ _ => rfl⟩
    cases hv
    exact hset
  | checked l =>
    refine ⟨⟨nofun, h.loop, fun v hv => ?_⟩, fun _ _ => rfl⟩
    cases hv
    exact hset
  | accepted l v e hlisten hv hgen =>
    have hv0 := h.loaded v rfl
    have hrefuses : l.refuses e.calls.accept = true := by
      rw [refuses_iff, hv, hgen.resolve_left hv0, (h.loop l rfl).generation]
      exact ⟨hv0, hgreater⟩
    rw [if_pos hrefuses, onEvent_refused hlisten hrefuses]
    exact ⟨⟨nofun, h.loop, nofun⟩, fun _ _ => rfl⟩
  | drained l v hdrain hactive =>
    refine ⟨⟨nofun, nofun, nofun⟩, fun l' hl' => ?_⟩
    cases hl'
    exact (if_pos hactive).symm
  | draining l v hdrain hactive =>
    refine ⟨⟨nofun, h.loop, nofun⟩, fun l' hl' => ?_⟩
    cases hl'
    exact (if_neg hactive).symm
  | stayed l v hstays =>
    rw [h.drains hgreater rfl rfl] at hstays
    cases hstays
  | died => exact ⟨⟨nofun, nofun, nofun⟩, fun _ _ => rfl⟩

end Told

/-! ## Any run from there -/

theorem increments_step {s s' : System} {a : SystemStep} (hstep : s.step a = some s') :
    s.increments ≤ s'.increments := by
  cases a with
  | sighup =>
    cases hstep
    exact le_rfl
  | master k => exact wordsMove_increments (master_move hstep).words
  | worker pid a =>
    obtain ⟨p, pc', _, _, _, rfl⟩ := worker_step hstep
    exact le_rfl

/-- What every run keeps: the tables, the generation and the flag. -/
structure ReloadInv (n : Nat) (s : System) : Prop where
  places : PlacesInv n s
  generations : GenerationInv s
  flag : FlagInv s

theorem reloadInv_step {n : Nat} {s s' : System} {a : SystemStep} (h : ReloadInv n s)
    (hstep : s.step a = some s') : ReloadInv n s' :=
  ⟨placesInv_step h.places hstep, generationInv_step h.generations hstep, flagInv_step h.flag hstep⟩

theorem reloadInv_run {cfg : Config} {online : Int32} {steps : List SystemStep} {s : System}
    (hrun : (systemInit cfg online).run steps = some s) : ReloadInv (workerCount cfg online) s :=
  ⟨placesInv_run hrun, generationInv_run hrun, flagInv_run hrun⟩

/-- The worker with this number, forked after so many increments, is told wherever it is. -/
structure DrainInv (n : Nat) (pid : Int) (bornAt : Nat) (l₀ : EventLoop) (s : System) : Prop
    extends ReloadInv n s where
  begun : bornAt + 1 ≤ s.increments
  told : ∀ p, s.procs pid = some p → p.bornAt = bornAt → s.master.pc.drains = true ∧ Told l₀ p.pc

theorem DrainInv.increments {n : Nat} {pid : Int} {bornAt : Nat} {l₀ : EventLoop} {s : System}
    (h : DrainInv n pid bornAt l₀ s) {p : WorkerProc} (hp : s.procs pid = some p)
    (hborn : p.bornAt = bornAt) : s.increments = bornAt + 1 := by
  have hle := (h.places.either hp).2.2
  have hbegun := h.begun
  omega

theorem drainInv_step {n : Nat} {pid : Int} {bornAt : Nat} {l₀ : EventLoop}
    (hgreater : Int32.ofNat (bornAt + 1) > l₀.myGeneration) {s s' : System} {a : SystemStep}
    (h : DrainInv n pid bornAt l₀ s) (hstep : s.step a = some s') : DrainInv n pid bornAt l₀ s' := by
  have hinv := reloadInv_step h.toReloadInv hstep
  refine ⟨hinv, ?_, ?_⟩
  · exact h.begun.trans (increments_step hstep)
  intro p hp hborn
  cases a with
  | sighup =>
    cases hstep
    exact h.told p hp hborn
  | master k =>
    have hmaster := master_step hstep
    obtain hold | ⟨cfg, rfl⟩ := hmaster.move.procs pid p hp
    · obtain ⟨hdrains, htold⟩ := h.told p hold hborn
      have hlate : p.bornAt + 1 = s'.increments := by
        have hle := (hinv.places.either hp).2.2
        have hbegun := h.begun.trans (increments_step hstep)
        omega
      exact ⟨drains_kept hinv.places hmaster hdrains hp hlate, htold⟩
    · -- a new process is forked later
      have hbegun := h.begun
      simp only at hborn
      omega
  | worker q a =>
    obtain ⟨p₁, pc', notices, hp₁, hmove, rfl⟩ := worker_step hstep
    obtain ⟨rfl, hself⟩ | ⟨_, hold⟩ := update_some hp
    · cases hself
      replace hborn : p₁.bornAt = bornAt := hborn
      obtain ⟨hdrains, htold⟩ := h.told p₁ hp₁ hborn
      refine ⟨hdrains, (told_move hmove htold (h.flag.set hdrains) ?_).1⟩
      rw [h.generations.counted, h.increments hp₁ hborn]
      exact hgreater
    · exact h.told p hold hborn

theorem ReloadInv.late {n : Nat} {s : System} (h : ReloadInv n s) {pid : Int} {p : WorkerProc}
    {l : EventLoop} (hp : s.procs pid = some p) (hl : p.pc.loop = some l)
    (hgreater : s.shared.drainGeneration > l.myGeneration) : s.increments = p.bornAt + 1 := by
  obtain ⟨m, hborn, hm, hg⟩ := (h.generations.procs pid p hp).recorded l hl
  have hle := (h.places.either hp).2.2
  by_contra hne
  have hsame : l.myGeneration = s.shared.drainGeneration := by
    rw [hg, h.generations.counted]
    congr 1
    omega
  rw [hsame, gt_iff_lt, Int32.lt_iff_toInt_lt] at hgreater
  exact lt_irrefl _ hgreater

theorem drainInv_waiting {n : Nat} {s : System} (h : ReloadInv n s) {pid : Int} {p : WorkerProc}
    {l : EventLoop} (hp : s.procs pid = some p) (hpc : p.pc = .waiting l)
    (hdrain : l.shouldDrain s.shared.shuttingDown s.shared.drainGeneration = true) :
    s.increments = p.bornAt + 1 ∧ Int32.ofNat (p.bornAt + 1) > l.myGeneration ∧
      DrainInv n pid p.bornAt l s := by
  obtain ⟨hset, hgreater⟩ := shouldDrain_iff.mp hdrain
  have hlate := h.late hp (by rw [hpc]; rfl) hgreater
  refine ⟨hlate, ?_, h, hlate.ge, fun q hq _ => ?_⟩
  · rw [← hlate, ← h.generations.counted]
    exact hgreater
  · cases hp.symm.trans hq
    rw [hpc]
    refine ⟨h.flag.drains hset, nofun, fun l' hl' => ?_, nofun⟩
    cases hl'
    exact Emptier.refl l

/-- What is so of a draining worker's process later on, `l` being its loop when it was told. -/
structure DrainsOn (s s' : System) (pid : Int) (p' : WorkerProc) (l : EventLoop) : Prop where
  reload : s'.increments = s.increments ∧ s'.master.pc.drains = true ∧ s'.shared.shuttingDown ≠ 0
  emptier : ∀ l', p'.pc.loop = some l' → Emptier l l'
  steps : ∀ (l' : EventLoop) (a : WorkerAct) (t : System) (notices : List Notice),
    p'.pc.loop = some l' → s'.workerStep pid a = some (t, notices) → notices = drainNotices l' a

/-- **A worker drains for good.** For every run and every state in which a worker waits for
    events and is to drain, and whatever the master, the workers and the signals do after it:
    until that process is reaped or killed, the reload is the same one and `shutting_down` is set;
    no slot holds a client that it did not hold then, and no more connections are counted;
    each connection it is offered it refuses, each pass of its loop is one of drain mode, and
    it leaves in exactly those with no active connection. -/
theorem drains_for_good (cfg : Config) (online : Int32) {steps more : List SystemStep}
    {s s' : System} (hrun : (systemInit cfg online).run steps = some s)
    (hmore : s.run more = some s') {pid : Int} {p p' : WorkerProc} {l : EventLoop}
    (hp : s.procs pid = some p) (hpc : p.pc = .waiting l)
    (hdrain : l.shouldDrain s.shared.shuttingDown s.shared.drainGeneration = true)
    (hp' : s'.procs pid = some p') (hsame : p'.bornAt = p.bornAt) : DrainsOn s s' pid p' l := by
  obtain ⟨hlate, hborn, hinv⟩ := drainInv_waiting (reloadInv_run hrun) hp hpc hdrain
  have hlater : DrainInv (workerCount cfg online) pid p.bornAt l s' :=
    Runs.run_keeps (drainInv_step hborn) more hinv hmore
  obtain ⟨hdrains, htold'⟩ := hlater.told p' hp' hsame
  have hincrements := hlater.increments hp' hsame
  refine ⟨⟨hincrements.trans hlate.symm, hdrains, hlater.flag.set hdrains⟩, htold'.loop, ?_⟩
  intro l' a t notices hl' hstep
  obtain ⟨q, pc', hq, hmove, _⟩ := workerStep_some hstep
  cases hp'.symm.trans hq
  refine (told_move hmove htold' (hlater.flag.set hdrains) ?_).2 l' hl'
  rw [hlater.generations.counted, hincrements]
  exact hborn

/-- A client that a worker of the first generation takes in. -/
def earlyClient : Event :=
  ⟨5, epollIn, { EventCalls.idle with accept := ⟨0, 0, 7, .empty, 40000⟩ }⟩

/-- One worker has a client when a reload begins to drain it. -/
def drainSteps : List SystemStep :=
  [.master ⟨none, 100, 0⟩, .master noCalls, .worker 100 (.enter idleWorker 5),
    .worker 100 .loadShutting, .worker 100 (.accept earlyClient), .sighup, .master noCalls,
    .master noCalls, .master ⟨some sampleConfig, 0, 0⟩, .master noCalls, .master noCalls,
    .master noCalls]

/-- It passes the end of its loop, the new worker is forked, and it is offered a connection. -/
def drainedSteps : List SystemStep :=
  [.worker 100 .check, .worker 100 .decide, .master ⟨none, 101, 0⟩, .worker 100 .loadShutting,
    .worker 100 (.accept lateClient)]

/-- The loop of a worker that waits for events. -/
def WorkerPc.waitsIn : WorkerPc → Option EventLoop
  | .waiting l => some l
  | _ => none

theorem waitsIn_some {pc : WorkerPc} {l : EventLoop} (h : pc.waitsIn = some l) : pc = .waiting l := by
  cases pc <;> cases h
  rfl

theorem drains_for_good_client : ∃ s s' p p' l,
    (systemInit sampleConfig 1).run drainSteps = some s ∧ s.run drainedSteps = some s' ∧
    s.procs 100 = some p ∧ p.pc = .waiting l ∧ s'.procs 100 = some p' ∧ DrainsOn s s' 100 p' l := by
  have hbefore : (((systemInit sampleConfig 1).run drainSteps).bind fun s => (s.procs 100).bind fun p =>
      p.pc.waitsIn.map fun l => (p.bornAt, l.shouldDrain s.shared.shuttingDown s.shared.drainGeneration))
      = some (0, true) := by decide +kernel
  have hafter : (((systemInit sampleConfig 1).run drainSteps).bind fun s =>
      (s.run drainedSteps).bind fun s' => (s'.procs 100).map WorkerProc.bornAt) = some 0 := by
    decide +kernel
  obtain ⟨s, hs, hbefore⟩ := Option.bind_eq_some_iff.mp hbefore
  obtain ⟨p, hp, hbefore⟩ := Option.bind_eq_some_iff.mp hbefore
  obtain ⟨l, hl, hstate⟩ := Option.map_eq_some_iff.mp hbefore
  obtain ⟨hborn, hdrain⟩ := Prod.mk.inj hstate
  rw [hs, Option.bind_some] at hafter
  obtain ⟨s', hs', hafter⟩ := Option.bind_eq_some_iff.mp hafter
  obtain ⟨p', hp', hborn'⟩ := Option.map_eq_some_iff.mp hafter
  have hpc := waitsIn_some hl
  exact ⟨s, s', p, p', l, hs, hs', hp, hpc, hp', drains_for_good sampleConfig 1 hs hs' hp hpc hdrain hp'
    (hborn'.trans hborn.symm)⟩

end NexusGateway
