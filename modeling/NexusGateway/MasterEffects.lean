import NexusGateway.Master

/- What one step of the master or of a worker does.

   `WorkerMove` lists a worker's steps and `MasterStep` the master's, each with the guard
   it was taken under; what the steps keep is read off these two. `MasterMove` sums up
   what a master's step does to the shared words and to the processes: it forks workers
   and reaps them, and between an increment of the generation and the end of the drain
   it holds `shutting_down` at 1. -/
namespace NexusGateway

/-! ## A worker -/

inductive WorkerMove (sh : Shared) (cfg : Config) :
    WorkerPc → WorkerAct → WorkerPc → List Notice → Prop
  | entered (w : Worker) (listenFd : Int) (hactive : w.activeConns = 0) (hcfg : w.cfg = cfg) :
      WorkerMove sh cfg .starting (.enter w listenFd)
        (.waiting ⟨w, poolInit, listenFd, sh.drainGeneration⟩) []
  | handled (l : EventLoop) (e : Event) (hother : e.fd ≠ l.listenFd) :
      WorkerMove sh cfg (.waiting l) (.event e) (.waiting (onEvent l e).1) []
  | judged (l : EventLoop) (node : Nat) (healthy : Bool) :
      WorkerMove sh cfg (.waiting l) (.health node healthy)
        (.waiting (l.step (.health node healthy))) []
  | judgedAccepting (l : EventLoop) (v : Int32) (node : Nat) (healthy : Bool) :
      WorkerMove sh cfg (.accepting l v) (.health node healthy)
        (.accepting (l.step (.health node healthy)) v) []
  | judgedChecking (l : EventLoop) (v : Int32) (node : Nat) (healthy : Bool) :
      WorkerMove sh cfg (.checking l v) (.health node healthy)
        (.checking (l.step (.health node healthy)) v) []
  | loaded (l : EventLoop) :
      WorkerMove sh cfg (.waiting l) .loadShutting (.accepting l sh.shuttingDown) []
  | accepted (l : EventLoop) (v : Int32) (e : Event) (hlisten : e.fd = l.listenFd)
      (hv : e.calls.accept.shuttingDown = v)
      (hgen : v = 0 ∨ e.calls.accept.drainGeneration = sh.drainGeneration) :
      WorkerMove sh cfg (.accepting l v) (.accept e) (.waiting (onEvent l e).1)
        (if l.refuses e.calls.accept then [.refused] else [])
  | checked (l : EventLoop) : WorkerMove sh cfg (.waiting l) .check (.checking l sh.shuttingDown) []
  | drained (l : EventLoop) (v : Int32) (hdrain : l.shouldDrain v sh.drainGeneration = true)
      (hactive : l.worker.activeConns = 0) :
      WorkerMove sh cfg (.checking l v) .decide .left [.drainMode, .leftLoop]
  | draining (l : EventLoop) (v : Int32) (hdrain : l.shouldDrain v sh.drainGeneration = true)
      (hactive : l.worker.activeConns ≠ 0) :
      WorkerMove sh cfg (.checking l v) .decide (.waiting l) [.drainMode]
  | stayed (l : EventLoop) (v : Int32) (hdrain : l.shouldDrain v sh.drainGeneration = false) :
      WorkerMove sh cfg (.checking l v) .decide (.waiting l) []
  | died (pc : WorkerPc) (hpc : pc ≠ .left) : WorkerMove sh cfg pc .die .left []

/-- A worker's step is one of these. -/
theorem worker_move {sh : Shared} {cfg : Config} {pc pc' : WorkerPc} {a : WorkerAct}
    {notices : List Notice} (h : pc.step sh cfg a = some (pc', notices)) :
    WorkerMove sh cfg pc a pc' notices := by
  unfold WorkerPc.step at h
  split at h
  · split at h
    · rename_i hguard
      cases h
      exact .entered _ _ hguard.1 hguard.2
    · cases h
  · split at h
    · cases h
    · rename_i hother
      cases h
      exact .handled _ _ hother
  · cases h
    exact .judged _ _ _
  · cases h
    exact .judgedAccepting _ _ _ _
  · cases h
    exact .judgedChecking _ _ _ _
  · cases h
    exact .loaded _
  · dsimp only at h
    split at h
    · rename_i hguard
      cases h
      exact .accepted _ _ _ hguard.1 hguard.2.1 hguard.2.2
    · cases h
  · cases h
    exact .checked _
  · split at h
    · rename_i hdrain
      split at h
      · rename_i hactive
        cases h
        exact .drained _ _ hdrain hactive
      · rename_i hactive
        cases h
        exact .draining _ _ hdrain hactive
    · rename_i hdrain
      cases h
      exact .stayed _ _ (Bool.eq_false_iff.mpr hdrain)
  · cases h
  · rename_i hpc
    cases h
    exact .died _ hpc
  · cases h

theorem onEvent_generation (l : EventLoop) (e : Event) :
    (onEvent l e).1.myGeneration = l.myGeneration := by
  unfold onEvent acceptConn
  split
  · split
    · rfl
    · split
      · rfl
      · split <;> rfl
  · split
    · rfl
    · split <;> rfl

/-- The step in which a worker records its generation. -/
def WorkerAct.enters : WorkerAct → Bool
  | .enter _ _ => true
  | _ => false

theorem workerMove_generation {sh : Shared} {cfg : Config} {pc pc' : WorkerPc} {a : WorkerAct}
    {notices : List Notice} (h : WorkerMove sh cfg pc a pc' notices) {l' : EventLoop}
    (hloop : pc'.loop = some l') :
    (∃ l, pc.loop = some l ∧ l'.myGeneration = l.myGeneration) ∨
      (a.enters = true ∧ l'.myGeneration = sh.drainGeneration) := by
  cases h with
  | entered =>
    cases hloop
    exact .inr ⟨rfl, rfl⟩
  | handled l e =>
    cases hloop
    exact .inl ⟨l, rfl, onEvent_generation l e⟩
  | judged l =>
    cases hloop
    exact .inl ⟨l, rfl, rfl⟩
  | judgedAccepting l =>
    cases hloop
    exact .inl ⟨l, rfl, rfl⟩
  | judgedChecking l =>
    cases hloop
    exact .inl ⟨l, rfl, rfl⟩
  | loaded =>
    cases hloop
    exact .inl ⟨l', rfl, rfl⟩
  | accepted l v e =>
    cases hloop
    exact .inl ⟨l, rfl, onEvent_generation l e⟩
  | checked =>
    cases hloop
    exact .inl ⟨l', rfl, rfl⟩
  | drained => cases hloop
  | draining =>
    cases hloop
    exact .inl ⟨l', rfl, rfl⟩
  | stayed =>
    cases hloop
    exact .inl ⟨l', rfl, rfl⟩
  | died => cases hloop

theorem shouldDrain_iff {l : EventLoop} {shuttingDown generation : Int32} :
    l.shouldDrain shuttingDown generation = true ↔
      shuttingDown ≠ 0 ∧ generation > l.myGeneration := by
  rw [EventLoop.shouldDrain, Bool.and_eq_true, bne_iff_ne, decide_eq_true_eq]

theorem refuses_iff {l : EventLoop} {k : AcceptCalls} :
    l.refuses k = true ↔ k.shuttingDown ≠ 0 ∧ k.drainGeneration > l.myGeneration := by
  rw [EventLoop.refuses, Bool.and_eq_true, bne_iff_ne, decide_eq_true_eq]

/-- What a worker does for a drain it does while the generation is greater than its own. -/
theorem workerMove_notices {sh : Shared} {cfg : Config} {pc pc' : WorkerPc} {a : WorkerAct}
    {notices : List Notice} (h : WorkerMove sh cfg pc a pc' notices) (hne : notices ≠ []) :
    ∃ l, pc.loop = some l ∧ sh.drainGeneration > l.myGeneration := by
  cases h with
  | accepted l v e hlisten hv hgen =>
    have hrefuses : l.refuses e.calls.accept = true := by
      by_contra hlet
      exact hne (if_neg hlet)
    obtain ⟨hset, hgreater⟩ := refuses_iff.mp hrefuses
    obtain hzero | hloaded := hgen
    · exact absurd (hv.trans hzero) hset
    · exact ⟨l, rfl, hloaded ▸ hgreater⟩
  | drained l v hdrain => exact ⟨l, rfl, (shouldDrain_iff.mp hdrain).2⟩
  | draining l v hdrain => exact ⟨l, rfl, (shouldDrain_iff.mp hdrain).2⟩
  | _ => exact absurd rfl hne

/-! ## The master -/

/-- What `fork` does: nothing, or there is a child with a number that was not in use. -/
inductive ForkStep (s : System) (cfg : Config) (r : Int) : System → Prop
  | failed (hr : r = -1) : ForkStep s cfg r s
  | child (hr : 0 < r) (hfree : s.procs r = none) :
      ForkStep s cfg r
        { s with procs := Function.update s.procs r (some ⟨cfg, .starting, s.increments⟩) }

/-- What `waitpid` does: nothing, or a child that has exited is reaped. -/
inductive WaitStep (s : System) (pid r : Int) : System → Prop
  | running (hr : r = 0 ∨ r = -1) : WaitStep s pid r s
  | reaped (hr : r ≠ 0 ∧ r ≠ -1) (hpid : pid = r ∨ pid = -1 ∨ pid = 0) (hexited : s.exited r = true) :
      WaitStep s pid r (s.reap r)

/-- What the wait for a killed child does: it is reaped, or the wait fails. -/
inductive CollectStep (s : System) (pid r : Int) : System → Prop
  | failed (hr : r = -1) (hwhy : s.master.sighup = true ∨ s.exited pid = false) :
      CollectStep s pid r s
  | reaped (hr : r = pid) (hexited : s.exited pid = true) : CollectStep s pid r (s.reap pid)

theorem fork_step {s t : System} {cfg : Config} {r : Int} (h : s.fork cfg r = some t) :
    ForkStep s cfg r t := by
  unfold System.fork at h
  split at h
  · rename_i hr
    cases h
    exact .failed hr
  · split at h
    · rename_i hguard
      cases h
      exact .child hguard.1 (Option.isNone_iff_eq_none.mp hguard.2.1)
    · cases h

theorem waitpid_step {s t : System} {pid r : Int} (h : s.waitpid pid r = some t) :
    WaitStep s pid r t := by
  unfold System.waitpid at h
  split at h
  · rename_i hr
    cases h
    exact .running hr
  · rename_i hr
    split at h
    · rename_i hguard
      cases h
      exact .reaped (not_or.mp hr) hguard.1 hguard.2
    · cases h

theorem waitKilled_step {s t : System} {pid r : Int} (h : s.waitKilled pid r = some t) :
    CollectStep s pid r t := by
  unfold System.waitKilled at h
  split at h
  · rename_i hguard
    cases h
    exact .reaped hguard.1 hguard.2
  · split at h
    · rename_i hguard
      cases h
      exact .failed hguard.1 hguard.2
    · cases h

/-- The steps of the master, one for each branch. -/
inductive MasterStep (s : System) (k : MasterCalls) : System → Prop
  | spawns (i : Nat) (t : System) (hpc : s.master.pc = .spawning i)
      (hi : i < s.master.workerPids.length) (hfork : ForkStep s s.master.cfg k.forked t) :
      MasterStep s k (t.withMaster { s.master with
        pc := .spawning (i + 1), workerPids := s.master.workerPids.set i k.forked })
  | spawned (i : Nat) (hpc : s.master.pc = .spawning i) (hi : s.master.workerPids.length ≤ i) :
      MasterStep s k (s.withMaster { s.master with pc := .top })
  | asked (hpc : s.master.pc = .top) (hsighup : s.master.sighup = true) :
      MasterStep s k (s.withMaster { s.master with pc := .clearing })
  | unasked (hpc : s.master.pc = .top) (hsighup : s.master.sighup = false) :
      MasterStep s k (s.withMaster { s.master with pc := .reaping 0 })
  | clears (hpc : s.master.pc = .clearing) :
      MasterStep s k (s.withMaster { s.master with pc := .loading, sighup := false })
  | loadFails (hpc : s.master.pc = .loading) (hloaded : k.loaded = none) :
      MasterStep s k (s.withMaster { s.master with pc := .top })
  | loads (cfg : Config) (hpc : s.master.pc = .loading) (hloaded : k.loaded = some cfg) :
      MasterStep s k (s.withMaster { s.master with pc := .reloading, newCfg := cfg })
  | reloads (hpc : s.master.pc = .reloading) :
      MasterStep s k ({ s with shared := reloadConfig s.shared s.master.newCfg }.withMaster
        { s.master with pc := .incrementing })
  | increments (hpc : s.master.pc = .incrementing) :
      MasterStep s k ({ s with
        shared := { s.shared with drainGeneration := s.shared.drainGeneration + 1 }
        increments := s.increments + 1 }.withMaster { s.master with pc := .setting })
  | sets (hpc : s.master.pc = .setting) :
      MasterStep s k ({ s with shared := { s.shared with shuttingDown := 1 } }.withMaster
        { s.master with
          pc := .respawning 0
          oldPids := s.master.workerPids
          workerPids := List.replicate s.master.workerPids.length 0
          drainDeadline := 30
          leaked := 0 })
  | respawns (i : Nat) (t : System) (hpc : s.master.pc = .respawning i)
      (hi : i < s.master.workerPids.length) (hfork : ForkStep s s.master.newCfg k.forked t) :
      MasterStep s k (t.withMaster { s.master with
        pc := .respawning (i + 1), workerPids := s.master.workerPids.set i k.forked })
  | respawned (i : Nat) (hpc : s.master.pc = .respawning i) (hi : s.master.workerPids.length ≤ i) :
      MasterStep s k (s.withMaster { s.master with pc := .draining 0 0 })
  | skips (i alive : Nat) (pid : Int) (hpc : s.master.pc = .draining i alive)
      (hget : s.master.oldPids[i]? = some pid) (hpid : pid ≤ 0) :
      MasterStep s k (s.withMaster { s.master with pc := .draining (i + 1) alive })
  | drained (i alive : Nat) (pid : Int) (t : System) (hpc : s.master.pc = .draining i alive)
      (hget : s.master.oldPids[i]? = some pid) (hpid : 0 < pid) (hwait : WaitStep s pid k.waited t)
      (hr : k.waited = pid) :
      MasterStep s k (t.withMaster { s.master with
        pc := .draining (i + 1) alive, oldPids := s.master.oldPids.set i 0 })
  | drains (i alive : Nat) (pid : Int) (t : System) (hpc : s.master.pc = .draining i alive)
      (hget : s.master.oldPids[i]? = some pid) (hpid : 0 < pid) (hwait : WaitStep s pid k.waited t)
      (hr : k.waited ≠ pid) :
      MasterStep s k (t.withMaster { s.master with pc := .draining (i + 1) (alive + 1) })
  | drainEnds (i alive : Nat) (hpc : s.master.pc = .draining i alive)
      (hget : s.master.oldPids[i]? = none) (hend : alive = 0 ∨ s.master.drainDeadline ≤ 1) :
      MasterStep s k (s.withMaster { s.master with pc := .killing 0 })
  | drainAgain (i alive : Nat) (hpc : s.master.pc = .draining i alive)
      (hget : s.master.oldPids[i]? = none) (halive : alive ≠ 0)
      (hdeadline : 1 < s.master.drainDeadline) :
      MasterStep s k (s.withMaster { s.master with
        pc := .draining 0 0, drainDeadline := s.master.drainDeadline - 1 })
  | kills (i : Nat) (pid : Int) (hpc : s.master.pc = .killing i)
      (hget : s.master.oldPids[i]? = some pid) (hpid : 0 < pid) :
      MasterStep s k ((s.kill pid).withMaster { s.master with pc := .collecting i })
  | spares (i : Nat) (pid : Int) (hpc : s.master.pc = .killing i)
      (hget : s.master.oldPids[i]? = some pid) (hpid : pid ≤ 0) :
      MasterStep s k (s.withMaster { s.master with pc := .killing (i + 1) })
  | killed (i : Nat) (hpc : s.master.pc = .killing i) (hget : s.master.oldPids[i]? = none) :
      MasterStep s k (s.withMaster { s.master with pc := .finishing, oldPids := [] })
  | collects (i : Nat) (t : System) (hpc : s.master.pc = .collecting i)
      (hwait : CollectStep s (s.master.oldPids[i]?.getD 0) k.waited t) :
      MasterStep s k (t.withMaster { s.master with
        pc := .killing (i + 1), leaked := s.master.leaked + 1 })
  | finishes (hpc : s.master.pc = .finishing) :
      MasterStep s k ({ s with shared := { s.shared with shuttingDown := 0 } }.withMaster
        { s.master with pc := .reaping 0 })
  | reaps (i : Nat) (pid : Int) (t : System) (hpc : s.master.pc = .reaping i)
      (hget : s.master.workerPids[i]? = some pid) (hwait : WaitStep s pid k.waited t)
      (hr : k.waited = pid) :
      MasterStep s k (t.withMaster { s.master with pc := .replacing i })
  | passes (i : Nat) (pid : Int) (t : System) (hpc : s.master.pc = .reaping i)
      (hget : s.master.workerPids[i]? = some pid) (hwait : WaitStep s pid k.waited t)
      (hr : k.waited ≠ pid) :
      MasterStep s k (t.withMaster { s.master with pc := .reaping (i + 1) })
  | scanned (i : Nat) (hpc : s.master.pc = .reaping i) (hget : s.master.workerPids[i]? = none) :
      MasterStep s k (s.withMaster { s.master with pc := .top })
  | replaces (i : Nat) (t : System) (hpc : s.master.pc = .replacing i)
      (hfork : ForkStep s s.master.cfg k.forked t) :
      MasterStep s k (t.withMaster { s.master with
        pc := .reaping (i + 1), workerPids := s.master.workerPids.set i k.forked })

section Branches

variable {s s' : System} {k : MasterCalls} (h : s.masterStep k = some s')

include h

theorem spawning_step {i : Nat} (hpc : s.master.pc = .spawning i) : MasterStep s k s' := by
  simp only [System.masterStep, hpc] at h
  split at h
  · rename_i hi
    obtain ⟨t, hfork, rfl⟩ := Option.map_eq_some_iff.mp h
    exact .spawns i t hpc hi (fork_step hfork)
  · rename_i hi
    cases h
    exact .spawned i hpc (Nat.not_lt.mp hi)

theorem top_step (hpc : s.master.pc = .top) : MasterStep s k s' := by
  simp only [System.masterStep, hpc] at h
  cases h
  by_cases hsighup : s.master.sighup = true
  · rw [if_pos hsighup]
    exact .asked hpc hsighup
  · rw [if_neg hsighup]
    exact .unasked hpc (Bool.eq_false_iff.mpr hsighup)

theorem loading_step (hpc : s.master.pc = .loading) : MasterStep s k s' := by
  simp only [System.masterStep, hpc] at h
  split at h
  · rename_i hloaded
    cases h
    exact .loadFails hpc hloaded
  · rename_i cfg hloaded
    cases h
    exact .loads cfg hpc hloaded

theorem respawning_step {i : Nat} (hpc : s.master.pc = .respawning i) : MasterStep s k s' := by
  simp only [System.masterStep, hpc] at h
  split at h
  · rename_i hi
    obtain ⟨t, hfork, rfl⟩ := Option.map_eq_some_iff.mp h
    exact .respawns i t hpc hi (fork_step hfork)
  · rename_i hi
    cases h
    exact .respawned i hpc (Nat.not_lt.mp hi)

theorem draining_step {i alive : Nat} (hpc : s.master.pc = .draining i alive) : MasterStep s k s' := by
  simp only [System.masterStep, hpc] at h
  split at h
  · rename_i pid hget
    split at h
    · rename_i hpid
      cases h
      exact .skips i alive pid hpc hget hpid
    · rename_i hpid
      obtain ⟨t, hwait, rfl⟩ := Option.map_eq_some_iff.mp h
      split
      · rename_i hr
        exact .drained i alive pid t hpc hget (not_le.mp hpid) (waitpid_step hwait) hr
      · rename_i hr
        exact .drains i alive pid t hpc hget (not_le.mp hpid) (waitpid_step hwait) hr
  · rename_i hget
    split at h
    · rename_i hend
      cases h
      exact .drainEnds i alive hpc hget hend
    · rename_i hend
      cases h
      obtain ⟨halive, hdeadline⟩ := not_or.mp hend
      exact .drainAgain i alive hpc hget halive (Nat.not_le.mp hdeadline)

theorem killing_step {i : Nat} (hpc : s.master.pc = .killing i) : MasterStep s k s' := by
  simp only [System.masterStep, hpc] at h
  split at h
  · rename_i pid hget
    split at h
    · rename_i hpid
      cases h
      exact .kills i pid hpc hget hpid
    · rename_i hpid
      cases h
      exact .spares i pid hpc hget (not_lt.mp hpid)
  · rename_i hget
    cases h
    exact .killed i hpc hget

theorem collecting_step {i : Nat} (hpc : s.master.pc = .collecting i) : MasterStep s k s' := by
  simp only [System.masterStep, hpc] at h
  obtain ⟨t, hwait, rfl⟩ := Option.map_eq_some_iff.mp h
  exact .collects i t hpc (waitKilled_step hwait)

theorem reaping_step {i : Nat} (hpc : s.master.pc = .reaping i) : MasterStep s k s' := by
  simp only [System.masterStep, hpc] at h
  split at h
  · rename_i pid hget
    obtain ⟨t, hwait, rfl⟩ := Option.map_eq_some_iff.mp h
    by_cases hr : k.waited = pid
    · rw [if_pos hr]
      exact .reaps i pid t hpc hget (waitpid_step hwait) hr
    · rw [if_neg hr]
      exact .passes i pid t hpc hget (waitpid_step hwait) hr
  · rename_i hget
    cases h
    exact .scanned i hpc hget

theorem replacing_step {i : Nat} (hpc : s.master.pc = .replacing i) : MasterStep s k s' := by
  simp only [System.masterStep, hpc] at h
  obtain ⟨t, hfork, rfl⟩ := Option.map_eq_some_iff.mp h
  exact .replaces i t hpc (fork_step hfork)

/-- A master's step is one of these. -/
theorem master_step : MasterStep s k s' := by
  cases hpc : s.master.pc with
  | spawning i => exact spawning_step h hpc
  | top => exact top_step h hpc
  | clearing =>
    simp only [System.masterStep, hpc] at h
    cases h
    exact .clears hpc
  | loading => exact loading_step h hpc
  | reloading =>
    simp only [System.masterStep, hpc] at h
    cases h
    exact .reloads hpc
  | incrementing =>
    simp only [System.masterStep, hpc] at h
    cases h
    exact .increments hpc
  | setting =>
    simp only [System.masterStep, hpc] at h
    cases h
    exact .sets hpc
  | respawning i => exact respawning_step h hpc
  | draining i alive => exact draining_step h hpc
  | killing i => exact killing_step h hpc
  | collecting i => exact collecting_step h hpc
  | finishing =>
    simp only [System.masterStep, hpc] at h
    cases h
    exact .finishes hpc
  | reaping i => exact reaping_step h hpc
  | replacing i => exact replacing_step h hpc

end Branches

/-! ## The shared words and the processes -/

/-- The drain of a reload: from the store of `shutting_down` to the next one. -/
def MasterPc.drains : MasterPc → Bool
  | .respawning _ | .draining _ _ | .killing _ | .collecting _ | .finishing => true
  | _ => false

/-- Each process is one of the system's or has just been forked. -/
def ProcsFrom (s : System) (procs : Int → Option WorkerProc) : Prop :=
  ∀ pid p, procs pid = some p → s.procs pid = some p ∨ ∃ cfg, p = ⟨cfg, .starting, s.increments⟩

theorem procsFrom_refl (s : System) : ProcsFrom s s.procs := fun _ _ h => .inl h

theorem update_some {procs : Int → Option WorkerProc} {pid q : Int} {entry : Option WorkerProc}
    {p : WorkerProc} (h : Function.update procs pid entry q = some p) :
    q = pid ∧ entry = some p ∨ q ≠ pid ∧ procs q = some p := by
  by_cases hq : q = pid
  · rw [hq, Function.update_self] at h
    exact .inl ⟨hq, h⟩
  · rw [Function.update_of_ne hq] at h
    exact .inr ⟨hq, h⟩

theorem procs_removed {procs : Int → Option WorkerProc} {r q : Int} {p : WorkerProc}
    (h : Function.update procs r none q = some p) : procs q = some p := by
  obtain ⟨_, he⟩ | ⟨_, hold⟩ := update_some h
  · cases he
  · exact hold

theorem procsFrom_fork (s : System) (pid : Int) (cfg : Config) :
    ProcsFrom s (Function.update s.procs pid (some ⟨cfg, .starting, s.increments⟩)) := by
  intro q p h
  obtain ⟨_, hnew⟩ | ⟨_, hold⟩ := update_some h
  · exact .inr ⟨cfg, (Option.some.inj hnew).symm⟩
  · exact .inl hold

theorem procsFrom_remove (s : System) (pid : Int) :
    ProcsFrom s (Function.update s.procs pid none) :=
  fun _ _ h => .inl (procs_removed h)

theorem ForkStep.procs {s t : System} {cfg : Config} {r : Int} (h : ForkStep s cfg r t) :
    ∃ procs, t = { s with procs := procs } ∧ ProcsFrom s procs := by
  cases h with
  | failed => exact ⟨_, rfl, procsFrom_refl s⟩
  | child => exact ⟨_, rfl, procsFrom_fork s r cfg⟩

theorem WaitStep.procs {s t : System} {pid r : Int} (h : WaitStep s pid r t) :
    ∃ procs killed, t = { s with procs := procs, killed := killed } ∧ ProcsFrom s procs := by
  cases h with
  | running => exact ⟨_, _, rfl, procsFrom_refl s⟩
  | reaped => exact ⟨_, _, rfl, procsFrom_remove s r⟩

theorem CollectStep.procs {s t : System} {pid r : Int} (h : CollectStep s pid r t) :
    ∃ procs killed, t = { s with procs := procs, killed := killed } ∧ ProcsFrom s procs := by
  cases h with
  | failed => exact ⟨_, _, rfl, procsFrom_refl s⟩
  | reaped => exact ⟨_, _, rfl, procsFrom_remove s pid⟩

/-- What a step of the master does to the shared words. -/
inductive WordsMove (s s' : System) : Prop
  | kept (hpc : s.master.pc ≠ .incrementing) (hincrements : s'.increments = s.increments)
      (hgen : s'.shared.drainGeneration = s.shared.drainGeneration)
      (hflag : s'.shared.shuttingDown = s.shared.shuttingDown)
      (hdrains : s'.master.pc.drains = true → s.master.pc.drains = true)
  | incremented (hpc : s.master.pc = .incrementing) (hincrements : s'.increments = s.increments + 1)
      (hgen : s'.shared.drainGeneration = s.shared.drainGeneration + 1)
      (hdrains : s'.master.pc.drains = false)
  | stored (hpc : s.master.pc = .setting ∨ s.master.pc = .finishing)
      (hincrements : s'.increments = s.increments)
      (hgen : s'.shared.drainGeneration = s.shared.drainGeneration)
      (hflag : s'.master.pc.drains = true → s'.shared.shuttingDown = 1)

/-- What a step of the master does. -/
structure MasterMove (s s' : System) : Prop where
  procs : ProcsFrom s s'.procs
  words : WordsMove s s'

section Kept

/- The master goes from one place to another with the shared words left alone. -/
variable {s : System} {pc : MasterPc} {m : Master} (hpc : s.master.pc = pc)
  (hne : pc ≠ .incrementing) (hdrains : m.pc.drains = true → pc.drains = true)

include hpc hne hdrains

theorem masterMove_procs {procs : Int → Option WorkerProc} (killed : List Int)
    (hfrom : ProcsFrom s procs) :
    MasterMove s ({ s with procs := procs, killed := killed }.withMaster m) := by
  subst hpc
  exact ⟨hfrom, .kept hne rfl rfl rfl hdrains⟩

theorem masterMove_with : MasterMove s (s.withMaster m) :=
  masterMove_procs hpc hne hdrains _ (procsFrom_refl s)

theorem masterMove_fork {t : System} {cfg : Config} {r : Int} (h : ForkStep s cfg r t) :
    MasterMove s (t.withMaster m) := by
  obtain ⟨procs, rfl, hfrom⟩ := h.procs
  exact masterMove_procs hpc hne hdrains _ hfrom

theorem masterMove_wait {t : System} {pid r : Int} (h : WaitStep s pid r t) :
    MasterMove s (t.withMaster m) := by
  obtain ⟨procs, killed, rfl, hfrom⟩ := h.procs
  exact masterMove_procs hpc hne hdrains killed hfrom

end Kept

/-- What a master's step does to the shared words and to the processes. -/
theorem MasterStep.move {s s' : System} {k : MasterCalls} (h : MasterStep s k s') :
    MasterMove s s' := by
  cases h with
  | spawns _ _ hpc _ hfork => exact masterMove_fork hpc nofun (by nofun) hfork
  | spawned _ hpc => exact masterMove_with hpc nofun nofun
  | asked hpc => exact masterMove_with hpc nofun nofun
  | unasked hpc => exact masterMove_with hpc nofun nofun
  | clears hpc => exact masterMove_with hpc nofun nofun
  | loadFails hpc => exact masterMove_with hpc nofun nofun
  | loads _ hpc => exact masterMove_with hpc nofun nofun
  | reloads hpc =>
    have hne : s.master.pc ≠ .incrementing := by simp [hpc]
    exact ⟨procsFrom_refl s, .kept hne rfl rfl rfl nofun⟩
  | increments hpc => exact ⟨procsFrom_refl s, .incremented hpc rfl rfl rfl⟩
  | sets hpc => exact ⟨procsFrom_refl s, .stored (.inl hpc) rfl rfl (fun _ => rfl)⟩
  | respawns _ _ hpc _ hfork => exact masterMove_fork hpc nofun (fun _ => rfl) hfork
  | respawned _ hpc => exact masterMove_with hpc nofun (fun _ => rfl)
  | skips _ _ _ hpc => exact masterMove_with hpc nofun (fun _ => rfl)
  | drained _ _ _ _ hpc _ _ hwait => exact masterMove_wait hpc nofun (fun _ => rfl) hwait
  | drains _ _ _ _ hpc _ _ hwait => exact masterMove_wait hpc nofun (fun _ => rfl) hwait
  | drainEnds _ _ hpc => exact masterMove_with hpc nofun (fun _ => rfl)
  | drainAgain _ _ hpc => exact masterMove_with hpc nofun (fun _ => rfl)
  | kills _ pid hpc => exact masterMove_procs hpc nofun (fun _ => rfl) _ (procsFrom_remove s pid)
  | spares _ _ hpc => exact masterMove_with hpc nofun (fun _ => rfl)
  | killed _ hpc => exact masterMove_with hpc nofun (fun _ => rfl)
  | collects _ _ hpc hwait =>
    obtain ⟨procs, killed, rfl, hfrom⟩ := hwait.procs
    exact masterMove_procs hpc nofun (fun _ => rfl) killed hfrom
  | finishes hpc => exact ⟨procsFrom_refl s, .stored (.inr hpc) rfl rfl nofun⟩
  | reaps _ _ _ hpc _ hwait => exact masterMove_wait hpc nofun (by nofun) hwait
  | passes _ _ _ hpc _ hwait => exact masterMove_wait hpc nofun (by nofun) hwait
  | scanned _ hpc => exact masterMove_with hpc nofun nofun
  | replaces _ _ hpc hfork => exact masterMove_fork hpc nofun (by nofun) hfork

theorem master_move {s s' : System} {k : MasterCalls} (h : s.masterStep k = some s') :
    MasterMove s s' :=
  (master_step h).move

/-! ## All processes -/

theorem workerStep_some {s s' : System} {pid : Int} {a : WorkerAct} {notices : List Notice}
    (h : s.workerStep pid a = some (s', notices)) :
    ∃ p pc', s.procs pid = some p ∧ WorkerMove s.shared p.cfg p.pc a pc' notices ∧
      s' = { s with procs := Function.update s.procs pid (some { p with pc := pc' }) } := by
  obtain ⟨p, hp, hmap⟩ := Option.bind_eq_some_iff.mp h
  obtain ⟨r, hstep, hr⟩ := Option.map_eq_some_iff.mp hmap
  cases hr
  exact ⟨p, r.1, hp, worker_move hstep, rfl⟩

theorem worker_step {s s' : System} {pid : Int} {a : WorkerAct}
    (h : s.step (.worker pid a) = some s') :
    ∃ p pc' notices, s.procs pid = some p ∧ WorkerMove s.shared p.cfg p.pc a pc' notices ∧
      s' = { s with procs := Function.update s.procs pid (some { p with pc := pc' }) } := by
  obtain ⟨⟨_, notices⟩, hworker, rfl⟩ := Option.map_eq_some_iff.mp h
  obtain ⟨p, pc', hp, hmove, hs'⟩ := workerStep_some hworker
  exact ⟨p, pc', notices, hp, hmove, hs'⟩

def SystemStep.isMaster : SystemStep → Bool
  | .master _ => true
  | _ => false

/-- The steps that the master takes. -/
def masterSteps (steps : List SystemStep) : Nat := steps.countP SystemStep.isMaster

theorem other_step {s s' : System} {a : SystemStep} (ha : a.isMaster = false)
    (hstep : s.step a = some s') :
    s'.shared = s.shared ∧ ∃ sighup, s'.master = { s.master with sighup := sighup } := by
  cases a with
  | sighup =>
    cases hstep
    exact ⟨rfl, true, rfl⟩
  | master k => cases ha
  | worker pid a =>
    obtain ⟨_, _, _, _, _, rfl⟩ := worker_step hstep
    exact ⟨rfl, s.master.sighup, rfl⟩

/-- What every worker's step keeps of its event loop holds of all loops: a worker that
    is forked has none yet. -/
theorem loops_step {Q : EventLoop → Prop}
    (hmoves : ∀ {sh : Shared} {cfg : Config} {pc pc' : WorkerPc} {a : WorkerAct}
      {notices : List Notice}, WorkerMove sh cfg pc a pc' notices → (∀ l, pc.loop = some l → Q l) →
        ∀ l, pc'.loop = some l → Q l)
    {s s' : System} {a : SystemStep}
    (h : ∀ pid p, s.procs pid = some p → ∀ l, p.pc.loop = some l → Q l)
    (hstep : s.step a = some s') :
    ∀ pid p, s'.procs pid = some p → ∀ l, p.pc.loop = some l → Q l := by
  cases a with
  | sighup =>
    cases hstep
    exact h
  | master k =>
    intro pid p hp
    obtain hold | ⟨cfg, rfl⟩ := (master_move hstep).procs pid p hp
    · exact h pid p hold
    · intro l hl
      cases hl
  | worker pid a =>
    obtain ⟨p, pc', _, hp, hmove, rfl⟩ := worker_step hstep
    intro q p' hq
    obtain ⟨_, hself⟩ | ⟨_, hold⟩ := update_some hq
    · cases hself
      exact hmoves hmove (h pid p hp)
    · exact h q p' hold

end NexusGateway
