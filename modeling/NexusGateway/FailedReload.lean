import NexusGateway.Generations
import NexusGateway.WorkerStart

/- A reload with a configuration that no worker can start with.

   Of a new configuration the master learns only whether the file could be opened. With
   any text that it reads, it publishes the configuration, increments the generation,
   sets `shutting_down` and hands its workers to the drain, and only then forks the
   workers that find out (`failed_start_reloads`). None of these ever has an event loop.

   A worker's step that ends its start-up is here the start-up of `nexus_worker_run`
   (`System.startStep`). -/
namespace NexusGateway
open CString

/-! ## Workers that have started -/

/-- A worker enters its loop with what the start-up with its configuration has built. -/
def Started (calls : Bytes → Int32 → ListenCalls) (s : System) : SystemStep → Prop
  | .worker pid (.enter w listenFd) => ∀ p ∈ s.procs pid, workerStart calls p.cfg = some (w, listenFd)
  | _ => True

instance (calls : Bytes → Int32 → ListenCalls) (s : System) : DecidablePred (Started calls s)
  | .sighup => isTrue trivial
  | .master _ => isTrue trivial
  | .worker _ (.enter _ _) => inferInstanceAs (Decidable (∀ p ∈ _, _ = _))
  | .worker _ (.event _) => isTrue trivial
  | .worker _ (.health _ _) => isTrue trivial
  | .worker _ .loadShutting => isTrue trivial
  | .worker _ (.accept _) => isTrue trivial
  | .worker _ .check => isTrue trivial
  | .worker _ .decide => isTrue trivial
  | .worker _ .die => isTrue trivial

/-- The next step of any process, where a worker has a loop only once it has started. -/
def System.startStep (calls : Bytes → Int32 → ListenCalls) (s : System) (a : SystemStep) :
    Option System :=
  if Started calls s a then s.step a else none

def System.startRun (calls : Bytes → Int32 → ListenCalls) (s : System) (steps : List SystemStep) :
    Option System :=
  Runs.run (System.startStep calls) s steps

theorem startStep_some {calls : Bytes → Int32 → ListenCalls} {s s' : System} {a : SystemStep}
    (h : s.startStep calls a = some s') : Started calls s a ∧ s.step a = some s' := by
  unfold System.startStep at h
  split at h
  · rename_i hstarted
    exact ⟨hstarted, h⟩
  · cases h

/-- A worker that has an event loop could start with its configuration. -/
def LoopsStarted (calls : Bytes → Int32 → ListenCalls) (s : System) : Prop :=
  ∀ pid p, s.procs pid = some p → ∀ l, p.pc.loop = some l → (workerStart calls p.cfg).isSome = true

theorem loopsStarted_step {calls : Bytes → Int32 → ListenCalls} {s s' : System} {a : SystemStep}
    (h : LoopsStarted calls s) (hstep : s.startStep calls a = some s') : LoopsStarted calls s' := by
  obtain ⟨hstarted, htaken⟩ := startStep_some hstep
  intro q p' hq l' hl'
  cases a with
  | sighup =>
    cases htaken
    exact h q p' hq l' hl'
  | master k =>
    obtain hold | ⟨cfg, rfl⟩ := (master_move htaken).procs q p' hq
    · exact h q p' hold l' hl'
    · cases hl'
  | worker pid a =>
    obtain ⟨p, pc', _, hp, hmove, rfl⟩ := worker_step htaken
    obtain ⟨_, hself⟩ | ⟨_, hold⟩ := update_some hq
    · cases hself
      obtain ⟨l, hl, _⟩ | ⟨henters, _⟩ := workerMove_generation hmove hl'
      · exact h pid p hp l hl
      -- the start-up gave the worker that it enters with
      · cases a with
        | enter w listenFd => exact Option.isSome_of_eq_some (hstarted p hp)
        | _ => cases henters
    · exact h q p' hold l' hl'

theorem loopsStarted_run {calls : Bytes → Int32 → ListenCalls} {cfg : Config} {online : Int32}
    {steps : List SystemStep} {s : System}
    (hrun : (systemInit cfg online).startRun calls steps = some s) : LoopsStarted calls s := by
  have hinit : LoopsStarted calls (systemInit cfg online) := fun _ _ hp => by cases hp
  exact Runs.run_keeps loopsStarted_step steps hinit hrun

/-! ## The first steps of a reload -/

/-- What a reload that fails as a whole leaves as it was. -/
structure LeftAlone (s s' : System) : Prop where
  generation : s'.shared.drainGeneration = s.shared.drainGeneration
  shuttingDown : s'.shared.shuttingDown = s.shared.shuttingDown
  activeSlot : s'.shared.activeSlot = s.shared.activeSlot
  workers : s'.master.workerPids = s.master.workerPids

/-- What a reload has done when it begins to fork. -/
structure Restarting (cfg : Config) (s s' : System) : Prop where
  latest : s'.master.newCfg = cfg
  generation : s'.shared.drainGeneration = s.shared.drainGeneration + 1
  shuttingDown : s'.shared.shuttingDown = 1
  activeSlot : s'.shared.activeSlot = 1 - s.shared.activeSlot
  drained : s'.master.oldPids = s.master.workerPids
  workers : s'.master.workerPids = List.replicate s.master.workerPids.length 0

theorem Restarting.not_leftAlone {cfg : Config} {s s' : System} (h : Restarting cfg s s') :
    ¬ LeftAlone s s' := by
  intro hleft
  have hslot := h.activeSlot.symm.trans hleft.activeSlot
  omega

/-- The master after the load, when it has taken this many steps more. -/
def Underway (cfg : Config) (s : System) : Nat → System → Prop
  | 0, s' => s'.master.pc = .reloading ∧ s'.master.newCfg = cfg ∧ s'.shared = s.shared ∧
      s'.master.workerPids = s.master.workerPids
  | 1, s' => s'.master.pc = .incrementing ∧ s'.master.newCfg = cfg ∧
      s'.shared = reloadConfig s.shared cfg ∧ s'.master.workerPids = s.master.workerPids
  | 2, s' => s'.master.pc = .setting ∧ s'.master.newCfg = cfg ∧
      s'.shared = { reloadConfig s.shared cfg with drainGeneration := s.shared.drainGeneration + 1 } ∧
      s'.master.workerPids = s.master.workerPids
  | _, s' => Restarting cfg s s'

theorem underway_load {s s' : System} {k : MasterCalls} {cfg : Config} (hpc : s.master.pc = .loading)
    (hloaded : k.loaded = some cfg) (h : MasterStep s k s') : Underway cfg s 0 s' := by
  cases h with
  | loads cfg' _ hloaded' =>
    cases hloaded.symm.trans hloaded'
    exact ⟨rfl, rfl, rfl, rfl⟩
  | _ => simp_all

theorem underway_publish {s s₁ s₂ : System} {k : MasterCalls} {cfg : Config}
    (h : Underway cfg s 0 s₁) (hstep : MasterStep s₁ k s₂) : Underway cfg s 1 s₂ := by
  obtain ⟨hpc, hcfg, hshared, hworkers⟩ := h
  cases hstep with
  | reloads => exact ⟨rfl, hcfg, by rw [← hshared, ← hcfg]; rfl, hworkers⟩
  | _ => simp_all

theorem underway_increment {s s₁ s₂ : System} {k : MasterCalls} {cfg : Config}
    (h : Underway cfg s 1 s₁) (hstep : MasterStep s₁ k s₂) : Underway cfg s 2 s₂ := by
  obtain ⟨hpc, hcfg, hshared, hworkers⟩ := h
  cases hstep with
  | increments =>
    refine ⟨rfl, hcfg, ?_, hworkers⟩
    show { s₁.shared with drainGeneration := s₁.shared.drainGeneration + 1 } = _
    rw [hshared]
    rfl
  | _ => simp_all

theorem underway_set {s s₁ s₂ : System} {k : MasterCalls} {cfg : Config}
    (h : Underway cfg s 2 s₁) (hstep : MasterStep s₁ k s₂) : Underway cfg s 3 s₂ := by
  obtain ⟨hpc, hcfg, hshared, hworkers⟩ := h
  cases hstep with
  | sets =>
    have hgen : s₁.shared.drainGeneration = s.shared.drainGeneration + 1 := by rw [hshared]
    have hslot : s₁.shared.activeSlot = 1 - s.shared.activeSlot := by
      rw [hshared]
      rfl
    exact ⟨hcfg, hgen, rfl, hslot, hworkers, by rw [← hworkers]; rfl⟩
  | _ => simp_all

theorem underway_master {s s₁ s₂ : System} {k : MasterCalls} {cfg : Config} {n : Nat} (hn : n < 3)
    (h : Underway cfg s n s₁) (hstep : MasterStep s₁ k s₂) : Underway cfg s (n + 1) s₂ := by
  obtain rfl | rfl | rfl : n = 0 ∨ n = 1 ∨ n = 2 := by omega
  · exact underway_publish h hstep
  · exact underway_increment h hstep
  · exact underway_set h hstep

theorem underway_other {s s₁ s₂ : System} {a : SystemStep} {cfg : Config} {n : Nat}
    (ha : a.isMaster = false) (h : Underway cfg s n s₁) (hstep : s₁.step a = some s₂) :
    Underway cfg s n s₂ := by
  obtain ⟨hshared, sighup, hmaster⟩ := other_step ha hstep
  unfold Underway at h ⊢
  split at h
  · simpa only [hshared, hmaster] using h
  · simpa only [hshared, hmaster] using h
  · simpa only [hshared, hmaster] using h
  · obtain ⟨hlatest, hgen, hflag, hslot, hdrained, hworkers⟩ := h
    constructor <;> simp only [*]

theorem underway_run {calls : Bytes → Int32 → ListenCalls} {s : System} {cfg : Config}
    (steps : List SystemStep) : ∀ {n : Nat} {s₁ s₂ : System}, n + masterSteps steps ≤ 3 →
      Underway cfg s n s₁ → s₁.startRun calls steps = some s₂ →
      Underway cfg s (n + masterSteps steps) s₂ := by
  induction steps with
  | nil =>
    intro n s₁ s₂ _ h hrun
    cases hrun
    exact h
  | cons a steps ih =>
    intro n s₁ s₂ hle h hrun
    obtain ⟨t, hstep, hrest⟩ := Option.bind_eq_some_iff.mp hrun
    obtain ⟨_, htaken⟩ := startStep_some hstep
    unfold masterSteps at hle ih ⊢
    rw [List.countP_cons] at hle ⊢
    by_cases ha : a.isMaster = true
    · rw [if_pos ha] at hle ⊢
      cases a with
      | master k =>
        have hnext := ih (by omega) (underway_master (by omega) h (master_step htaken)) hrest
        rwa [Nat.add_right_comm, Nat.add_assoc] at hnext
      | _ => cases ha
    · rw [if_neg ha] at hle ⊢
      exact ih hle (underway_other (Bool.eq_false_iff.mpr ha) h htaken) hrest

/-- **A reload does not fail with a configuration that no worker can start with.** For
    every text of the configuration file with which the start-up of a worker fails, every
    run that has come to the load, and every run from there in which the master has taken
    three steps more, with any steps of its workers and any signals in between: the
    generation is incremented, `shutting_down` set, the other slot in use and every
    worker handed to the drain, and no worker that is forked with this configuration
    has an event loop. -/
theorem failed_start_reloads (calls : Bytes → Int32 → ListenCalls) {file : Bytes}
    (hfail : workerStart calls (configLoad file) = none) (cfg : Config) (online : Int32)
    {before steps : List SystemStep} {s s' : System} {k : MasterCalls}
    (hbefore : (systemInit cfg online).startRun calls before = some s)
    (hpc : s.master.pc = .loading) (hloaded : k.loaded = some (configLoad file))
    (hthree : masterSteps steps = 3) (hrun : s.startRun calls (.master k :: steps) = some s') :
    ¬ LeftAlone s s' ∧ Restarting (configLoad file) s s' ∧
      ∀ pid p, s'.procs pid = some p → p.cfg = configLoad file → p.pc.loop = none := by
  obtain ⟨s₁, hload, hrest⟩ := Option.bind_eq_some_iff.mp hrun
  have hstart := underway_load hpc hloaded (master_step (startStep_some hload).2)
  have hend := underway_run steps (by omega) hstart hrest
  rw [hthree] at hend
  refine ⟨hend.not_leftAlone, hend, fun pid p hp hcfg => ?_⟩
  have hwhole : (systemInit cfg online).startRun calls (before ++ .master k :: steps) = some s' := by
    rw [System.startRun, Runs.run_append]
    exact Option.bind_eq_some_iff.mpr ⟨s, hbefore, hrun⟩
  cases hloop : p.pc.loop with
  | none => rfl
  | some l =>
    have hcan := loopsStarted_run hwhole pid p hp l hloop
    rw [hcfg, hfail] at hcan
    cases hcan

/-- The system calls when they succeed. -/
def openSocket : Bytes → Int32 → ListenCalls := fun _ _ => ⟨5, 0, 0⟩

/-- A file without an address to listen on. -/
def silentFile : Bytes := ascii "[server]\nlog_level = info\n"

/-- A worker is started, and the master is about to load. -/
def loadSteps : List SystemStep :=
  [.master ⟨none, 100, 0⟩, .master noCalls, .worker 100 (.enter idleWorker 5), .sighup,
    .master noCalls, .master noCalls]

/-- The load of that file and the master's next three steps. -/
def silentSteps : List SystemStep :=
  [.master ⟨some (configLoad silentFile), 0, 0⟩, .master noCalls, .worker 100 .check,
    .master noCalls, .master noCalls]

theorem failed_start_reloads_silent : ∃ s s',
    (systemInit sampleConfig 1).startRun openSocket loadSteps = some s ∧
    s.startRun openSocket silentSteps = some s' ∧
    ¬ LeftAlone s s' ∧ Restarting (configLoad silentFile) s s' ∧
      ∀ pid p, s'.procs pid = some p → p.cfg = configLoad silentFile → p.pc.loop = none := by
  have hrun : ((systemInit sampleConfig 1).startRun openSocket loadSteps).bind (fun s =>
      (s.startRun openSocket silentSteps).map (fun _ => s.master.pc)) = some .loading := by
    decide +kernel
  obtain ⟨s, hs, hmap⟩ := Option.bind_eq_some_iff.mp hrun
  obtain ⟨s', hs', hpc⟩ := Option.map_eq_some_iff.mp hmap
  have hfail : workerStart openSocket (configLoad silentFile) = none := by decide +kernel
  exact ⟨s, s', hs, hs', failed_start_reloads openSocket hfail sampleConfig 1 hs hpc rfl rfl hs'⟩

/-- The workers cannot start, and the reload goes on. -/
theorem silent_file_reloads : workerStart openSocket (configLoad silentFile) = none ∧
    ∃ s s', (systemInit sampleConfig 1).startRun openSocket loadSteps = some s ∧
      s.startRun openSocket silentSteps = some s' ∧ s.shared.drainGeneration = 0 ∧
      s'.shared.drainGeneration = 1 ∧ ¬ LeftAlone s s' := by
  refine ⟨by decide +kernel, ?_⟩
  have hrun : ((systemInit sampleConfig 1).startRun openSocket loadSteps).bind (fun s =>
      (s.startRun openSocket silentSteps).map (fun s' =>
        (s.shared.drainGeneration, s'.shared.drainGeneration))) = some (0, 1) := by
    decide +kernel
  obtain ⟨s, hs, hmap⟩ := Option.bind_eq_some_iff.mp hrun
  obtain ⟨s', hs', hgens⟩ := Option.map_eq_some_iff.mp hmap
  obtain ⟨hgen, hgen'⟩ := Prod.mk.inj hgens
  refine ⟨s, s', hs, hs', hgen, hgen', fun hleft => ?_⟩
  have hsame := hleft.generation
  rw [hgen, hgen'] at hsame
  exact absurd hsame (by decide)

end NexusGateway
