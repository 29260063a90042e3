import NexusGateway.Generations

/- The configuration that a worker is forked with.

   A reload forks its workers with the configuration it has just loaded. The scan that
   replaces workers that have died forks theirs with the one the master was started with.
   So every worker gets the configuration most recently loaded exactly when none is
   replaced after a reload has loaded another (`forks_latest_iff`). -/
namespace NexusGateway
open CString

/-- The configuration that a step loads. -/
def System.loads (s : System) : SystemStep → Option Config
  | .master k => if s.master.pc = .loading then k.loaded else none
  | _ => none

/-- The children of a step all have this configuration. -/
def ForksWith (cfg : Config) (s s' : System) : Prop :=
  ∀ pid p, s.procs pid = none → s'.procs pid = some p → p.cfg = cfg

/-- Every worker that the steps fork gets the configuration most recently loaded,
    `latest` being that before the first of them. -/
def ForksLatest (latest : Config) (s : System) : List SystemStep → Prop
  | [] => True
  | a :: steps => ∀ s' ∈ s.step a, ForksWith latest s s' ∧
      ForksLatest ((s.loads a).getD latest) s' steps

/-- A worker that has died is being replaced. -/
def MasterPc.replaces : MasterPc → Bool
  | .replacing _ => true
  | _ => false

/-- A fork that replaces a dead worker finds no later configuration than the first. -/
def ReplacesLatest (s : System) : SystemStep → Prop
  | .master k => s.master.pc.replaces = true → k.forked ≠ -1 → s.master.cfg = s.master.newCfg
  | _ => True

instance (s : System) : DecidablePred (ReplacesLatest s)
  | .sighup => isTrue trivial
  | .master _ => inferInstanceAs (Decidable (_ → _ → _))
  | .worker _ _ => isTrue trivial

/-- The master remembers the configuration most recently loaded, and has loaded no other
    while it forks its first workers. -/
structure LatestInv (latest : Config) (s : System) : Prop where
  newCfg : s.master.newCfg = latest
  first : ∀ i, s.master.pc = .spawning i → s.master.cfg = latest

/-- The fork of a step, with its configuration: the first workers' and the replacements'
    is the one that the master was started with. -/
inductive ForksBy (s : System) (k : MasterCalls) (s' : System) : Prop
  | first (t : System) (i : Nat) (hpc : s.master.pc = .spawning i)
      (hfork : ForkStep s s.master.cfg k.forked t) (hprocs : s'.procs = t.procs)
  | reload (t : System) (i : Nat) (hpc : s.master.pc = .respawning i)
      (hfork : ForkStep s s.master.newCfg k.forked t) (hprocs : s'.procs = t.procs)
  | replacement (t : System) (i : Nat) (hpc : s.master.pc = .replacing i)
      (hfork : ForkStep s s.master.cfg k.forked t) (hprocs : s'.procs = t.procs)
  | none (hpc : s.master.pc.replaces = false)
      (hprocs : ∀ pid p, s'.procs pid = some p → s.procs pid = some p)

theorem WaitStep.keeps {s t : System} {pid r : Int} (h : WaitStep s pid r t) (m : Master) :
    ∀ q p, (t.withMaster m).procs q = some p → s.procs q = some p := by
  intro q p hp
  cases h with
  | running => exact hp
  | reaped => exact procs_removed hp

theorem CollectStep.keeps {s t : System} {pid r : Int} (h : CollectStep s pid r t) (m : Master) :
    ∀ q p, (t.withMaster m).procs q = some p → s.procs q = some p := by
  intro q p hp
  cases h with
  | failed => exact hp
  | reaped => exact procs_removed hp

theorem MasterStep.forksBy {s s' : System} {k : MasterCalls} (h : MasterStep s k s') :
    ForksBy s k s' := by
  cases h with
  | spawns i t hpc _ hfork => exact .first t i hpc hfork rfl
  | respawns i t hpc _ hfork => exact .reload t i hpc hfork rfl
  | replaces i t hpc hfork => exact .replacement t i hpc hfork rfl
  | drained _ _ _ _ hpc _ _ hwait => exact .none (by rw [hpc]; rfl) (hwait.keeps _)
  | drains _ _ _ _ hpc _ _ hwait => exact .none (by rw [hpc]; rfl) (hwait.keeps _)
  | reaps _ _ _ hpc _ hwait => exact .none (by rw [hpc]; rfl) (hwait.keeps _)
  | passes _ _ _ hpc _ hwait => exact .none (by rw [hpc]; rfl) (hwait.keeps _)
  | kills _ pid hpc => exact .none (by rw [hpc]; rfl) (fun q p hp => procs_removed hp)
  | collects _ _ hpc hwait => exact .none (by rw [hpc]; rfl) (hwait.keeps _)
  | _ => exact .none (by simp [MasterPc.replaces, *]) (fun _ _ hp => hp)

theorem ForkStep.forksWith {s s' t : System} {cfg cfg' : Config} {r : Int} (h : ForkStep s cfg r t)
    (hprocs : s'.procs = t.procs) : ForksWith cfg' s s' ↔ (r ≠ -1 → cfg = cfg') := by
  unfold ForksWith
  rw [hprocs]
  cases h with
  | failed hr =>
    refine ⟨fun _ hne => absurd hr hne, fun _ pid p hnone hp => ?_⟩
    rw [hnone] at hp
    cases hp
  | child hr hfree =>
    constructor
    · intro hforks _
      exact hforks r ⟨cfg, .starting, s.increments⟩ hfree (Function.update_self ..)
    · intro heq pid p hnone hp
      obtain ⟨_, hnew⟩ | ⟨_, hold⟩ := update_some hp
      · cases hnew
        exact heq (by omega)
      · rw [hnone] at hold
        cases hold

theorem replacesLatest_of_not {s : System} (h : s.master.pc.replaces = false) (k : MasterCalls) :
    ReplacesLatest s (.master k) := by
  intro hreplaces
  rw [h] at hreplaces
  cases hreplaces

/-- What a master's step forks has the latest configuration, unless it is a replacement. -/
theorem masterStep_forks {latest : Config} {s s' : System} {k : MasterCalls} (h : LatestInv latest s)
    (hstep : MasterStep s k s') : ForksWith latest s s' ↔ ReplacesLatest s (.master k) := by
  cases hstep.forksBy with
  | first t i hpc hfork hprocs =>
    rw [hfork.forksWith hprocs]
    exact ⟨fun _ => replacesLatest_of_not (by rw [hpc]; rfl) k, fun _ _ => h.first i hpc⟩
  | reload t i hpc hfork hprocs =>
    rw [hfork.forksWith hprocs]
    exact ⟨fun _ => replacesLatest_of_not (by rw [hpc]; rfl) k, fun _ _ => h.newCfg⟩
  | replacement t i hpc hfork hprocs =>
    rw [hfork.forksWith hprocs, ← h.newCfg, ReplacesLatest, hpc]
    exact ⟨fun heq _ => heq, fun heq => heq rfl⟩
  | none hpc hprocs =>
    refine ⟨fun _ => replacesLatest_of_not hpc k, fun _ pid p hnone hp => ?_⟩
    rw [hprocs pid p hp] at hnone
    cases hnone

/-- A step forks workers with the latest configuration exactly when it replaces none
    with another. -/
theorem step_forks {latest : Config} {s s' : System} {a : SystemStep} (h : LatestInv latest s)
    (hstep : s.step a = some s') : ForksWith latest s s' ↔ ReplacesLatest s a := by
  cases a with
  | sighup =>
    cases hstep
    refine ⟨fun _ => trivial, fun _ pid p hnone hp => ?_⟩
    rw [show s.procs pid = some p from hp] at hnone
    cases hnone
  | master k => exact masterStep_forks h (master_step hstep)
  | worker pid a =>
    refine ⟨fun _ => trivial, fun _ q p hnone hp => ?_⟩
    obtain ⟨p₁, pc', _, hp₁, _, rfl⟩ := worker_step hstep
    obtain ⟨rfl, _⟩ | ⟨_, hold⟩ := update_some hp
    · rw [hp₁] at hnone
      cases hnone
    · rw [hold] at hnone
      cases hnone

theorem masterStep_latest {latest : Config} {s s' : System} {k : MasterCalls} (h : LatestInv latest s)
    (hstep : MasterStep s k s') : LatestInv ((s.loads (.master k)).getD latest) s' := by
  cases hstep with
  | loads cfg hpc hloaded =>
    rw [System.loads, if_pos hpc, hloaded]
    exact ⟨rfl, nofun⟩
  | loadFails hpc hloaded =>
    rw [System.loads, if_pos hpc, hloaded]
    exact ⟨h.newCfg, nofun⟩
  | spawns i t hpc =>
    rw [System.loads, if_neg (by simp [hpc])]
    exact ⟨h.newCfg, fun _ _ => h.first i hpc⟩
  | _ =>
    rw [System.loads, if_neg (by simp [*])]
    exact ⟨h.newCfg, by simp [System.withMaster]⟩

theorem step_latest {latest : Config} {s s' : System} {a : SystemStep} (h : LatestInv latest s)
    (hstep : s.step a = some s') : LatestInv ((s.loads a).getD latest) s' := by
  cases a with
  | sighup =>
    cases hstep
    exact ⟨h.newCfg, h.first⟩
  | master k => exact masterStep_latest h (master_step hstep)
  | worker pid a =>
    obtain ⟨_, _, _, _, _, rfl⟩ := worker_step hstep
    exact ⟨h.newCfg, h.first⟩

theorem forksLatest_iff (steps : List SystemStep) : ∀ {latest : Config} {s s' : System},
    LatestInv latest s → s.run steps = some s' →
      (ForksLatest latest s steps ↔ Runs.Meets System.step ReplacesLatest s steps) := by
  induction steps with
  | nil => exact fun _ _ => ⟨fun _ => trivial, fun _ => trivial⟩
  | cons a steps ih =>
    intro latest s s' h hrun
    obtain ⟨s₁, hstep, hrest⟩ := Option.bind_eq_some_iff.mp hrun
    have hfirst := step_forks h hstep
    have hlater := ih (step_latest h hstep) hrest
    constructor
    · intro hall
      obtain ⟨hforks, hmore⟩ := hall s₁ hstep
      refine ⟨hfirst.mp hforks, fun s₂ hs₂ => ?_⟩
      cases hstep.symm.trans hs₂
      exact hlater.mp hmore
    · intro hmeets s₂ hs₂
      cases hstep.symm.trans hs₂
      exact ⟨hfirst.mpr hmeets.1, hlater.mpr (hmeets.2 s₁ hstep)⟩

theorem latestInv_init (cfg : Config) (online : Int32) : LatestInv cfg (systemInit cfg online) :=
  ⟨rfl, fun _ _ => rfl⟩

/-- **When every worker gets the configuration most recently loaded.** For every run of the
    master, its workers and the signals sent to it, in any order, with any loads that
    succeed or fail and any workers that die: every worker that the run forks gets the
    configuration most recently loaded before that exactly when no fork that replaces a
    dead worker succeeds while that is another than the master was started with. -/
theorem forks_latest_iff (cfg : Config) (online : Int32) {steps : List SystemStep} {s : System}
    (hrun : (systemInit cfg online).run steps = some s) :
    ForksLatest cfg (systemInit cfg online) steps ↔
      Runs.Meets System.step ReplacesLatest (systemInit cfg online) steps :=
  forksLatest_iff steps (latestInv_init cfg online) hrun

/-- A worker dies and is replaced before any reload. -/
def replaceSteps : List SystemStep :=
  [.master ⟨none, 100, 0⟩, .master noCalls, .worker 100 .die, .master noCalls,
    .master ⟨none, 0, 100⟩, .master ⟨none, 101, 0⟩]

theorem forks_latest_iff_replace : ForksLatest sampleConfig (systemInit sampleConfig 1) replaceSteps ↔
    Runs.Meets System.step ReplacesLatest (systemInit sampleConfig 1) replaceSteps := by
  have hrun : ((systemInit sampleConfig 1).run replaceSteps).isSome = true := by decide +kernel
  obtain ⟨s, hs⟩ := Option.isSome_iff_exists.mp hrun
  exact forks_latest_iff sampleConfig 1 hs

def otherConfig : Config := configLoad (ascii "[server]\nlisten = 127.0.0.1:80\n")

/-- A reload loads another configuration; when it is over its worker dies. -/
def replaceAfterSteps : List SystemStep :=
  [.master ⟨none, 100, 0⟩, .master noCalls, .sighup, .master noCalls, .master noCalls,
    .master ⟨some otherConfig, 0, 0⟩, .master noCalls, .master noCalls, .master noCalls,
    .master ⟨none, 101, 0⟩, .worker 100 .die, .master noCalls, .master ⟨none, 0, 100⟩,
    .master noCalls, .master noCalls, .master noCalls, .master noCalls, .worker 101 .die,
    .master ⟨none, 0, 101⟩, .master ⟨none, 102, 0⟩]

/-- The replacement gets the configuration from before the reload. -/
theorem replacement_outdated :
    (∃ s, (systemInit sampleConfig 1).run replaceAfterSteps = some s) ∧
    ¬ ForksLatest sampleConfig (systemInit sampleConfig 1) replaceAfterSteps := by
  have hrun : ((systemInit sampleConfig 1).run replaceAfterSteps).isSome = true := by decide +kernel
  obtain ⟨s, hs⟩ := Option.isSome_iff_exists.mp hrun
  refine ⟨⟨s, hs⟩, fun hall => ?_⟩
  have hmeets := (forksLatest_iff _ (latestInv_init sampleConfig 1) hs).mp hall
  exact absurd hmeets (by decide +kernel)

end NexusGateway
