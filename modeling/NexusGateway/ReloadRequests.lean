import NexusGateway.Generations

/- The requests to reload.

   The handler of SIGHUP sets `g_sighup`. The master tests it at the top of its loop, and
   clears it before it loads, so that a signal that arrives after the load has started
   leaves it set: whatever the master does until then, it tests it again, and the test
   leads to a load. Only between the clearing and the start of the load is a request
   open while the flag is not set (`reload_request_kept`). -/
namespace NexusGateway
open CString

/-- The processes, and whether SIGHUP was delivered since the start of the most recent
    `nexus_config_load`. -/
structure RequestWorld where
  sys : System
  pending : Bool

/-- Whether a request is open after a step: the signal opens one, and the start of a load
    ends it. -/
def RequestWorld.pendingAfter (r : RequestWorld) : SystemStep → Bool
  | .sighup => true
  | .master _ => r.pending && decide (r.sys.master.pc ≠ .loading)
  | .worker _ _ => r.pending

/-- A step of any process, or the delivery of the signal. -/
def RequestWorld.step (r : RequestWorld) (a : SystemStep) : Option RequestWorld :=
  (r.sys.step a).map fun s => ⟨s, r.pendingAfter a⟩

def RequestWorld.run (r : RequestWorld) (steps : List SystemStep) : Option RequestWorld :=
  Runs.run RequestWorld.step r steps

/-- No signal was delivered yet. -/
def requestInit (cfg : Config) (online : Int32) : RequestWorld := ⟨systemInit cfg online, false⟩

/-! ## No request is lost -/

/-- An open request has set the flag, or the master has just cleared it and loads next. -/
def RequestWorld.Kept (r : RequestWorld) : Prop :=
  r.pending = true → r.sys.master.sighup = true ∨ r.sys.master.pc = .loading

theorem masterStep_sighup {s s' : System} {k : MasterCalls} (h : MasterStep s k s') :
    s'.master.sighup = s.master.sighup ∨ s'.master.pc = .loading := by
  cases h with
  | clears => exact .inr rfl
  | _ => exact .inl rfl

theorem kept_step {r r' : RequestWorld} {a : SystemStep} (h : r.Kept) (hstep : r.step a = some r') :
    r'.Kept := by
  obtain ⟨s, htaken, rfl⟩ := Option.map_eq_some_iff.mp hstep
  intro hpending
  cases a with
  | sighup =>
    cases htaken
    exact .inl rfl
  | worker pid a =>
    obtain ⟨_, _, _, _, _, rfl⟩ := worker_step htaken
    exact h hpending
  | master k =>
    obtain ⟨hbefore, hpc⟩ : r.pending = true ∧ r.sys.master.pc ≠ .loading := by
      simpa [RequestWorld.pendingAfter] using hpending
    -- the load itself ends the request
    obtain hflag | hnext := masterStep_sighup (master_step htaken)
    · exact .inl (hflag.trans ((h hbefore).resolve_right hpc))
    · exact .inr hnext

theorem kept_run {cfg : Config} {online : Int32} {steps : List SystemStep} {r : RequestWorld}
    (hrun : (requestInit cfg online).run steps = some r) : r.Kept := by
  have hinit : (requestInit cfg online).Kept := by
    intro hpending
    cases hpending
  exact Runs.run_keeps kept_step steps hinit hrun

/-! ## The master comes to the load -/

/-- How many steps the master takes at most before it starts a load, when each test of
    `g_sighup` finds it set: to the top of its loop, through the rest of a reload that
    it is in and the scan over its workers. -/
def Master.toLoad (m : Master) : Nat :=
  let count := m.workerPids.length
  let old := m.oldPids.length
  match m.pc with
  | .loading => 0
  | .clearing => 1
  | .top => 2
  | .spawning i => 3 + (count - i)
  | .replacing i => 4 + 2 * (count - (i + 1))
  | .reaping i => 3 + 2 * (count - i)
  | .finishing => 4 + 2 * count
  | .killing i => 5 + 2 * count + 2 * (old - i)
  | .collecting i => 6 + 2 * count + 2 * (old - (i + 1))
  | .draining i _ => 6 + 2 * count + 2 * old + (old - i) + (m.drainDeadline - 1) * (old + 1)
  | .respawning i => 7 + 2 * count + 3 * old + (m.drainDeadline - 1) * (old + 1) + (count - i)
  | .setting => 8 + 6 * count + 29 * (count + 1)
  | .incrementing => 9 + 6 * count + 29 * (count + 1)
  | .reloading => 10 + 6 * count + 29 * (count + 1)

theorem toLoad_step {s s' : System} {k : MasterCalls} (h : MasterStep s k s')
    (hset : s.master.pc = .top → s.master.sighup = true) (hnot : s.master.pc ≠ .loading) :
    s'.master.toLoad < s.master.toLoad := by
  cases h with
  | unasked hpc hsighup => simp_all
  | loadFails hpc => exact absurd hpc hnot
  | loads cfg hpc => exact absurd hpc hnot
  | drainAgain i alive hpc hget halive hdeadline =>
    have hscan : s.master.oldPids.length ≤ i := List.getElem?_eq_none_iff.mp hget
    obtain ⟨d, hd⟩ : ∃ d, s.master.drainDeadline = d + 2 := ⟨s.master.drainDeadline - 2, by omega⟩
    simp only [Master.toLoad, System.withMaster, hpc, hd]
    rw [show d + 2 - 1 = d + 1 from rfl, Nat.add_sub_cancel, Nat.add_one_mul d]
    omega
  | reaps i pid t hpc hget =>
    have hi := (List.getElem?_eq_some_iff.mp hget).1
    simp only [Master.toLoad, System.withMaster, hpc]
    omega
  | passes i pid t hpc hget =>
    have hi := (List.getElem?_eq_some_iff.mp hget).1
    simp only [Master.toLoad, System.withMaster, hpc]
    omega
  | skips i alive pid hpc hget =>
    have hi := (List.getElem?_eq_some_iff.mp hget).1
    simp only [Master.toLoad, System.withMaster, hpc]
    omega
  | drained i alive pid t hpc hget =>
    have hi := (List.getElem?_eq_some_iff.mp hget).1
    simp only [Master.toLoad, System.withMaster, hpc, List.length_set]
    omega
  | drains i alive pid t hpc hget =>
    have hi := (List.getElem?_eq_some_iff.mp hget).1
    simp only [Master.toLoad, System.withMaster, hpc]
    omega
  | kills i pid hpc hget =>
    have hi := (List.getElem?_eq_some_iff.mp hget).1
    simp only [Master.toLoad, System.withMaster, hpc]
    omega
  | spares i pid hpc hget =>
    have hi := (List.getElem?_eq_some_iff.mp hget).1
    simp only [Master.toLoad, System.withMaster, hpc]
    omega
  | _ =>
    simp only [Master.toLoad, System.withMaster, List.length_set, List.length_replicate, *]
    omega

/-- The step does not start a load. -/
def BeforeLoad (r : RequestWorld) : SystemStep → Prop
  | .master _ => r.sys.master.pc ≠ .loading
  | _ => True

theorem pending_step {r r' : RequestWorld} {a : SystemStep} (h : r.Kept ∧ r.pending = true)
    (hbefore : BeforeLoad r a) (hstep : r.step a = some r') :
    (r'.Kept ∧ r'.pending = true) ∧
      r'.sys.master.toLoad + (if a.isMaster then 1 else 0) ≤ r.sys.master.toLoad := by
  obtain ⟨hkept, hpending⟩ := h
  have hnext := kept_step hkept hstep
  obtain ⟨s, htaken, rfl⟩ := Option.map_eq_some_iff.mp hstep
  cases a with
  | sighup =>
    cases htaken
    exact ⟨⟨hnext, rfl⟩, Nat.le_refl _⟩
  | worker pid a =>
    refine ⟨⟨hnext, hpending⟩, ?_⟩
    obtain ⟨_, _, _, _, _, rfl⟩ := worker_step htaken
    exact Nat.le_refl _
  | master k =>
    have hpc : r.sys.master.pc ≠ .loading := hbefore
    refine ⟨⟨hnext, by simp [RequestWorld.pendingAfter, hpending, hpc]⟩, ?_⟩
    exact toLoad_step (master_step htaken) (fun _ => (hkept hpending).resolve_right hpc) hpc

/-- **No request to reload is lost.** For every order of the steps of the master, of its
    workers and of the deliveries of SIGHUP, and every state reached in which a signal
    was delivered after the start of the most recent load: `g_sighup` is set, or the
    master has just cleared it and its next step is the load; when it tests the flag
    next it goes on to clear it and to load; and it takes at most `toLoad` steps before
    it starts a load. -/
theorem reload_request_kept (cfg : Config) (online : Int32) {steps : List SystemStep}
    {r : RequestWorld} (hrun : (requestInit cfg online).run steps = some r)
    (hpending : r.pending = true) :
    (r.sys.master.sighup = true ∨ r.sys.master.pc = .loading) ∧
    (∀ k s', r.sys.master.pc = .top → r.sys.step (.master k) = some s' →
      s'.master.pc = .clearing) ∧
    ∀ more r', Runs.Meets RequestWorld.step BeforeLoad r more → r.run more = some r' →
      masterSteps more ≤ r.sys.master.toLoad := by
  have hkept := kept_run hrun
  refine ⟨hkept hpending, fun k s' hpc hstep => ?_, fun more r' hbefore hmore => ?_⟩
  · have hset : r.sys.master.sighup = true := (hkept hpending).resolve_right (by simp [hpc])
    cases master_step hstep with
    | asked => rfl
    | _ => simp_all
  · have hcount : r'.sys.master.toLoad + masterSteps more ≤ r.sys.master.toLoad :=
      Runs.run_count_le (fun h hb hs => pending_step h hb hs) more ⟨hkept, hpending⟩ hbefore hmore
    exact (Nat.le_add_left _ _).trans hcount

/-- A worker is started, and a signal delivered while the master handles another. -/
def secondSignalSteps : List SystemStep :=
  [.master ⟨none, 100, 0⟩, .master noCalls, .sighup, .master noCalls, .master noCalls,
    .master ⟨some sampleConfig, 0, 0⟩, .sighup]

theorem reload_request_kept_second : ∃ r,
    (requestInit sampleConfig 1).run secondSignalSteps = some r ∧ r.pending = true ∧
    (r.sys.master.sighup = true ∨ r.sys.master.pc = .loading) ∧
    (∀ k s', r.sys.master.pc = .top → r.sys.step (.master k) = some s' →
      s'.master.pc = .clearing) ∧
    ∀ more r', Runs.Meets RequestWorld.step BeforeLoad r more → r.run more = some r' →
      masterSteps more ≤ r.sys.master.toLoad := by
  have hrun : ((requestInit sampleConfig 1).run secondSignalSteps).map RequestWorld.pending =
      some true := by decide +kernel
  obtain ⟨r, hr, hpending⟩ := Option.map_eq_some_iff.mp hrun
  exact ⟨r, hr, hpending, reload_request_kept sampleConfig 1 hr hpending⟩

/-- The master has cleared the flag and has not yet started the load. -/
theorem cleared_before_load : ∃ r,
    (requestInit sampleConfig 1).run (secondSignalSteps.take 5) = some r ∧ r.pending = true ∧
      r.sys.master.sighup = false := by
  have hrun : ((requestInit sampleConfig 1).run (secondSignalSteps.take 5)).map
      (fun r => (r.pending, r.sys.master.sighup)) = some (true, false) := by decide +kernel
  obtain ⟨r, hr, hstate⟩ := Option.map_eq_some_iff.mp hrun
  obtain ⟨hpending, hsighup⟩ := Prod.mk.inj hstate
  exact ⟨r, hr, hpending, hsighup⟩

end NexusGateway
