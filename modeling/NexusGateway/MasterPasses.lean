import NexusGateway.WorkerPlaces

/- A pass of the master's loop ends.

   The drain waits for processes that may never end, thirty scans at most, and every other
   loop of the master goes over a table once. `Master.rank` counts the steps that are left
   until the master is at the top of its loop again; every step but that from the top lowers
   it, and no other process changes it. So whatever the workers do, and however many signals
   arrive, the master comes back for the next reload (`master_returns`). -/
namespace NexusGateway

/-- The steps left to kill the old workers, and wait for them, and to scan the new ones. -/
def killRank (n old : Nat) : Nat := (2 * old + 1) + (2 * n + 2)

/-- The steps left when the drain begins a scan, with this many to come. -/
def drainRank (n old deadline : Nat) : Nat := (old + 1) + (deadline - 1) * (old + 1) + killRank n old

/-- The steps left when the new workers are to be forked from this slot on. -/
def respawnRank (n i old deadline : Nat) : Nat := (n - i + 1) + drainRank n old deadline

/-- The steps left until the master is at the top of its loop. -/
def Master.rank (m : Master) : Nat :=
  let n := m.workerPids.length
  let old := m.oldPids.length
  match m.pc with
  | .top => 0
  | .spawning i => n - i + 1
  | .clearing => respawnRank n 0 n 30 + 5
  | .loading => respawnRank n 0 n 30 + 4
  | .reloading => respawnRank n 0 n 30 + 3
  | .incrementing => respawnRank n 0 n 30 + 2
  | .setting => respawnRank n 0 n 30 + 1
  | .respawning i => respawnRank n i old m.drainDeadline
  | .draining i _ => (old - i + 1) + (m.drainDeadline - 1) * (old + 1) + killRank n old
  | .killing i => (2 * (old - i) + 1) + (2 * n + 2)
  | .collecting i => (2 * (old - (i + 1)) + 2) + (2 * n + 2)
  | .finishing => 2 * n + 2
  | .reaping i => 2 * (n - i) + 1
  | .replacing i => 2 * (n - i)

/-- A step of the master that is not taken at the top of its loop. -/
def AwayFromTop (s : System) (a : SystemStep) : Prop := a.isMaster = true → s.master.pc ≠ .top

instance (s : System) : DecidablePred (AwayFromTop s) :=
  fun _ => inferInstanceAs (Decidable (_ → _))

/-- A step of the master lowers the rank. -/
theorem masterStep_rank {n : Nat} {s s' : System} {k : MasterCalls} (h : PlacesInv n s)
    (hstep : MasterStep s k s') (haway : s.master.pc ≠ .top) : s'.master.rank + 1 ≤ s.master.rank := by
  cases hstep with
  | asked hpc => exact absurd hpc haway
  | unasked hpc => exact absurd hpc haway
  | spawns i t hpc hi =>
    simp only [Master.rank, System.withMaster, hpc, List.length_set]
    omega
  | spawned i hpc =>
    simp only [Master.rank, System.withMaster, hpc]
    omega
  | clears hpc =>
    simp only [Master.rank, System.withMaster, hpc]
    omega
  | loadFails hpc =>
    simp only [Master.rank, System.withMaster, hpc]
    omega
  | loads cfg hpc =>
    simp only [Master.rank, System.withMaster, hpc]
    omega
  | reloads hpc =>
    simp only [Master.rank, System.withMaster, hpc]
    omega
  | increments hpc =>
    simp only [Master.rank, System.withMaster, hpc]
    omega
  | sets hpc =>
    simp only [Master.rank, System.withMaster, hpc, List.length_replicate]
    omega
  | respawns i t hpc hi =>
    simp only [Master.rank, System.withMaster, hpc, List.length_set, respawnRank]
    omega
  | respawned i hpc =>
    simp only [Master.rank, System.withMaster, hpc, respawnRank, drainRank]
    omega
  | skips i alive pid hpc hget =>
    have hlt := (List.getElem?_eq_some_iff.mp hget).1
    simp only [Master.rank, System.withMaster, hpc]
    omega
  | drained i alive pid t hpc hget =>
    have hlt := (List.getElem?_eq_some_iff.mp hget).1
    simp only [Master.rank, System.withMaster, hpc, List.length_set]
    omega
  | drains i alive pid t hpc hget =>
    have hlt := (List.getElem?_eq_some_iff.mp hget).1
    simp only [Master.rank, System.withMaster, hpc]
    omega
  | drainEnds i alive hpc =>
    simp only [Master.rank, System.withMaster, hpc, killRank]
    omega
  | drainAgain i alive hpc hget halive hdeadline =>
    -- a scan less
    have hless : (s.master.drainDeadline - 1) * (s.master.oldPids.length + 1) =
        (s.master.drainDeadline - 1 - 1) * (s.master.oldPids.length + 1) +
          (s.master.oldPids.length + 1) := by
      rw [← Nat.succ_mul, Nat.succ_eq_add_one, Nat.sub_add_cancel (by omega)]
    simp only [Master.rank, System.withMaster, hpc]
    omega
  | kills i pid hpc hget =>
    have hlt := (List.getElem?_eq_some_iff.mp hget).1
    simp only [Master.rank, System.withMaster, hpc]
    omega
  | spares i pid hpc hget =>
    have hlt := (List.getElem?_eq_some_iff.mp hget).1
    simp only [Master.rank, System.withMaster, hpc]
    omega
  | killed i hpc =>
    simp only [Master.rank, System.withMaster, hpc]
    omega
  | collects i t hpc =>
    simp only [Master.rank, System.withMaster, hpc]
    omega
  | finishes hpc =>
    simp only [Master.rank, System.withMaster, hpc]
    omega
  | reaps i pid t hpc =>
    simp only [Master.rank, System.withMaster, hpc]
    omega
  | passes i pid t hpc hget =>
    have hlt := (List.getElem?_eq_some_iff.mp hget).1
    simp only [Master.rank, System.withMaster, hpc]
    omega
  | scanned i hpc =>
    simp only [Master.rank, System.withMaster, hpc]
    omega
  | replaces i t hpc =>
    have hlt := h.inside i (by rw [hpc]; rfl)
    simp only [Master.rank, System.withMaster, hpc, List.length_set]
    omega

/-- The rank bounds the steps of the master that are not taken at the top of its loop. -/
theorem step_rank {n : Nat} {s s' : System} {a : SystemStep} (h : PlacesInv n s)
    (haway : AwayFromTop s a) (hstep : s.step a = some s') :
    PlacesInv n s' ∧ s'.master.rank + (if a.isMaster then 1 else 0) ≤ s.master.rank := by
  refine ⟨placesInv_step h hstep, ?_⟩
  cases a with
  | sighup =>
    cases hstep
    exact le_rfl
  | master k => exact masterStep_rank h (master_step hstep) (haway rfl)
  | worker pid a =>
    obtain ⟨_, _, _, _, _, rfl⟩ := worker_step hstep
    exact le_rfl

theorem rank_le {n : Nat} {s : System} (h : PlacesInv n s)
    (hdeadline : s.master.drainDeadline ≤ 30) : s.master.rank ≤ 35 * n + 39 := by
  have hn := h.length
  have hold := h.lengthOld
  have hmul : (s.master.drainDeadline - 1) * (s.master.oldPids.length + 1) ≤ 29 * (n + 1) :=
    Nat.mul_le_mul (by omega) (by omega)
  simp only [Master.rank, respawnRank, drainRank, killRank, hn]
  split <;> omega

theorem drainDeadline_step {s s' : System} {a : SystemStep} (h : s.master.drainDeadline ≤ 30)
    (hstep : s.step a = some s') : s'.master.drainDeadline ≤ 30 := by
  cases a with
  | sighup =>
    cases hstep
    exact h
  | worker pid a =>
    obtain ⟨_, _, _, _, _, rfl⟩ := worker_step hstep
    exact h
  | master k =>
    have hmove : MasterStep s k s' := master_step hstep
    cases hmove with
    | sets => exact le_rfl
    | drainAgain => exact (Nat.sub_le _ _).trans h
    | _ => exact h

/-- What a run leaves: a master that can go on, and for how long at most it is away from the
    top of its loop. -/
structure Returns (s : System) (n : Nat) : Prop where
  goesOn : ∃ k s', s.step (.master k) = some s'
  bounded : ∀ more s', Runs.Meets System.step AwayFromTop s more → s.run more = some s' →
    masterSteps more ≤ 35 * n + 39

theorem waitKilled_ends (s : System) (pid : Int) : ∃ r t, s.waitKilled pid r = some t := by
  cases hexited : s.exited pid with
  | true => exact ⟨pid, s.reap pid, if_pos ⟨rfl, hexited⟩⟩
  | false =>
    refine ⟨-1, s, ?_⟩
    rw [System.waitKilled, if_neg (by simp [hexited]), if_pos ⟨rfl, .inr hexited⟩]

/-- A failed fork, a `waitpid` without a child and the end of a wait for a killed one are
    always possible. -/
theorem master_goes_on (s : System) : ∃ k s', s.step (.master k) = some s' := by
  by_cases hcollects : ∃ i, s.master.pc = .collecting i
  · obtain ⟨i, hpc⟩ := hcollects
    obtain ⟨r, t, hwait⟩ := waitKilled_ends s (s.master.oldPids[i]?.getD 0)
    refine ⟨⟨none, -1, r⟩, Option.isSome_iff_exists.mp ?_⟩
    simp only [System.step, System.masterStep, hpc, hwait]
    rfl
  · refine ⟨⟨none, -1, 0⟩, ?_⟩
    show ∃ s', s.masterStep ⟨none, -1, 0⟩ = some s'
    unfold System.masterStep
    dsimp only
    split
    · split <;> exact ⟨_, rfl⟩
    · exact ⟨_, rfl⟩
    · exact ⟨_, rfl⟩
    · exact ⟨_, rfl⟩
    · exact ⟨_, rfl⟩
    · exact ⟨_, rfl⟩
    · exact ⟨_, rfl⟩
    · split <;> exact ⟨_, rfl⟩
    · split
      · split <;> exact ⟨_, rfl⟩
      · split <;> exact ⟨_, rfl⟩
    · split
      · split <;> exact ⟨_, rfl⟩
      · exact ⟨_, rfl⟩
    · rename_i i hpc
      exact absurd ⟨i, hpc⟩ hcollects
    · exact ⟨_, rfl⟩
    · split <;> exact ⟨_, rfl⟩
    · exact ⟨_, rfl⟩

/-- **The master always comes back to the top of its loop.** For every run of the master, its
    workers and the signals sent to it, in the state reached the master has a step that it can
    take, and in every run from there, whatever the workers do and whether they ever end, it
    takes at most `34 n + 39` steps, `n` being the number of slots, before it is at the top of
    its loop. -/
theorem master_returns (cfg : Config) (online : Int32) {steps : List SystemStep} {s : System}
    (hrun : (systemInit cfg online).run steps = some s) : Returns s (workerCount cfg online) := by
  have hinv := placesInv_run hrun
  have hdeadline : s.master.drainDeadline ≤ 30 :=
    Runs.run_keeps drainDeadline_step steps (Nat.zero_le 30) hrun
  refine ⟨master_goes_on s, fun more s' haway hmore => ?_⟩
  have hcount : s'.master.rank + more.countP SystemStep.isMaster ≤ s.master.rank :=
    @Runs.run_count_le _ _ System.step AwayFromTop (PlacesInv (workerCount cfg online))
      (fun s => s.master.rank) SystemStep.isMaster (fun h haway hstep => step_rank h haway hstep)
      more s s' hinv haway hmore
  have hrank := rank_le hinv hdeadline
  rw [masterSteps]
  omega

theorem master_returns_reload : ∃ s, (systemInit sampleConfig 1).run reloadSteps = some s ∧
    s.master.pc = .respawning 0 ∧ Returns s (workerCount sampleConfig 1) := by
  have hrun : ((systemInit sampleConfig 1).run reloadSteps).map (fun s => s.master.pc) =
      some (.respawning 0) := by decide +kernel
  obtain ⟨s, hs, hpc⟩ := Option.map_eq_some_iff.mp hrun
  exact ⟨s, hs, hpc, master_returns sampleConfig 1 hs⟩

end NexusGateway
