import NexusGateway.Generations

/- The versions of the published configurations.

   Each slot has a counter of its own, and a reload counts up the one it publishes. The
   first configuration stands in slot 0 as version 1 while slot 1 counts from 0, so slot 0
   is one ahead while it is in use and level while slot 1 is (`VersionsInv`). A reload
   into slot 1 publishes the version again that was in use before; only one into slot 0
   publishes a greater one (`version_increases_iff`). -/
namespace NexusGateway

/-- The version of the slot in use. -/
def Shared.version (sh : Shared) : UInt64 := (sh.shadow sh.activeSlot).version

/-- Slot 0 is one ahead of slot 1 while it is in use, and level with it while slot 1 is. -/
structure VersionsInv (sh : Shared) : Prop where
  ahead : sh.activeSlot = 0 → (sh.shadow 0).version = (sh.shadow 1).version + 1
  level : sh.activeSlot = 1 → (sh.shadow 0).version = (sh.shadow 1).version

theorem slot_cases (i : Fin 2) : i = 0 ∨ i = 1 := by
  omega

theorem reload_from_zero {sh : Shared} (hslot : sh.activeSlot = 0) (cfg : Config) :
    (reloadConfig sh cfg).activeSlot = 1 ∧
    ((reloadConfig sh cfg).shadow 0).version = (sh.shadow 0).version ∧
    ((reloadConfig sh cfg).shadow 1).version = (sh.shadow 1).version + 1 := by
  unfold reloadConfig
  dsimp only
  rw [hslot]
  exact ⟨rfl, rfl, rfl⟩

theorem reload_from_one {sh : Shared} (hslot : sh.activeSlot = 1) (cfg : Config) :
    (reloadConfig sh cfg).activeSlot = 0 ∧
    ((reloadConfig sh cfg).shadow 0).version = (sh.shadow 0).version + 1 ∧
    ((reloadConfig sh cfg).shadow 1).version = (sh.shadow 1).version := by
  unfold reloadConfig
  dsimp only
  rw [hslot]
  exact ⟨rfl, rfl, rfl⟩

theorem versionsInv_reload {sh : Shared} (h : VersionsInv sh) (cfg : Config) :
    VersionsInv (reloadConfig sh cfg) := by
  obtain hslot | hslot := slot_cases sh.activeSlot
  · obtain ⟨hactive, hzero, hone⟩ := reload_from_zero hslot cfg
    refine ⟨fun hnext => ?_, fun _ => ?_⟩
    · rw [hactive] at hnext
      cases hnext
    · rw [hzero, hone]
      exact h.ahead hslot
  · obtain ⟨hactive, hzero, hone⟩ := reload_from_one hslot cfg
    refine ⟨fun _ => ?_, fun hnext => ?_⟩
    · rw [hzero, hone, h.level hslot]
    · rw [hactive] at hnext
      cases hnext

theorem versionsInv_init (cfg : Config) : VersionsInv (sharedInit cfg) :=
  ⟨fun _ => rfl, fun hone => by cases hone⟩

theorem masterStep_slots {s s' : System} {k : MasterCalls} (h : MasterStep s k s') :
    s.master.pc = .reloading ∧ s'.shared = reloadConfig s.shared s.master.newCfg ∨
    s'.shared.shadow = s.shared.shadow ∧ s'.shared.activeSlot = s.shared.activeSlot := by
  cases h with
  | reloads hpc => exact .inl ⟨hpc, rfl⟩
  | spawns _ _ _ _ hfork => cases hfork <;> exact .inr ⟨rfl, rfl⟩
  | respawns _ _ _ _ hfork => cases hfork <;> exact .inr ⟨rfl, rfl⟩
  | replaces _ _ _ hfork => cases hfork <;> exact .inr ⟨rfl, rfl⟩
  | drained _ _ _ _ _ _ _ hwait => cases hwait <;> exact .inr ⟨rfl, rfl⟩
  | drains _ _ _ _ _ _ _ hwait => cases hwait <;> exact .inr ⟨rfl, rfl⟩
  | reaps _ _ _ _ _ hwait => cases hwait <;> exact .inr ⟨rfl, rfl⟩
  | passes _ _ _ _ _ hwait => cases hwait <;> exact .inr ⟨rfl, rfl⟩
  | collects _ _ _ hwait => cases hwait <;> exact .inr ⟨rfl, rfl⟩
  | _ => exact .inr ⟨rfl, rfl⟩

theorem masterStep_reloading {s s' : System} {k : MasterCalls} (h : MasterStep s k s')
    (hpc : s.master.pc = .reloading) : s'.shared = reloadConfig s.shared s.master.newCfg := by
  cases h with
  | reloads => rfl
  | _ => simp_all

theorem versionsInv_step {s s' : System} {a : SystemStep} (h : VersionsInv s.shared)
    (hstep : s.step a = some s') : VersionsInv s'.shared := by
  cases a with
  | sighup =>
    cases hstep
    exact h
  | master k =>
    obtain ⟨_, hshared⟩ | ⟨hshadow, hslot⟩ := masterStep_slots (master_step hstep)
    · rw [hshared]
      exact versionsInv_reload h _
    · refine ⟨fun hzero => ?_, fun hone => ?_⟩
      · rw [hshadow]
        exact h.ahead (hslot ▸ hzero)
      · rw [hshadow]
        exact h.level (hslot ▸ hone)
  | worker pid a =>
    obtain ⟨_, _, _, _, _, rfl⟩ := worker_step hstep
    exact h

theorem lt_add_one_iff (v : UInt64) : v < v + 1 ↔ v ≠ 18446744073709551615 := by
  rw [UInt64.lt_iff_toNat_lt, UInt64.toNat_add, ne_eq, ← UInt64.toNat_inj]
  have hlt := v.toNat_lt
  have hone : (1 : UInt64).toNat = 1 := rfl
  have hmax : (18446744073709551615 : UInt64).toNat = 18446744073709551615 := rfl
  rw [hone, hmax]
  omega

/-- **When a reload publishes a greater version.** For every run of the master, its
    workers and the signals sent to it, with any number of reloads, and every reload that
    the run comes to: the version in use is greater after it exactly when slot 1 was in
    use before, with a version that does not wrap around. -/
theorem version_increases_iff (cfg : Config) (online : Int32) {steps : List SystemStep}
    {s s' : System} (hrun : (systemInit cfg online).run steps = some s)
    (hpc : s.master.pc = .reloading) {k : MasterCalls} (hstep : s.step (.master k) = some s') :
    s.shared.version < s'.shared.version ↔
      s.shared.activeSlot = 1 ∧ s.shared.version ≠ 18446744073709551615 := by
  have hinv : VersionsInv s.shared :=
    Runs.run_keeps versionsInv_step steps (versionsInv_init cfg) hrun
  have hshared : s'.shared = reloadConfig s.shared s.master.newCfg :=
    masterStep_reloading (master_step hstep) hpc
  unfold Shared.version
  rw [hshared]
  obtain hslot | hslot := slot_cases s.shared.activeSlot
  -- slot 1 comes up to the version that slot 0 has
  · obtain ⟨hactive, _, hone⟩ := reload_from_zero hslot s.master.newCfg
    rw [hactive, hone, hslot, hinv.ahead hslot]
    simp
  -- slot 0 goes one ahead of the version that both have
  · obtain ⟨hactive, hzero, _⟩ := reload_from_one hslot s.master.newCfg
    rw [hactive, hzero, hslot, hinv.level hslot]
    simpa using lt_add_one_iff (s.shared.shadow 1).version

/-- A worker is started, and a reload is about to publish. -/
def publishSteps : List SystemStep :=
  [.master ⟨none, 100, 0⟩, .master noCalls, .sighup, .master noCalls, .master noCalls,
    .master ⟨some sampleConfig, 0, 0⟩]

/-- The reload goes on to its end, and the next one is about to publish. -/
def publishAgainSteps : List SystemStep :=
  publishSteps ++ [.master noCalls, .master noCalls, .master noCalls, .master ⟨none, 101, 0⟩,
    .worker 100 .die, .master noCalls, .master ⟨none, 0, 100⟩, .master noCalls, .master noCalls,
    .master noCalls, .master noCalls, .master noCalls, .master noCalls] ++ publishSteps.drop 2

theorem version_increases_iff_second : ∃ s s',
    (systemInit sampleConfig 1).run publishAgainSteps = some s ∧
      s.step (.master noCalls) = some s' ∧ (s.shared.version < s'.shared.version ↔
        s.shared.activeSlot = 1 ∧ s.shared.version ≠ 18446744073709551615) := by
  have hrun : ((systemInit sampleConfig 1).run publishAgainSteps).bind (fun s =>
      (s.step (.master noCalls)).map (fun _ => s.master.pc)) = some .reloading := by decide +kernel
  obtain ⟨s, hs, hmap⟩ := Option.bind_eq_some_iff.mp hrun
  obtain ⟨s', hstep, hpc⟩ := Option.map_eq_some_iff.mp hmap
  exact ⟨s, s', hs, hstep, version_increases_iff sampleConfig 1 hs hpc hstep⟩

/-- The first reload publishes version 1 again. -/
theorem version_repeated : ∃ s s', (systemInit sampleConfig 1).run publishSteps = some s ∧
    s.master.pc = .reloading ∧ s.step (.master noCalls) = some s' ∧
    s'.shared.version = s.shared.version ∧ s'.shared.activeSlot ≠ s.shared.activeSlot := by
  have hrun : ((systemInit sampleConfig 1).run publishSteps).bind (fun s =>
      (s.step (.master noCalls)).map (fun s' => (s.master.pc, s.shared.version, s'.shared.version,
        s.shared.activeSlot, s'.shared.activeSlot))) = some (.reloading, 1, 1, 0, 1) := by
    decide +kernel
  obtain ⟨s, hs, hmap⟩ := Option.bind_eq_some_iff.mp hrun
  obtain ⟨s', hstep, hstate⟩ := Option.map_eq_some_iff.mp hmap
  obtain ⟨hpc, hv, hv', hslot, hslot'⟩ := by simpa only [Prod.mk.injEq] using hstate
  refine ⟨s, s', hs, hpc, hstep, hv'.trans hv.symm, ?_⟩
  rw [hslot, hslot']
  decide

end NexusGateway
