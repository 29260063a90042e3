import NexusGateway.Draining
import NexusGateway.DrainExit
import NexusGateway.Lib.Phases

/- What a worker's loop records of its mode (the end of `nexus_worker_run` in `worker.c`).

   A pass of the loop writes `drain_mode` to the error log when it is the first or when its
   mode is not that of the pass before. Over any passes these records are the modes without
   their repetitions, and the record of the connections that are still open is never written:
   its condition asks for the mode of the pass before, which has just been overwritten
   (`loopRecords_modes`, `loopRecords_silent`). In every run a worker goes into drain mode at
   most twice (`drain_modes_recorded`): it leaves it again when it has loaded `shutting_down`
   in the reload that forked it, and the generation in the next one, and then finds the word
   not set yet. -/
namespace NexusGateway
open Runs Phases

/-! ## A pass of the loop -/

/-- What a pass finds after `nexus_epoll_wait`. -/
structure LoopPass where
  shouldDrain : Bool
  generation : Int32
  active : Int
  deriving DecidableEq, Repr

/-- The pass is the last one. -/
def LoopPass.leaves (p : LoopPass) : Bool := p.shouldDrain && p.active == 0

/-- `last_shutting` and `first_loop`. -/
structure LoopFlags where
  lastShutting : Bool
  firstLoop : Bool

def loopFlagsInit : LoopFlags := ⟨false, true⟩

/-- The records of a pass: `drain_mode=%d (gen=%d), active=%d`, `drained, exiting` and
    `draining %d active connections`. -/
inductive LoopRecord where
  | drainMode (shouldDrain : Bool) (generation : Int32) (active : Int)
  | exiting
  | draining (active : Int)
  deriving DecidableEq, Repr

/-- A pass: the flags and the records, and whether the loop is left. -/
def loopPass (f : LoopFlags) (p : LoopPass) : LoopFlags × List LoopRecord × Bool :=
  let changed := f.firstLoop || p.shouldDrain != f.lastShutting
  let mode := if changed then [LoopRecord.drainMode p.shouldDrain p.generation p.active] else []
  let f := if changed then ⟨p.shouldDrain, false⟩ else f
  if p.shouldDrain && p.active == 0 then (f, mode ++ [.exiting], true)
  else
    let rest := if p.shouldDrain && decide (p.active > 0) && !f.lastShutting then
      [LoopRecord.draining p.active] else []
    ({ f with lastShutting := p.shouldDrain }, mode ++ rest, false)

/-- The records of the passes, up to the one with which the loop is left. -/
def loopRecords (f : LoopFlags) : List LoopPass → List LoopRecord
  | [] => []
  | p :: passes =>
    match loopPass f p with
    | (_, records, true) => records
    | (f', records, false) => records ++ loopRecords f' passes

/-- The mode that a record tells. -/
def LoopRecord.mode? : LoopRecord → Option Bool
  | .drainMode shouldDrain _ _ => some shouldDrain
  | _ => none

def recordedModes (records : List LoopRecord) : List Bool := records.filterMap LoopRecord.mode?

/-- The passes that the loop makes of these. -/
def passesMade : List LoopPass → List LoopPass
  | [] => []
  | p :: passes => if p.leaves then [p] else p :: passesMade passes

theorem loopPass_first (p : LoopPass) : loopPass loopFlagsInit p =
    (⟨p.shouldDrain, false⟩, .drainMode p.shouldDrain p.generation p.active ::
      (if p.leaves then [.exiting] else []), p.leaves) := by
  obtain ⟨drain, generation, active⟩ := p
  unfold loopPass LoopPass.leaves loopFlagsInit
  cases drain <;> by_cases hactive : active = 0 <;> simp [hactive]

/-- A pass behind another one, of mode `b`. -/
theorem loopPass_later (b : Bool) (p : LoopPass) : loopPass ⟨b, false⟩ p =
    (⟨p.shouldDrain, false⟩, (if b ≠ p.shouldDrain then
      [.drainMode p.shouldDrain p.generation p.active] else []) ++
      (if p.leaves then [.exiting] else []), p.leaves) := by
  obtain ⟨drain, generation, active⟩ := p
  unfold loopPass LoopPass.leaves
  cases b <;> cases drain <;> by_cases hactive : active = 0 <;> simp [hactive]

/-! ## The records of a loop -/

theorem loopRecords_later (b : Bool) (passes : List LoopPass) :
    b :: recordedModes (loopRecords ⟨b, false⟩ passes) =
      ((passesMade passes).map LoopPass.shouldDrain).destutter' (· ≠ ·) b := by
  induction passes generalizing b with
  | nil => rfl
  | cons p passes ih =>
    rw [loopRecords, loopPass_later, passesMade]
    have hih := ih p.shouldDrain
    cases hleaves : p.leaves with
    | true =>
      by_cases hb : b = p.shouldDrain <;> simp [recordedModes, LoopRecord.mode?, hb]
    | false =>
      by_cases hb : b = p.shouldDrain
      · simp [hb, hih]
      · simpa [hb, recordedModes, LoopRecord.mode?, List.filterMap_append] using hih

/-- **The modes recorded are those of the passes, without their repetitions.** -/
theorem loopRecords_modes (passes : List LoopPass) :
    recordedModes (loopRecords loopFlagsInit passes) =
      ((passesMade passes).map LoopPass.shouldDrain).destutter (· ≠ ·) := by
  cases passes with
  | nil => rfl
  | cons p passes =>
    rw [loopRecords, loopPass_first, passesMade]
    have hlater := loopRecords_later p.shouldDrain passes
    cases hleaves : p.leaves with
    | true => simp [recordedModes, LoopRecord.mode?]
    | false => simpa [recordedModes, LoopRecord.mode?, List.destutter_cons'] using hlater

theorem loopRecords_later_silent (active : Int) (b : Bool) (passes : List LoopPass) :
    LoopRecord.draining active ∉ loopRecords ⟨b, false⟩ passes := by
  induction passes generalizing b with
  | nil => exact List.not_mem_nil
  | cons p passes ih =>
    rw [loopRecords, loopPass_later]
    cases p.leaves <;> by_cases hb : b = p.shouldDrain <;> simp [hb, ih]

/-- **The open connections are never recorded.** -/
theorem loopRecords_silent (active : Int) (passes : List LoopPass) :
    LoopRecord.draining active ∉ loopRecords loopFlagsInit passes := by
  cases passes with
  | nil => exact List.not_mem_nil
  | cons p passes =>
    rw [loopRecords, loopPass_first]
    cases p.leaves <;> simp [loopRecords_later_silent]

/-! ## The passes of a worker -/

/-- The pass of the loop that a worker makes with a step. -/
def System.pass (s : System) (pid : Int) : SystemStep → List LoopPass
  | .worker q .decide =>
    if q = pid then
      match s.procs pid with
      | some ⟨_, .checking l v, _⟩ =>
        [⟨l.shouldDrain v s.shared.drainGeneration, s.shared.drainGeneration, l.worker.activeConns⟩]
      | _ => []
    else []
  | _ => []

/-- The worker is in its loop or on the way to it. -/
def System.alive (s : System) (pid : Int) : Bool :=
  match s.procs pid with
  | some ⟨_, .left, _⟩ => false
  | some _ => true
  | none => false

/-- The run of the system as long as the worker is there. -/
def System.lifeStep (pid : Int) (s : System) (a : SystemStep) : Option System :=
  if s.alive pid then s.step a else none

/-- The passes that the worker makes. -/
def System.passes (s : System) (pid : Int) (steps : List SystemStep) : List LoopPass :=
  outputs (System.lifeStep pid) (fun s a => s.pass pid a) s steps

theorem lifeStep_some {s s' : System} {pid : Int} {a : SystemStep} (h : s.lifeStep pid a = some s') :
    s.step a = some s' ∧ s.alive pid = true := by
  unfold System.lifeStep at h
  split at h
  · rename_i halive
    exact ⟨h, halive⟩
  · cases h

theorem not_alive_none {s : System} {pid : Int} (h : s.procs pid = none) : s.alive pid = false := by
  unfold System.alive
  rw [h]

theorem not_alive_left {s : System} {pid : Int} {p : WorkerProc} (h : s.procs pid = some p)
    (hpc : p.pc = .left) : s.alive pid = false := by
  obtain ⟨cfg, pc, bornAt⟩ := p
  cases hpc
  unfold System.alive
  rw [h]

/-- The modes of the passes that a step makes. -/
def System.modes (s : System) (pid : Int) (a : SystemStep) : List Bool :=
  (s.pass pid a).map LoopPass.shouldDrain

theorem modes_decide {s : System} {pid : Int} {p : WorkerProc} {l : EventLoop} {v : Int32}
    (hp : s.procs pid = some p) (hpc : p.pc = .checking l v) :
    s.modes pid (.worker pid .decide) = [l.shouldDrain v s.shared.drainGeneration] := by
  obtain ⟨cfg, pc, bornAt⟩ := p
  cases hpc
  simp only [System.modes, System.pass, if_true, hp, List.map_cons, List.map_nil]

theorem modes_other {s : System} {pid : Int} {a : SystemStep} (h : a ≠ .worker pid .decide) :
    s.modes pid a = [] := by
  unfold System.modes System.pass
  split
  · rename_i q
    rw [if_neg (fun hq => h (by rw [hq]))]
    rfl
  · rfl

/-! ## The modes of a worker -/

theorem master_keeps {s s' : System} {k : MasterCalls} (h : MasterStep s k s') {pid : Int}
    {p : WorkerProc} (hp : s.procs pid = some p) : s'.procs pid = some p ∨ s'.procs pid = none := by
  have hfork {t : System} {cfg : Config} {r : Int} {m : Master} (hstep : ForkStep s cfg r t) :
      (t.withMaster m).procs pid = some p := by
    cases hstep with
    | failed => exact hp
    | child hr hfree =>
      have hne : pid ≠ r := by
        rintro rfl
        rw [hfree] at hp
        cases hp
      exact (Function.update_of_ne hne _ _).trans hp
  have hremove (r : Int) : Function.update s.procs r none pid = some p ∨
      Function.update s.procs r none pid = none := by
    by_cases hr : pid = r
    · exact .inr (by rw [hr, Function.update_self])
    · exact .inl ((Function.update_of_ne hr _ _).trans hp)
  have hwait {t : System} {q r : Int} {m : Master} (hstep : WaitStep s q r t) :
      (t.withMaster m).procs pid = some p ∨ (t.withMaster m).procs pid = none := by
    cases hstep with
    | running => exact .inl hp
    | reaped => exact hremove r
  cases h with
  | spawns _ _ _ _ hstep => exact .inl (hfork hstep)
  | respawns _ _ _ _ hstep => exact .inl (hfork hstep)
  | replaces _ _ _ hstep => exact .inl (hfork hstep)
  | drained _ _ _ _ _ _ _ hstep => exact hwait hstep
  | drains _ _ _ _ _ _ _ hstep => exact hwait hstep
  | reaps _ _ _ _ _ hstep => exact hwait hstep
  | passes _ _ _ _ _ hstep => exact hwait hstep
  | kills _ r => exact hremove r
  | collects i t _ hstep =>
    cases hstep with
    | failed => exact .inl hp
    | reaped => exact hremove _
  | _ => exact .inl hp

/-- The worker has drained with an old load, and has made none since while the word is set. -/
structure Stale (s : System) (p : WorkerProc) (l : EventLoop) : Prop where
  loop : p.pc.loop = some l
  late : s.increments = p.bornAt + 1
  greater : s.shared.drainGeneration > l.myGeneration
  reloaded : ∀ l v, p.pc = .checking l v → v ≠ 0 → s.master.pc.drains = true

/-- The modes that are still to come for a worker. -/
inductive ModePhase (n : Nat) (pid : Int) : List Bool → System → Prop
  | fresh {s : System} (hinv : ReloadInv n s) : ModePhase n pid [false, true, false, true] s
  | stale {s : System} {p : WorkerProc} {l : EventLoop} (hinv : ReloadInv n s)
      (hp : s.procs pid = some p) (hstale : Stale s p l) : ModePhase n pid [false, true] s
  | told {s : System} {p : WorkerProc} {l : EventLoop}
      (hgreater : Int32.ofNat (p.bornAt + 1) > l.myGeneration) (hinv : DrainInv n pid p.bornAt l s)
      (hp : s.procs pid = some p) : ModePhase n pid [true] s
  | gone {s : System} {turns : List Bool} (hgone : s.alive pid = false) : ModePhase n pid turns s

section Step

variable {n : Nat} {pid : Int} {s s' : System} {a : SystemStep}

theorem fresh_step (hinv : ReloadInv n s) (hstep : s.step a = some s') :
    Advances (ModePhase n pid) (s.modes pid a) [false, true, false, true] s' := by
  have hinv' := reloadInv_step hinv hstep
  by_cases ha : a = .worker pid .decide
  · subst ha
    obtain ⟨p, pc', _, hp, hmove, rfl⟩ := worker_step hstep
    generalize hpc : p.pc = pc at hmove
    cases hmove with
    | drained l v hdrain hactive =>
      rw [modes_decide hp hpc, hdrain]
      refine .inr ⟨true, [], [], rfl, by decide, by decide, .gone ?_⟩
      exact not_alive_left (Function.update_self _ _ _) rfl
    | draining l v hdrain hactive =>
      rw [modes_decide hp hpc, hdrain]
      obtain ⟨_, hgreater⟩ := shouldDrain_iff.mp hdrain
      have hself := Function.update_self pid (some { p with pc := .waiting l }) s.procs
      by_cases hset : s.shared.shuttingDown = 0
      · have hlate := hinv.late hp (by rw [hpc]; rfl) hgreater
        exact .inr ⟨true, [false, true], _, rfl, by decide, by decide,
          .stale hinv' hself ⟨rfl, hlate, hgreater, nofun⟩⟩
      · obtain ⟨_, hborn, htold⟩ :=
          drainInv_waiting hinv' hself rfl (shouldDrain_iff.mpr ⟨hset, hgreater⟩)
        exact .inr ⟨true, [], _, rfl, by decide, by decide, .told hborn htold hself⟩
    | stayed l v hstays =>
      rw [modes_decide hp hpc, hstays]
      exact .inr ⟨false, [true, false, true], _, rfl, by decide, by decide, .fresh hinv'⟩
  · exact .inl ⟨modes_other ha, .fresh hinv'⟩

theorem told_step {p : WorkerProc} {l : EventLoop}
    (hgreater : Int32.ofNat (p.bornAt + 1) > l.myGeneration) (hinv : DrainInv n pid p.bornAt l s)
    (hp : s.procs pid = some p) (hstep : s.step a = some s') :
    Advances (ModePhase n pid) (s.modes pid a) [true] s' := by
  have hinv' := drainInv_step hgreater hinv hstep
  cases a with
  | sighup =>
    cases hstep
    exact .inl ⟨rfl, .told hgreater hinv' hp⟩
  | master k =>
    refine .inl ⟨rfl, ?_⟩
    obtain hp' | hgone := master_keeps (master_step hstep) hp
    · exact .told hgreater hinv' hp'
    · exact .gone (not_alive_none hgone)
  | worker q b =>
    obtain ⟨p₁, pc', _, hp₁, hmove, rfl⟩ := worker_step hstep
    by_cases hq : pid = q
    · subst hq
      cases hp.symm.trans hp₁
      have hphase : ModePhase n pid [true] _ :=
        .told (p := { p with pc := pc' }) hgreater hinv' (Function.update_self pid _ s.procs)
      by_cases hb : b = .decide
      · subst hb
        obtain ⟨_, htold⟩ := hinv.told p hp rfl
        have hnow : s.shared.drainGeneration > l.myGeneration := by
          rw [hinv.generations.counted, hinv.increments hp rfl]
          exact hgreater
        have hmodes : s.modes pid (.worker pid .decide) = [true] := by
          generalize hpc : p.pc = pc at hmove htold
          cases hmove <;> rw [modes_decide hp hpc, htold.drains hnow rfl rfl]
        exact .inr ⟨true, [], _, hmodes, by decide, by decide, hphase⟩
      · exact .inl ⟨modes_other (by simp [hb]), hphase⟩
    · refine .inl ⟨modes_other (by simp [Ne.symm hq]), .told hgreater hinv' ?_⟩
      exact (Function.update_of_ne hq _ _).trans hp

theorem stale_own {p : WorkerProc} {l : EventLoop} {b : WorkerAct} {pc' : WorkerPc}
    {notices : List Notice} (hinv : ReloadInv n s) (hp : s.procs pid = some p)
    (hstale : Stale s p l) (hmove : WorkerMove s.shared p.cfg p.pc b pc' notices)
    (hs' : s' = { s with procs := Function.update s.procs pid (some { p with pc := pc' }) })
    (hinv' : ReloadInv n s') :
    Advances (ModePhase n pid) (s.modes pid (.worker pid b)) [false, true] s' := by
  have hself : s'.procs pid = some { p with pc := pc' } := by
    rw [hs']
    exact Function.update_self _ _ _
  have hstays {l' : EventLoop} (hl' : pc'.loop = some l') (hgen : l'.myGeneration = l.myGeneration)
      (hreloaded : ∀ l v, pc' = .checking l v → v ≠ 0 → s.master.pc.drains = true) :
      ModePhase n pid [false, true] s' := by
    refine .stale hinv' hself ⟨hl', ?_, ?_, ?_⟩ <;> rw [hs']
    · exact hstale.late
    · exact hgen ▸ hstale.greater
    · exact hreloaded
  have hloop := hstale.loop
  have hreloaded := hstale.reloaded
  generalize hpc : p.pc = pc at hmove hloop hreloaded
  cases hmove with
  | entered => cases hloop
  | handled l₁ e =>
    cases hloop
    exact .inl ⟨modes_other (by simp), hstays rfl (onEvent_generation l e) nofun⟩
  | judged =>
    cases hloop
    exact .inl ⟨modes_other (by simp), hstays rfl rfl nofun⟩
  | judgedAccepting =>
    cases hloop
    exact .inl ⟨modes_other (by simp), hstays rfl rfl nofun⟩
  | judgedChecking l₁ v =>
    cases hloop
    refine .inl ⟨modes_other (by simp), hstays rfl rfl fun l₂ v₂ hpc₂ => ?_⟩
    cases hpc₂
    exact hreloaded l v rfl
  | loaded =>
    cases hloop
    exact .inl ⟨modes_other (by simp), hstays rfl rfl nofun⟩
  | accepted l₁ v e =>
    cases hloop
    exact .inl ⟨modes_other (by simp), hstays rfl (onEvent_generation l e) nofun⟩
  | checked =>
    cases hloop
    refine .inl ⟨modes_other (by simp), hstays rfl rfl fun l₂ v₂ hpc₂ hset => ?_⟩
    cases hpc₂
    exact hinv.flag.drains hset
  | drained l₁ v hdrain hactive =>
    rw [modes_decide hp hpc, hdrain]
    exact .inr ⟨true, [], [], rfl, by decide, by decide, .gone (not_alive_left hself rfl)⟩
  | draining l₁ v hdrain hactive =>
    cases hloop
    rw [modes_decide hp hpc, hdrain]
    obtain ⟨hv, hgreater⟩ := shouldDrain_iff.mp hdrain
    have hset := hinv.flag.set (hreloaded l v rfl hv)
    have hdrain' : l.shouldDrain s'.shared.shuttingDown s'.shared.drainGeneration = true := by
      rw [hs']
      exact shouldDrain_iff.mpr ⟨hset, hgreater⟩
    obtain ⟨_, hborn, htold⟩ := drainInv_waiting hinv' hself rfl hdrain'
    exact .inr ⟨true, [], _, rfl, by decide, by decide, .told hborn htold hself⟩
  | stayed l₁ v hstay =>
    cases hloop
    rw [modes_decide hp hpc, hstay]
    exact .inr ⟨false, [true], _, rfl, by decide, by decide, hstays rfl rfl nofun⟩
  | died => exact .inl ⟨modes_other (by simp), .gone (not_alive_left hself rfl)⟩

theorem stale_step {p : WorkerProc} {l : EventLoop} (hinv : ReloadInv n s)
    (hp : s.procs pid = some p) (hstale : Stale s p l) (hstep : s.step a = some s') :
    Advances (ModePhase n pid) (s.modes pid a) [false, true] s' := by
  have hinv' := reloadInv_step hinv hstep
  cases a with
  | sighup =>
    cases hstep
    exact .inl ⟨rfl, .stale hinv' hp ⟨hstale.loop, hstale.late, hstale.greater, hstale.reloaded⟩⟩
  | master k =>
    have hmaster := master_step hstep
    refine .inl ⟨rfl, ?_⟩
    obtain hp' | hgone := master_keeps hmaster hp
    · have hsame : s'.increments = s.increments := by
        have hle := (hinv'.places.either hp').2.2
        have hgrows := increments_step hstep
        have hlate := hstale.late
        omega
      have hlate := hsame.trans hstale.late
      refine .stale hinv' hp' ⟨hstale.loop, hlate, ?_, fun l' v hpc hv => ?_⟩
      · rw [hinv'.generations.counted, hsame, ← hinv.generations.counted]
        exact hstale.greater
      · exact drains_kept hinv'.places hmaster (hstale.reloaded l' v hpc hv) hp' hlate.symm
    · exact .gone (not_alive_none hgone)
  | worker q b =>
    obtain ⟨p₁, pc', _, hp₁, hmove, hs'⟩ := worker_step hstep
    by_cases hq : pid = q
    · subst hq
      cases hp.symm.trans hp₁
      exact stale_own hinv hp hstale hmove hs' hinv'
    · refine .inl ⟨modes_other (by simp [Ne.symm hq]), .stale (p := p) (l := l) hinv' ?_ ?_⟩ <;> rw [hs']
      · exact (Function.update_of_ne hq _ _).trans hp
      · exact ⟨hstale.loop, hstale.late, hstale.greater, hstale.reloaded⟩

/-- The modes of a step follow the phase. -/
theorem modePhase_step {turns : List Bool} (h : ModePhase n pid turns s)
    (hstep : s.lifeStep pid a = some s') : Advances (ModePhase n pid) (s.modes pid a) turns s' := by
  obtain ⟨htaken, halive⟩ := lifeStep_some hstep
  cases h with
  | fresh hinv => exact fresh_step hinv htaken
  | stale hinv hp hstale => exact stale_step hinv hp hstale htaken
  | told hgreater hinv hp => exact told_step hgreater hinv hp htaken
  | gone hgone =>
    rw [halive] at hgone
    cases hgone

end Step

/-! ## Any run -/

theorem pass_cases {s s' : System} (pid : Int) {a : SystemStep} (hstep : s.step a = some s') :
    s.pass pid a = [] ∨ ∃ pass, s.pass pid a = [pass] ∧ (pass.leaves = true → s'.alive pid = false) := by
  by_cases ha : a = .worker pid .decide
  · subst ha
    obtain ⟨p, pc', _, hp, hmove, rfl⟩ := worker_step hstep
    obtain ⟨cfg, pc, bornAt⟩ := p
    have hself := Function.update_self pid (some ⟨cfg, pc', bornAt⟩) s.procs
    dsimp only at hmove
    have hpass (l : EventLoop) (v : Int32) (hpc : pc = .checking l v) : s.pass pid (.worker pid .decide) =
        [⟨l.shouldDrain v s.shared.drainGeneration, s.shared.drainGeneration, l.worker.activeConns⟩] := by
      cases hpc
      simp only [System.pass, if_true, hp]
    refine .inr ?_
    cases hmove with
    | drained l v => exact ⟨_, hpass l v rfl, fun _ => not_alive_left hself rfl⟩
    | draining l v hdrain hactive =>
      refine ⟨_, hpass l v rfl, fun hleaves => absurd hleaves ?_⟩
      simp [LoopPass.leaves, hactive]
    | stayed l v hstays =>
      refine ⟨_, hpass l v rfl, fun hleaves => absurd hleaves ?_⟩
      simp [LoopPass.leaves, hstays]
  · exact .inl (List.map_eq_nil_iff.mp (modes_other ha))

theorem passes_cons {s s' : System} {pid : Int} {a : SystemStep} (h : s.lifeStep pid a = some s')
    (steps : List SystemStep) : s.passes pid (a :: steps) = s.pass pid a ++ s'.passes pid steps := by
  unfold System.passes
  rw [outputs, h]

theorem passes_stop {s : System} {pid : Int} {a : SystemStep} (h : s.lifeStep pid a = none)
    (steps : List SystemStep) : s.passes pid (a :: steps) = [] := by
  unfold System.passes
  rw [outputs, h]

theorem passes_gone {s : System} {pid : Int} (h : s.alive pid = false) (steps : List SystemStep) :
    s.passes pid steps = [] := by
  cases steps with
  | nil => rfl
  | cons a steps => exact passes_stop (if_neg (Bool.eq_false_iff.mp h)) steps

theorem passesMade_passes (pid : Int) (steps : List SystemStep) :
    ∀ s : System, passesMade (s.passes pid steps) = s.passes pid steps := by
  induction steps with
  | nil => exact fun _ => rfl
  | cons a steps ih =>
    intro s
    cases htaken : s.lifeStep pid a with
    | none =>
      rw [passes_stop htaken]
      rfl
    | some s' =>
      rw [passes_cons htaken]
      obtain hnone | ⟨pass, hpass, hleaves⟩ := pass_cases pid (lifeStep_some htaken).1
      · rw [hnone]
        exact ih s'
      · rw [hpass, List.singleton_append, passesMade]
        split
        · rename_i hleft
          rw [passes_gone (hleaves hleft)]
        · rw [ih s']

/-- What is recorded of a worker's passes. -/
structure ModesRecorded (passes : List LoopPass) : Prop where
  modes : recordedModes (loopRecords loopFlagsInit passes) =
    (passes.map LoopPass.shouldDrain).destutter (· ≠ ·)
  few : (recordedModes (loopRecords loopFlagsInit passes)).Sublist [false, true, false, true]
  silent : ∀ active, LoopRecord.draining active ∉ loopRecords loopFlagsInit passes

/-- **A worker goes into drain mode at most twice.** For every run, every worker and everything
    that the master, the workers and the signals do until it is gone: the `drain_mode` records
    of its loop are the modes of its passes without their repetitions, at most off, on, off,
    on; and it never records how many connections are still open. -/
theorem drain_modes_recorded (cfg : Config) (online : Int32) {steps : List SystemStep} {s : System}
    (hrun : (systemInit cfg online).run steps = some s) (pid : Int) (more : List SystemStep) :
    ModesRecorded (s.passes pid more) := by
  have hmodes := loopRecords_modes (s.passes pid more)
  rw [passesMade_passes] at hmodes
  refine ⟨hmodes, ?_, fun active => loopRecords_silent active _⟩
  have hfollows : Follows [false, true, false, true] ((s.passes pid more).map LoopPass.shouldDrain) := by
    rw [System.passes, outputs_map]
    exact outputs_follow modePhase_step more (.fresh (reloadInv_run hrun))
  rw [hmodes]
  exact hfollows

/-- A client that a worker takes in during the reload that forked it. -/
def newClient : Event :=
  ⟨5, epollIn, { EventCalls.idle with accept := ⟨1, 1, 7, .empty, 40000⟩ }⟩

/-- The first part of `clearedSteps`: a reload has forked a worker. -/
def forkedSteps : List SystemStep := clearedSteps.take 10

/-- That worker takes in a client, makes a pass and loads `shutting_down`; the reload ends and
    the next one increments the generation; it makes two passes before the word is set and one
    behind that. -/
def flappingSteps : List SystemStep :=
  [.worker 101 (.enter idleWorker 5), .worker 101 .loadShutting, .worker 101 (.accept newClient),
    .worker 101 .check, .worker 101 .decide, .worker 101 .check] ++ clearedSteps.drop 12 ++
  [.worker 101 .decide, .worker 101 .check, .worker 101 .decide, .master noCalls, .worker 101 .check,
    .worker 101 .decide]

theorem drain_modes_recorded_flapping : ∃ s, (systemInit sampleConfig 1).run forkedSteps = some s ∧
    recordedModes (loopRecords loopFlagsInit (s.passes 101 flappingSteps)) = [false, true, false, true] ∧
    ModesRecorded (s.passes 101 flappingSteps) := by
  have hrun : ((systemInit sampleConfig 1).run forkedSteps).map (fun s =>
      recordedModes (loopRecords loopFlagsInit (s.passes 101 flappingSteps))) =
      some [false, true, false, true] := by decide +kernel
  obtain ⟨s, hs, hmodes⟩ := Option.map_eq_some_iff.mp hrun
  exact ⟨s, hs, hmodes, drain_modes_recorded sampleConfig 1 hs 101 flappingSteps⟩

end NexusGateway
