import NexusGateway.MasterEffects
import NexusGateway.ForwardedRequest

/- Which workers a reload drains.

   A reload increments the generation and then sets `shutting_down`. A worker is drained
   while that word is set and the generation is greater than the one it has recorded,
   which it does some time after it was forked. In every run the shared word counts the
   increments, and what a worker has recorded is the count at some moment since its fork
   (`GenerationInv`). From this:

   - a worker refuses a connection, goes into drain mode or leaves its loop for a drain
     only when the generation was incremented since its fork (`drained_after_increment`);
   - in every run in which no worker records its generation late, that is after an
     increment since its fork, and the word does not wrap around, a reload's old workers
     are drained (`old_workers_drain`). A worker that records it late is taken for a new
     one (`late_worker_killed`). -/
namespace NexusGateway
open CString

/-! ## The count of increments -/

/-- The generation is one the worker may have recorded: the count of increments at some
    moment since its fork. -/
def RecordedSince (bornAt increments : Nat) (g : Int32) : Prop :=
  ∃ n, bornAt ≤ n ∧ n ≤ increments ∧ g = .ofNat n

theorem RecordedSince.later {bornAt increments increments' : Nat} {g : Int32}
    (h : RecordedSince bornAt increments g) (hle : increments ≤ increments') :
    RecordedSince bornAt increments' g := by
  obtain ⟨n, hborn, hn, hg⟩ := h
  exact ⟨n, hborn, hn.trans hle, hg⟩

/-- A process was forked after some of the increments, and its generation is one of those since. -/
structure ProcInv (increments : Nat) (p : WorkerProc) : Prop where
  born : p.bornAt ≤ increments
  recorded : ∀ l, p.pc.loop = some l → RecordedSince p.bornAt increments l.myGeneration

/-- The invariant of every run. -/
structure GenerationInv (s : System) : Prop where
  counted : s.shared.drainGeneration = .ofNat s.increments
  procs : ∀ pid p, s.procs pid = some p → ProcInv s.increments p

theorem ProcInv.later {increments increments' : Nat} {p : WorkerProc} (h : ProcInv increments p)
    (hle : increments ≤ increments') : ProcInv increments' p :=
  ⟨h.born.trans hle, fun l hl => (h.recorded l hl).later hle⟩

theorem procInv_forked (increments : Nat) (cfg : Config) :
    ProcInv increments ⟨cfg, .starting, increments⟩ :=
  ⟨Nat.le_refl _, fun l hl => by cases hl⟩

theorem generationInv_init (cfg : Config) (online : Int32) : GenerationInv (systemInit cfg online) :=
  ⟨rfl, fun pid p hp => by cases hp⟩

theorem wordsMove_increments {s s' : System} (h : WordsMove s s') : s.increments ≤ s'.increments := by
  cases h with
  | kept _ hincrements => exact hincrements.ge
  | incremented _ hincrements => exact hincrements ▸ Nat.le_succ _
  | stored _ hincrements => exact hincrements.ge

theorem GenerationInv.master {s s' : System} (h : GenerationInv s) (hmove : MasterMove s s') :
    GenerationInv s' := by
  have hle := wordsMove_increments hmove.words
  refine ⟨?_, fun pid p hp => ?_⟩
  · cases hmove.words with
    | kept _ hincrements hgen => rw [hgen, hincrements, h.counted]
    | incremented _ hincrements hgen =>
      rw [hgen, hincrements, h.counted, Int32.ofNat_add]
      rfl
    | stored _ hincrements hgen => rw [hgen, hincrements, h.counted]
  · obtain hold | ⟨cfg, rfl⟩ := hmove.procs pid p hp
    · exact (h.procs pid p hold).later hle
    · exact (procInv_forked s.increments cfg).later hle

theorem procInv_move {s : System} (h : GenerationInv s) {pid : Int} {p : WorkerProc} {pc' : WorkerPc}
    {a : WorkerAct} {notices : List Notice} (hp : s.procs pid = some p)
    (hmove : WorkerMove s.shared p.cfg p.pc a pc' notices) :
    ProcInv s.increments { p with pc := pc' } := by
  have hinv := h.procs pid p hp
  refine ⟨hinv.born, fun l' hl' => ?_⟩
  obtain ⟨l, hl, hsame⟩ | ⟨_, hnow⟩ := workerMove_generation hmove hl'
  · rw [hsame]
    exact hinv.recorded l hl
  · exact ⟨s.increments, hinv.born, Nat.le_refl _, hnow.trans h.counted⟩

theorem GenerationInv.worker {s s' : System} (h : GenerationInv s) {pid : Int} {a : WorkerAct}
    (hstep : s.step (.worker pid a) = some s') : GenerationInv s' := by
  obtain ⟨p, pc', _, hp, hmove, rfl⟩ := worker_step hstep
  refine ⟨h.counted, fun q p' hq => ?_⟩
  obtain ⟨_, hself⟩ | ⟨_, hold⟩ := update_some hq
  · cases hself
    exact procInv_move h hp hmove
  · exact h.procs q p' hold

/-- Every step of every process keeps it. -/
theorem generationInv_step {s s' : System} {a : SystemStep} (h : GenerationInv s)
    (hstep : s.step a = some s') : GenerationInv s' := by
  cases a with
  | sighup =>
    cases hstep
    exact ⟨h.counted, h.procs⟩
  | master k => exact h.master (master_move hstep)
  | worker pid a => exact h.worker hstep

theorem generationInv_run {cfg : Config} {online : Int32} {steps : List SystemStep} {s : System}
    (hrun : (systemInit cfg online).run steps = some s) : GenerationInv s :=
  Runs.run_keeps generationInv_step steps (generationInv_init cfg online) hrun

/-- **A worker is drained only for an increment since its fork.** For every run of the
    master, its workers and the signals sent to it, in any order, and every step that a
    worker can take in the state reached: if it refuses a connection, goes into drain
    mode or leaves its loop for a drain, then the generation was incremented after that
    worker was forked. -/
theorem drained_after_increment (cfg : Config) (online : Int32) {steps : List SystemStep}
    {s s' : System} (hrun : (systemInit cfg online).run steps = some s) {pid : Int} {a : WorkerAct}
    {notices : List Notice} (hstep : s.workerStep pid a = some (s', notices)) (hne : notices ≠ []) :
    ∃ p, s.procs pid = some p ∧ p.bornAt < s.increments := by
  have hinv := generationInv_run hrun
  obtain ⟨p, pc', hp, hmove, _⟩ := workerStep_some hstep
  obtain ⟨l, hl, hgreater⟩ := workerMove_notices hmove hne
  obtain ⟨n, hborn, hn, hg⟩ := (hinv.procs pid p hp).recorded l hl
  refine ⟨p, hp, lt_of_le_of_ne (hborn.trans hn) (fun heq => ?_)⟩
  -- without an increment the two words are one number
  have hsame : l.myGeneration = s.shared.drainGeneration := by
    rw [hg, hinv.counted]
    congr 1
    omega
  rw [hsame, gt_iff_lt, Int32.lt_iff_toInt_lt] at hgreater
  exact lt_irrefl _ hgreater

/-- A worker as it enters its loop. -/
def idleWorker : Worker := { sampleWorker with activeConns := 0 }

/-- Calls of the master that return nothing of interest. -/
def noCalls : MasterCalls := ⟨none, 0, 0⟩

/-- One worker is started and enters its loop; a reload has set `shutting_down`, and the
    worker has loaded that word. -/
def reloadSteps : List SystemStep :=
  [.master ⟨none, 100, 0⟩, .master noCalls, .worker 100 (.enter idleWorker 5), .sighup,
    .master noCalls, .master noCalls, .master ⟨some sampleConfig, 0, 0⟩, .master noCalls,
    .master noCalls, .master noCalls, .worker 100 .check]

theorem drained_after_increment_reload : ∃ s s' notices,
    (systemInit sampleConfig 1).run reloadSteps = some s ∧
      s.workerStep 100 .decide = some (s', notices) ∧ notices ≠ [] ∧
      ∃ p, s.procs 100 = some p ∧ p.bornAt < s.increments := by
  have hrun : (((systemInit sampleConfig 1).run reloadSteps).bind
      (fun s => (s.workerStep 100 .decide).map Prod.snd)) = some [.drainMode, .leftLoop] := by
    decide +kernel
  obtain ⟨s, hs, hmap⟩ := Option.bind_eq_some_iff.mp hrun
  obtain ⟨r, hr, hnotices⟩ := Option.map_eq_some_iff.mp hmap
  have hne : r.2 ≠ [] := by
    rw [hnotices]
    exact List.cons_ne_nil _ _
  exact ⟨s, r.1, r.2, hs, hr, hne, drained_after_increment sampleConfig 1 hs hr hne⟩

/-! ## The workers to be drained -/

/-- No worker records its generation after an increment since its fork, and the
    generation is not incremented from its greatest value. -/
def OnTime (s : System) : SystemStep → Prop
  | .sighup => True
  | .master _ => s.master.pc = .incrementing → s.shared.drainGeneration ≠ Int32.maxValue
  | .worker pid a => a.enters = true → ∀ p ∈ s.procs pid, p.bornAt = s.increments

/-- While a reload drains, each worker that was there before it, is to be drained and has
    recorded its generation is recognised as an old one. -/
def OldDrain (s : System) : Prop :=
  s.master.pc.drains = true → ∀ pid ∈ s.master.oldPids, ∀ p ∈ s.procs pid, p.bornAt < s.increments →
    ∀ l ∈ p.pc.loop, l.shouldDrain s.shared.shuttingDown s.shared.drainGeneration = true

instance (s : System) : DecidablePred (OnTime s)
  | .sighup => isTrue trivial
  | .master _ => inferInstanceAs (Decidable (_ → _))
  | .worker _ _ => inferInstanceAs (Decidable (_ → _))

instance (s : System) : Decidable (OldDrain s) := inferInstanceAs (Decidable (_ → _))

/-- The invariant of a run whose steps are on time: what a worker has recorded is the
    count at its fork. -/
structure StampInv (s : System) : Prop extends GenerationInv s where
  bounded : s.increments ≤ 2147483647
  stamped : ∀ pid p, s.procs pid = some p → ∀ l, p.pc.loop = some l → l.myGeneration = .ofNat p.bornAt
  flag : s.master.pc.drains = true → s.shared.shuttingDown = 1

theorem stampInv_init (cfg : Config) (online : Int32) : StampInv (systemInit cfg online) where
  toGenerationInv := generationInv_init cfg online
  bounded := Nat.zero_le _
  stamped := fun _ _ hp => by cases hp
  flag := fun hdrains => by cases hdrains

theorem StampInv.below {s : System} (h : StampInv s)
    (hne : s.shared.drainGeneration ≠ Int32.maxValue) : s.increments < 2147483647 := by
  refine lt_of_le_of_ne h.bounded (fun heq => hne ?_)
  rw [h.counted, heq]
  rfl

theorem StampInv.master {s s' : System} (h : StampInv s) {k : MasterCalls} (hmove : MasterMove s s')
    (htime : OnTime s (.master k)) : StampInv s' := by
  refine ⟨h.toGenerationInv.master hmove, ?_, fun pid p hp l hl => ?_, fun hdrains => ?_⟩
  · cases hmove.words with
    | kept _ hincrements => exact hincrements ▸ h.bounded
    | incremented hpc hincrements =>
      rw [hincrements]
      exact h.below (htime hpc)
    | stored _ hincrements => exact hincrements ▸ h.bounded
  · obtain hold | ⟨cfg, rfl⟩ := hmove.procs pid p hp
    · exact h.stamped pid p hold l hl
    · cases hl
  · cases hmove.words with
    | kept _ _ _ hflag hkept => exact hflag.trans (h.flag (hkept hdrains))
    | incremented _ _ _ hnone =>
      rw [hnone] at hdrains
      cases hdrains
    | stored _ _ _ hflag => exact hflag hdrains

theorem StampInv.worker {s s' : System} (h : StampInv s) {pid : Int} {a : WorkerAct}
    (hstep : s.step (.worker pid a) = some s') (htime : OnTime s (.worker pid a)) : StampInv s' := by
  have hinv := h.toGenerationInv.worker hstep
  obtain ⟨p, pc', _, hp, hmove, rfl⟩ := worker_step hstep
  refine ⟨hinv, h.bounded, fun q p' hq l' hl' => ?_, h.flag⟩
  obtain ⟨_, hself⟩ | ⟨_, hold⟩ := update_some hq
  · cases hself
    obtain ⟨l, hl, hsame⟩ | ⟨henter, hnow⟩ := workerMove_generation hmove hl'
    · exact hsame.trans (h.stamped pid p hp l hl)
    · rw [hnow, h.counted, htime henter p hp]
  · exact h.stamped q p' hold l' hl'

theorem stampInv_step {s s' : System} {a : SystemStep} (h : StampInv s) (htime : OnTime s a)
    (hstep : s.step a = some s') : StampInv s' := by
  cases a with
  | sighup =>
    cases hstep
    exact ⟨⟨h.counted, h.procs⟩, h.bounded, h.stamped, h.flag⟩
  | master k => exact h.master (master_move hstep) htime
  | worker pid a => exact h.worker hstep htime

theorem StampInv.oldDrain {s : System} (h : StampInv s) : OldDrain s := by
  intro hdrains pid _ p hp hlt l hl
  have hbounded := h.bounded
  rw [shouldDrain_iff, h.flag hdrains, h.counted, h.stamped pid p hp l hl]
  refine ⟨by decide, ?_⟩
  rw [gt_iff_lt, Int32.lt_iff_toInt_lt, Int32.toInt_ofNat_of_lt (by omega),
    Int32.toInt_ofNat_of_lt (by omega)]
  exact Int.ofNat_lt.mpr hlt

/-- **A reload's old workers are drained when all have recorded their generation in time.**
    For every run of the master, its workers and the signals sent to it, in any order and
    over any number of reloads: if every step of it is on time in the state it meets, then
    in the state reached every worker that the reload has to drain and that has recorded
    its generation refuses connections and leaves its loop when it has none. -/
theorem old_workers_drain (cfg : Config) (online : Int32) {steps : List SystemStep} {s : System}
    (htime : Runs.Meets System.step OnTime (systemInit cfg online) steps)
    (hrun : (systemInit cfg online).run steps = some s) : OldDrain s :=
  (Runs.run_invariant stampInv_step steps (stampInv_init cfg online) htime hrun).oldDrain

theorem old_workers_drain_reload : ∃ s, (systemInit sampleConfig 1).run reloadSteps = some s ∧
    s.master.pc.drains = true ∧ s.master.oldPids = [100] ∧ OldDrain s := by
  have hrun : ((systemInit sampleConfig 1).run reloadSteps).map
      (fun s => (s.master.pc.drains, s.master.oldPids)) = some (true, [100]) := by decide +kernel
  have htime : Runs.Meets System.step OnTime (systemInit sampleConfig 1) reloadSteps := by
    decide +kernel
  obtain ⟨s, hs, hmaster⟩ := Option.map_eq_some_iff.mp hrun
  obtain ⟨hdrains, hpids⟩ := Prod.mk.inj hmaster
  exact ⟨s, hs, hdrains, hpids, old_workers_drain sampleConfig 1 htime hs⟩

/-- A client of a worker that is taken for a new one. -/
def lateClient : Event :=
  ⟨5, epollIn, { EventCalls.idle with accept := ⟨1, 1, 7, .empty, 40000⟩ }⟩

/-- The worker forked first records its generation when the reload has incremented it, and
    is handed a client while the reload waits for it to end. -/
def lateSteps : List SystemStep :=
  [.master ⟨none, 100, 0⟩, .master noCalls, .sighup, .master noCalls, .master noCalls,
    .master ⟨some sampleConfig, 0, 0⟩, .master noCalls, .master noCalls,
    .worker 100 (.enter idleWorker 5), .master noCalls, .master ⟨none, 101, 0⟩, .master noCalls,
    .worker 100 .loadShutting, .worker 100 (.accept lateClient)]

/-- Thirty scans of a worker that does not end, the signal that ends it and the wait for it. -/
def killSteps : List SystemStep := List.replicate 61 (.master noCalls) ++ [.master ⟨none, 0, 100⟩]

/-- The active connections of a worker. -/
def System.activeConns (s : System) (pid : Int) : Option Int :=
  (s.procs pid).bind (fun p => p.pc.loop.map (fun l => l.worker.activeConns))

/-- The worker is not recognised, lets the client in, and is killed with it. -/
theorem late_worker_killed : ∃ s s', (systemInit sampleConfig 1).run lateSteps = some s ∧
    ¬ OldDrain s ∧ s.activeConns 100 = some 1 ∧
    s.run killSteps = some s' ∧ s'.activeConns 100 = none ∧ s'.master.leaked = 1 := by
  have hrun : ((systemInit sampleConfig 1).run lateSteps).bind (fun s =>
      (s.run killSteps).map (fun s' =>
        (decide (OldDrain s), s.activeConns 100, s'.activeConns 100, s'.master.leaked))) =
      some (false, some 1, none, 1) := by decide +kernel
  obtain ⟨s, hs, hmap⟩ := Option.bind_eq_some_iff.mp hrun
  obtain ⟨s', hs', hstate⟩ := Option.map_eq_some_iff.mp hmap
  obtain ⟨hold, hactive, hgone, hleaked⟩ := by simpa only [Prod.mk.injEq] using hstate
  exact ⟨s, s', hs, of_decide_eq_false hold, hactive, hs', hgone, hleaked⟩

end NexusGateway
