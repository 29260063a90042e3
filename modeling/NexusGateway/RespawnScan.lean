import NexusGateway.Generations

/- The slots of the workers and the children that the scan reaps.

   A slot holds what `fork` returned, and the scan hands it to `waitpid`. A failed fork
   has left −1 there, for which `waitpid` reaps any child that has exited; the slot of that
   child keeps its number, and no later scan reaps it again (`stale_slot`). When no
   `waitpid` of such a slot returns a child, every child that the scan reaps stands in the
   slot it was called with, which is forked into next, and every slot but that one holds
   a child that was not reaped, each its own (`scan_respawns_own`).

   The invariant also covers a reload: the numbers handed to the drain are children when
   the new ones are forked, so the drain reaps and kills none of the new ones. -/
namespace NexusGateway

/-! ## What a scan may meet and does -/

/-- `waitpid` returns no child for a slot that holds the number of none. -/
def FindsNone (s : System) : SystemStep → Prop
  | .master k =>
    match s.master.pc with
    | .reaping i => ∀ pid ∈ s.master.workerPids[i]?, pid ≤ 0 → k.waited ≤ 0
    | _ => True
  | _ => True

/-- A child that the scan reaps stands in the slot that it is at, and that slot is forked
    into next. -/
def RespawnsOwn (s : System) : SystemStep → Prop
  | .master k =>
    match s.master.pc with
    | .reaping i => ∀ pid ∈ s.master.workerPids[i]?, 0 < k.waited →
        ∀ s' ∈ s.step (.master k), k.waited = pid ∧ s'.master.pc = .replacing i
    | _ => True
  | _ => True

instance (s : System) : DecidablePred (FindsNone s)
  | .sighup => isTrue trivial
  | .master k => by
    unfold FindsNone
    dsimp only
    split <;> infer_instance
  | .worker _ _ => isTrue trivial

theorem findsNone_respawns (s : System) (a : SystemStep) (h : FindsNone s a) : RespawnsOwn s a := by
  cases a with
  | sighup => trivial
  | worker => trivial
  | master k =>
    unfold FindsNone at h
    unfold RespawnsOwn
    dsimp only at h ⊢
    split
    · rename_i i hpc
      rw [hpc] at h
      intro pid hpid hchild s' hs'
      have hpos : 0 < pid := by
        by_contra hnone
        have := h pid hpid (not_lt.mp hnone)
        omega
      have hstep : MasterStep s k s' := master_step hs'
      cases hstep with
      | reaps j pid' t hpc' hget hwait hr =>
        cases hpc.symm.trans hpc'
        cases hpid.symm.trans hget
        exact ⟨hr, rfl⟩
      | passes j pid' t hpc' hget hwait hr =>
        cases hpc.symm.trans hpc'
        cases hpid.symm.trans hget
        cases hwait <;> omega
      | scanned j hpc' hget =>
        cases hpc.symm.trans hpc'
        cases hpid.symm.trans hget
      | _ => simp_all
    · trivial

/-! ## The slots -/

/-- The slot that is to be forked into after its child was reaped. -/
def MasterPc.replaced : MasterPc → Option Nat
  | .replacing i => some i
  | _ => none

/-- Every slot but this one holds a child that was not reaped, and no two the same. -/
structure SlotsHeld (procs : Int → Option WorkerProc) (pids : List Int) (free : Option Nat) :
    Prop where
  held : ∀ (j : Nat) (pid : Int), pids[j]? = some pid → 0 < pid →
    free = some j ∨ (procs pid).isSome = true
  distinct : ∀ (i j : Nat) (pid : Int), pids[i]? = some pid → pids[j]? = some pid → 0 < pid →
    i = j

theorem slotsHeld_zero (procs : Int → Option WorkerProc) (n : Nat) (free : Option Nat) :
    SlotsHeld procs (List.replicate n 0) free := by
  have hzero : ∀ (j : Nat) (pid : Int), (List.replicate n (0 : Int))[j]? = some pid → ¬ 0 < pid := by
    intro j pid hget
    rw [List.eq_of_mem_replicate (List.mem_of_getElem? hget)]
    exact lt_irrefl 0
  exact ⟨fun j pid hget hpos => absurd hpos (hzero j pid hget),
    fun i j pid hget _ hpos => absurd hpos (hzero i pid hget)⟩

theorem getElem?_set_some {l : List Int} {i j : Nat} {x y : Int} (h : (l.set i x)[j]? = some y) :
    j = i ∧ y = x ∨ j ≠ i ∧ l[j]? = some y := by
  by_cases hj : j = i
  · subst hj
    rw [List.getElem?_set_self'] at h
    obtain ⟨_, _, hx⟩ := Option.map_eq_some_iff.mp h
    exact .inl ⟨rfl, hx.symm⟩
  · rw [List.getElem?_set_ne (Ne.symm hj)] at h
    exact .inr ⟨hj, h⟩

theorem SlotsHeld.fork {s t : System} {cfg : Config} {r : Int} {pids : List Int} {free : Option Nat}
    {i : Nat} (h : SlotsHeld s.procs pids free) (hfree : ∀ j, free = some j → j = i)
    (hfork : ForkStep s cfg r t) : SlotsHeld t.procs (pids.set i r) none := by
  -- another slot's child is there, so its number is not the new one
  have hother : ∀ (j : Nat) (pid : Int), j ≠ i → pids[j]? = some pid → 0 < pid →
      (s.procs pid).isSome = true := by
    intro j pid hj hget hpos
    obtain hat | hsome := h.held j pid hget hpos
    · exact absurd (hfree j hat) hj
    · exact hsome
  cases hfork with
  | failed hr =>
    constructor
    · intro j pid hget hpos
      obtain ⟨_, rfl⟩ | ⟨hj, hold⟩ := getElem?_set_some hget
      · omega
      · exact .inr (hother j pid hj hold hpos)
    · intro j₁ j₂ pid hget₁ hget₂ hpos
      obtain ⟨_, rfl⟩ | ⟨_, hold₁⟩ := getElem?_set_some hget₁
      · omega
      · obtain ⟨_, rfl⟩ | ⟨_, hold₂⟩ := getElem?_set_some hget₂
        · omega
        · exact h.distinct j₁ j₂ pid hold₁ hold₂ hpos
  | child hr hnew =>
    have hne : ∀ (j : Nat) (pid : Int), j ≠ i → pids[j]? = some pid → 0 < pid → pid ≠ r := by
      rintro j pid hj hget hpos rfl
      have hsome := hother j pid hj hget hpos
      rw [hnew] at hsome
      cases hsome
    constructor
    · intro j pid hget hpos
      obtain ⟨_, rfl⟩ | ⟨hj, hold⟩ := getElem?_set_some hget
      · exact .inr (by simp)
      · refine .inr ?_
        show (Function.update s.procs r _ pid).isSome = true
        rw [Function.update_of_ne (hne j pid hj hold hpos)]
        exact hother j pid hj hold hpos
    · intro j₁ j₂ pid hget₁ hget₂ hpos
      obtain ⟨h₁, e₁⟩ | ⟨h₁, hold₁⟩ := getElem?_set_some hget₁
      · obtain ⟨h₂, _⟩ | ⟨h₂, hold₂⟩ := getElem?_set_some hget₂
        · exact h₁.trans h₂.symm
        · exact absurd e₁ (hne j₂ pid h₂ hold₂ hpos)
      · obtain ⟨h₂, e₂⟩ | ⟨h₂, hold₂⟩ := getElem?_set_some hget₂
        · exact absurd e₂ (hne j₁ pid h₁ hold₁ hpos)
        · exact h.distinct j₁ j₂ pid hold₁ hold₂ hpos

theorem SlotsHeld.remove {procs : Int → Option WorkerProc} {pids : List Int} {free : Option Nat}
    {r : Int} (h : SlotsHeld procs pids free) (hr : 0 < r → r ∉ pids) :
    SlotsHeld (Function.update procs r none) pids free := by
  refine ⟨fun j pid hget hpos => ?_, h.distinct⟩
  have hne : pid ≠ r := by
    rintro rfl
    exact hr hpos (List.mem_of_getElem? hget)
  rw [Function.update_of_ne hne]
  exact h.held j pid hget hpos

theorem SlotsHeld.reap {procs : Int → Option WorkerProc} {pids : List Int} {i : Nat} {r : Int}
    (h : SlotsHeld procs pids none) (hget : pids[i]? = some r) (hr : 0 < r) :
    SlotsHeld (Function.update procs r none) pids (some i) := by
  refine ⟨fun j pid hj hpos => ?_, h.distinct⟩
  by_cases hpid : pid = r
  · subst hpid
    exact .inl (congrArg some (h.distinct i j pid hget hj hpos))
  · rw [Function.update_of_ne hpid]
    obtain hnone | hsome := h.held j pid hj hpos
    · cases hnone
    · exact .inr hsome

theorem SlotsHeld.weaken {procs : Int → Option WorkerProc} {pids : List Int} (free : Option Nat)
    (h : SlotsHeld procs pids none) : SlotsHeld procs pids free := by
  refine ⟨fun j pid hget hpos => ?_, h.distinct⟩
  obtain hnone | hsome := h.held j pid hget hpos
  · cases hnone
  · exact .inr hsome

/-! ## The invariant of a run -/

/-- The numbers handed to the drain: children while the new ones are forked, and none
    outside a reload. -/
def OldHeld (procs : Int → Option WorkerProc) (old : List Int) : MasterPc → Prop
  | .respawning _ => ∀ pid ∈ old, 0 < pid → (procs pid).isSome = true
  | .draining _ _ => True
  | .killing _ => True
  | .collecting _ => True
  | _ => old = []

structure ScanInv (s : System) : Prop where
  slots : SlotsHeld s.procs s.master.workerPids s.master.pc.replaced
  apart : ∀ pid ∈ s.master.oldPids, 0 < pid → pid ∉ s.master.workerPids
  old : OldHeld s.procs s.master.oldPids s.master.pc

theorem scanInv_init (cfg : Config) (online : Int32) : ScanInv (systemInit cfg online) :=
  ⟨slotsHeld_zero _ _ _, (by simp [systemInit]), rfl⟩

theorem oldHeld_update {procs : Int → Option WorkerProc} {old : List Int} {pc : MasterPc} {r : Int}
    (p : WorkerProc) (h : OldHeld procs old pc) :
    OldHeld (Function.update procs r (some p)) old pc := by
  cases pc with
  | respawning i =>
    intro pid hpid hpos
    by_cases hr : pid = r
    · rw [hr, Function.update_self]
      rfl
    · rw [Function.update_of_ne hr]
      exact h pid hpid hpos
  | _ => exact h

theorem SlotsHeld.update {procs : Int → Option WorkerProc} {pids : List Int} {free : Option Nat}
    {r : Int} (p : WorkerProc) (h : SlotsHeld procs pids free) :
    SlotsHeld (Function.update procs r (some p)) pids free := by
  refine ⟨fun j pid hget hpos => (h.held j pid hget hpos).imp_right (fun hsome => ?_), h.distinct⟩
  by_cases hr : pid = r
  · rw [hr, Function.update_self]
    rfl
  · rw [Function.update_of_ne hr]
    exact hsome

theorem ScanInv.worker {s s' : System} (h : ScanInv s) {pid : Int} {a : WorkerAct}
    (hstep : s.step (.worker pid a) = some s') : ScanInv s' := by
  obtain ⟨p, pc', _, _, _, rfl⟩ := worker_step hstep
  exact ⟨h.slots.update _, h.apart, oldHeld_update _ h.old⟩

section Master

variable {s : System} {pc : MasterPc} {m : Master} (h : ScanInv s) (hpc : s.master.pc = pc)

include h hpc

theorem ScanInv.goto (hslot : pc.replaced = none) (hworkers : m.workerPids = s.master.workerPids)
    (holds : m.oldPids = s.master.oldPids)
    (hold : OldHeld s.procs s.master.oldPids pc → OldHeld s.procs s.master.oldPids m.pc) :
    ScanInv (s.withMaster m) := by
  obtain ⟨hslots, hapart, hthere⟩ := h
  rw [hpc] at hslots hthere
  rw [hslot] at hslots
  refine ⟨?_, ?_, ?_⟩
  · rw [System.withMaster, hworkers]
    exact hslots.weaken _
  · rw [System.withMaster, hworkers, holds]
    exact hapart
  · rw [System.withMaster, holds]
    exact hold hthere

theorem ScanInv.forkOutside {t : System} {cfg : Config} {r : Int} {i : Nat}
    (hold : s.master.oldPids = []) (hfree : ∀ j, pc.replaced = some j → j = i) (hfork : ForkStep s cfg r t)
    (hworkers : m.workerPids = s.master.workerPids.set i r) (holds : m.oldPids = s.master.oldPids)
    (hslot : m.pc.replaced = none) (hnone : m.oldPids = [] → OldHeld t.procs m.oldPids m.pc) :
    ScanInv (t.withMaster m) := by
  have hslots := h.slots
  rw [hpc] at hslots
  have hempty := holds.trans hold
  refine ⟨?_, ?_, hnone hempty⟩
  · show SlotsHeld t.procs m.workerPids m.pc.replaced
    rw [hworkers, hslot]
    exact hslots.fork hfree hfork
  · show ∀ pid ∈ m.oldPids, 0 < pid → pid ∉ m.workerPids
    simp [hempty]

end Master

theorem ScanInv.forkReload {s t : System} {k : MasterCalls} {i : Nat} (h : ScanInv s)
    (hpc : s.master.pc = .respawning i) (hfork : ForkStep s s.master.newCfg k.forked t) :
    ScanInv (t.withMaster { s.master with
      pc := .respawning (i + 1), workerPids := s.master.workerPids.set i k.forked }) := by
  obtain ⟨hslots, hapart, hold⟩ := h
  rw [hpc] at hslots hold
  have hforked : SlotsHeld t.procs (s.master.workerPids.set i k.forked) none :=
    hslots.fork nofun hfork
  refine ⟨hforked, ?_, ?_⟩
  · intro pid hpid hpos hmem
    obtain hin | rfl := List.mem_or_eq_of_mem_set hmem
    · exact hapart pid hpid hpos hin
    -- the number forked is not in use, and those of the old workers are
    · have hsome := hold k.forked hpid hpos
      cases hfork with
      | failed hr => omega
      | child _ hnew =>
        rw [hnew] at hsome
        cases hsome
  · cases hfork with
    | failed => exact hold
    | child =>
      have hkept : OldHeld s.procs s.master.oldPids (.respawning (i + 1)) := hold
      exact oldHeld_update _ hkept

theorem ScanInv.handOver {s : System} {sh : Shared} (h : ScanInv s) (hpc : s.master.pc = .setting) :
    ScanInv ({ s with shared := sh }.withMaster { s.master with
      pc := .respawning 0
      oldPids := s.master.workerPids
      workerPids := List.replicate s.master.workerPids.length 0
      drainDeadline := 30
      leaked := 0 }) := by
  have hslots := h.slots
  rw [hpc] at hslots
  refine ⟨slotsHeld_zero _ _ _, ?_, ?_⟩
  · intro pid _ hpos hmem
    rw [List.eq_of_mem_replicate hmem] at hpos
    exact lt_irrefl 0 hpos
  · intro pid hpid hpos
    obtain ⟨j, hget⟩ := List.getElem?_of_mem hpid
    obtain hnone | hsome := hslots.held j pid hget hpos
    · cases hnone
    · exact hsome

theorem ScanInv.endOld {s : System} {pid : Int} (h : ScanInv s) (hpid : pid ∈ s.master.oldPids) :
    SlotsHeld (Function.update s.procs pid none) s.master.workerPids s.master.pc.replaced :=
  h.slots.remove (h.apart pid hpid)

theorem ScanInv.endCollected {s : System} (h : ScanInv s) (i : Nat) :
    SlotsHeld (Function.update s.procs (s.master.oldPids[i]?.getD 0) none) s.master.workerPids
      s.master.pc.replaced := by
  cases hget : s.master.oldPids[i]? with
  | none => exact h.slots.remove (fun hpos => absurd hpos (lt_irrefl 0))
  | some pid => exact h.endOld (List.mem_of_getElem? hget)

/-- A `waitpid` of the scan: it reaps the slot's child or none. -/
theorem ScanInv.scan {s t : System} {k : MasterCalls} {i : Nat} {pid : Int} (h : ScanInv s)
    (hpc : s.master.pc = .reaping i) (hget : s.master.workerPids[i]? = some pid)
    (hfound : FindsNone s (.master k)) (hwait : WaitStep s pid k.waited t) :
    SlotsHeld t.procs s.master.workerPids (if k.waited = pid then some i else none) := by
  have hslots := h.slots
  have hnone : pid ≤ 0 → k.waited ≤ 0 := by
    unfold FindsNone at hfound
    dsimp only at hfound
    rw [hpc] at hfound
    exact hfound pid hget
  rw [hpc] at hslots
  cases hwait with
  | running => exact hslots.weaken _
  | reaped hr hpid =>
    by_cases hpos : 0 < k.waited
    · have hsame : k.waited = pid := by omega
      rw [if_pos hsame]
      exact hslots.reap (hsame ▸ hget) hpos
    · exact (hslots.weaken _).remove (fun hlt => absurd hlt hpos)

/-- What a step of the master keeps of the slots. -/
theorem ScanInv.master {s s' : System} {k : MasterCalls} (h : ScanInv s)
    (hfound : FindsNone s (.master k)) (hstep : MasterStep s k s') : ScanInv s' := by
  have hold := h.old
  cases hstep with
  | spawns i t hpc _ hfork =>
    rw [hpc] at hold
    exact h.forkOutside hpc hold nofun hfork rfl rfl rfl id
  | spawned i hpc => exact h.goto hpc rfl rfl rfl id
  | asked hpc => exact h.goto hpc rfl rfl rfl id
  | unasked hpc => exact h.goto hpc rfl rfl rfl id
  | clears hpc => exact h.goto hpc rfl rfl rfl id
  | loadFails hpc => exact h.goto hpc rfl rfl rfl id
  | loads cfg hpc => exact h.goto hpc rfl rfl rfl id
  | reloads hpc =>
    have hmoved := h.goto (m := { s.master with pc := .incrementing }) hpc rfl rfl rfl id
    exact ⟨hmoved.slots, hmoved.apart, hmoved.old⟩
  | increments hpc =>
    have hmoved := h.goto (m := { s.master with pc := .setting }) hpc rfl rfl rfl id
    exact ⟨hmoved.slots, hmoved.apart, hmoved.old⟩
  | sets hpc => exact h.handOver hpc
  | respawns i t hpc _ hfork => exact h.forkReload hpc hfork
  | respawned i hpc => exact h.goto hpc rfl rfl rfl (fun _ => trivial)
  | skips i alive pid hpc => exact h.goto hpc rfl rfl rfl id
  | drained i alive pid t hpc hget hpos hwait hr =>
    have hslots := h.endOld (List.mem_of_getElem? hget)
    rw [hpc] at hslots
    cases hwait with
    | running => omega
    | reaped =>
      rw [hr]
      refine ⟨hslots, fun q hq hqpos => ?_, trivial⟩
      obtain hin | rfl := List.mem_or_eq_of_mem_set hq
      · exact h.apart q hin hqpos
      · exact absurd hqpos (lt_irrefl 0)
  | drains i alive pid t hpc hget hpos hwait hr =>
    cases hwait with
    | running => exact h.goto hpc rfl rfl rfl id
    | reaped _ hpid => omega
  | drainEnds i alive hpc => exact h.goto hpc rfl rfl rfl id
  | drainAgain i alive hpc => exact h.goto hpc rfl rfl rfl id
  | kills i pid hpc hget =>
    have hslots := h.endOld (List.mem_of_getElem? hget)
    rw [hpc] at hslots
    exact ⟨hslots, h.apart, trivial⟩
  | collects i t hpc hwait =>
    cases hwait with
    | failed => exact h.goto hpc rfl rfl rfl id
    | reaped =>
      have hslots := h.endCollected i
      rw [hpc] at hslots
      exact ⟨hslots, h.apart, trivial⟩
  | spares i pid hpc => exact h.goto hpc rfl rfl rfl id
  | killed i hpc =>
    have hslots := h.slots
    rw [hpc] at hslots
    exact ⟨hslots, (by simp [System.withMaster]), rfl⟩
  | finishes hpc =>
    have hmoved := h.goto (m := { s.master with pc := .reaping 0 }) hpc rfl rfl rfl id
    exact ⟨hmoved.slots, hmoved.apart, hmoved.old⟩
  | reaps i pid t hpc hget hwait hr =>
    have hslots := h.scan hpc hget hfound hwait
    rw [if_pos hr] at hslots
    rw [hpc] at hold
    exact ⟨hslots, h.apart, hold⟩
  | passes i pid t hpc hget hwait hr =>
    have hslots := h.scan hpc hget hfound hwait
    rw [if_neg hr] at hslots
    rw [hpc] at hold
    exact ⟨hslots, h.apart, hold⟩
  | scanned i hpc => exact h.goto hpc rfl rfl rfl id
  | replaces i t hpc hfork =>
    rw [hpc] at hold
    exact h.forkOutside hpc hold (fun j hj => (Option.some.inj hj).symm) hfork rfl rfl rfl id

theorem scanInv_step {s s' : System} {a : SystemStep} (h : ScanInv s) (hfound : FindsNone s a)
    (hstep : s.step a = some s') : ScanInv s' := by
  cases a with
  | sighup =>
    cases hstep
    exact ⟨h.slots, h.apart, h.old⟩
  | master k => exact h.master hfound (master_step hstep)
  | worker pid a => exact h.worker hstep

/-- **The scan respawns the slot of the child that it reaps.** For every run of the master,
    its workers and the signals sent to it, in any order, with any forks that fail and any
    workers that die: if no `waitpid` of a slot that a failed fork has left returns a
    child, then each child that the scan reaps stands in the slot that is forked into next,
    and in the state reached every slot but that one holds the number of a child that was
    not reaped, no two the same. -/
theorem scan_respawns_own (cfg : Config) (online : Int32) {steps : List SystemStep} {s : System}
    (hfound : Runs.Meets System.step FindsNone (systemInit cfg online) steps)
    (hrun : (systemInit cfg online).run steps = some s) :
    Runs.Meets System.step RespawnsOwn (systemInit cfg online) steps ∧
      SlotsHeld s.procs s.master.workerPids s.master.pc.replaced :=
  ⟨hfound.mono findsNone_respawns steps,
    (Runs.run_invariant scanInv_step steps (scanInv_init cfg online) hfound hrun).slots⟩

/-- Two workers are started, and the second dies. -/
def scanSteps : List SystemStep :=
  [.master ⟨none, 100, 0⟩, .master ⟨none, 101, 0⟩, .master noCalls, .worker 101 .die,
    .master noCalls, .master noCalls, .master ⟨none, 0, 101⟩]

theorem scan_respawns_own_second : ∃ s, (systemInit sampleConfig 2).run scanSteps = some s ∧
    s.master.pc = .replacing 1 ∧
    Runs.Meets System.step RespawnsOwn (systemInit sampleConfig 2) scanSteps ∧
      SlotsHeld s.procs s.master.workerPids s.master.pc.replaced := by
  have hrun : ((systemInit sampleConfig 2).run scanSteps).map (fun s => s.master.pc) =
      some (.replacing 1) := by decide +kernel
  have hfound : Runs.Meets System.step FindsNone (systemInit sampleConfig 2) scanSteps := by
    decide +kernel
  obtain ⟨s, hs, hpc⟩ := Option.map_eq_some_iff.mp hrun
  exact ⟨s, hs, hpc, scan_respawns_own sampleConfig 2 hfound hs⟩

/-- The first fork fails, and the worker of the other slot dies. -/
def staleSteps : List SystemStep :=
  [.master ⟨none, -1, 0⟩, .master ⟨none, 100, 0⟩, .master noCalls, .worker 100 .die,
    .master noCalls, .master ⟨none, 0, 100⟩]

/-- The scan reaps it at the first slot, and the other keeps its number. -/
theorem stale_slot : ∃ s, (systemInit sampleConfig 2).run staleSteps = some s ∧
    s.master.workerPids = [-1, 100] ∧ s.master.pc = .reaping 1 ∧ s.procs 100 = none ∧
    ¬ SlotsHeld s.procs s.master.workerPids s.master.pc.replaced := by
  have hrun : ((systemInit sampleConfig 2).run staleSteps).map (fun s =>
      (s.master.workerPids, s.master.pc, (s.procs 100).isSome)) =
      some ([-1, 100], .reaping 1, false) := by decide +kernel
  obtain ⟨s, hs, hstate⟩ := Option.map_eq_some_iff.mp hrun
  obtain ⟨hpids, hpc, hproc⟩ := by simpa only [Prod.mk.injEq] using hstate
  refine ⟨s, hs, hpids, hpc, by simpa using hproc, fun hslots => ?_⟩
  rw [hpids, hpc] at hslots
  obtain hfree | hsome := hslots.held 1 100 rfl (by decide)
  · cases hfree
  · rw [hproc] at hsome
    cases hsome

end NexusGateway
