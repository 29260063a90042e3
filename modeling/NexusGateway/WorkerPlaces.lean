import NexusGateway.RespawnScan
import Mathlib.Data.Finset.Card

/- The workers that the master knows of, and those that a reload leaves.

   The scan of `RespawnScan` may take a child for another's; no process is lost by that.
   In every run each process that was neither reaped nor killed stands in one of the two
   tables: in a slot of the workers that is not to be forked into again, or, while a reload
   drains them, in a slot of the old ones that is still to be waited for or killed (`Known`).
   The first are forked since the latest increment of the generation, the others just before
   it. So there are never more workers than slots outside a reload, and twice as many in one
   (`workers_accounted`); outside a reload none is left from before it, and none refuses a
   connection or drains (`quiet_outside_reload`). A killed process takes no step; it stays
   unreaped, and in no table, where SIGHUP interrupts the wait for it. -/
namespace NexusGateway

/-- From the increment of the generation to the end of the last old worker. -/
def MasterPc.reloads : MasterPc → Bool
  | .setting | .respawning _ | .draining _ _ | .killing _ | .collecting _ => true
  | _ => false

/-- How far the workers in the table are behind the generation. -/
def MasterPc.behind : MasterPc → Nat
  | .setting => 1
  | _ => 0

/-- The slot of the old workers is still to be waited for or killed. -/
def MasterPc.awaits (j : Nat) : MasterPc → Bool
  | .respawning _ | .draining _ _ => true
  | .killing i => decide (i ≤ j)
  | .collecting i => decide (i < j)
  | _ => false

/-- The slots from here on are still empty. -/
def MasterPc.fills : MasterPc → Option Nat
  | .spawning i => some i
  | .respawning i => some i
  | _ => none

/-- Where the master knows a process from, and when it was forked. -/
inductive Known (m : Master) (increments : Nat) (pid : Int) (bornAt : Nat) : Prop
  | worker (j : Nat) (hget : m.workerPids[j]? = some pid) (hslot : m.pc.replaced ≠ some j)
      (hborn : bornAt + m.pc.behind = increments)
  | old (j : Nat) (hget : m.oldPids[j]? = some pid) (hawaits : m.pc.awaits j = true)
      (hborn : bornAt + 1 = increments)

/-- The invariant, `n` being the number of slots. -/
structure PlacesInv (n : Nat) (s : System) : Prop where
  known : ∀ pid p, s.procs pid = some p → Known s.master s.increments pid p.bornAt
  positive : ∀ pid p, s.procs pid = some p → 0 < pid
  empty : ∀ i, s.master.pc.fills = some i → ∀ (j : Nat) (pid : Int), i ≤ j →
    s.master.workerPids[j]? = some pid → pid = 0
  inside : ∀ i, s.master.pc.replaced = some i → i < s.master.workerPids.length
  length : s.master.workerPids.length = n
  lengthOld : s.master.oldPids.length ≤ n

theorem placesInv_init (cfg : Config) (online : Int32) :
    PlacesInv (workerCount cfg online) (systemInit cfg online) where
  known := nofun
  positive := nofun
  empty := by
    intro i _ j pid _ hget
    exact List.eq_of_mem_replicate (List.mem_of_getElem? hget)
  inside := nofun
  length := List.length_replicate
  lengthOld := Nat.zero_le _

/-! ## The master's steps -/

section Master

variable {n : Nat} {s t : System} {pc : MasterPc} {m : Master} (h : PlacesInv n s)
  (hpc : s.master.pc = pc)

include h hpc

/-- The master goes from one place to another. No process is new, and what stood in a slot
    that is awaited no more, or is to be forked into, is gone. -/
theorem PlacesInv.goto (hprocs : ∀ pid p, t.procs pid = some p → s.procs pid = some p)
    (hinc : t.increments = s.increments) (hworkers : m.workerPids = s.master.workerPids)
    (holds : m.oldPids = s.master.oldPids) (hbehind : m.pc.behind = pc.behind)
    (hslot : ∀ (j : Nat) (pid : Int), m.workerPids[j]? = some pid → m.pc.replaced = some j →
      pc.replaced = some j ∨ t.procs pid = none)
    (hawaits : ∀ (j : Nat) (pid : Int), m.oldPids[j]? = some pid → pc.awaits j = true →
      m.pc.awaits j = true ∨ t.procs pid = none)
    (hfills : m.pc.fills = none)
    (hinside : ∀ i, m.pc.replaced = some i → i < m.workerPids.length) :
    PlacesInv n (t.withMaster m) := by
  refine ⟨fun pid p hp => ?_, fun pid p hp => h.positive pid p (hprocs pid p hp), fun i hi => ?_,
    hinside, ?_, ?_⟩
  · have hknown := h.known pid p (hprocs pid p hp)
    have hthere : t.procs pid ≠ none := Option.ne_none_iff_exists'.mpr ⟨p, hp⟩
    show Known m t.increments pid p.bornAt
    rw [hinc]
    cases hknown with
    | worker j hget hold hborn =>
      rw [hpc] at hold hborn
      rw [← hworkers] at hget
      refine .worker j hget (fun hnow => ?_) (hbehind ▸ hborn)
      exact (hslot j pid hget hnow).elim hold hthere
    | old j hget hold hborn =>
      rw [hpc] at hold
      rw [← holds] at hget
      exact .old j hget ((hawaits j pid hget hold).resolve_right hthere) hborn
  · rw [show (t.withMaster m).master.pc.fills = m.pc.fills from rfl, hfills] at hi
    cases hi
  · exact (congrArg List.length hworkers).trans h.length
  · exact (congrArg List.length holds).trans_le h.lengthOld

theorem PlacesInv.fork {cfg : Config} {r : Int} {i : Nat} (hfork : ForkStep s cfg r t)
    (hi : i < s.master.workerPids.length)
    (hfree : ∀ pid, s.master.workerPids[i]? = some pid → 0 < pid → pc.replaced = some i)
    (hworkers : m.workerPids = s.master.workerPids.set i r) (holds : m.oldPids = s.master.oldPids)
    (hbehind : pc.behind = 0) (hbehind' : m.pc.behind = 0) (hslot : m.pc.replaced = none)
    (hawaits : ∀ j, m.pc.awaits j = pc.awaits j)
    (hempty : ∀ k, m.pc.fills = some k → k = i + 1 ∧ pc.fills = some i) :
    PlacesInv n (t.withMaster m) := by
  -- a process that was there keeps its place
  have hkept (pid : Int) (p : WorkerProc) (hp : s.procs pid = some p) :
      Known m s.increments pid p.bornAt := by
    have hknown := h.known pid p hp
    cases hknown with
    | worker j hget hold hborn =>
      rw [hpc] at hold hborn
      have hj : i ≠ j := by
        rintro rfl
        exact hold (hfree pid hget (h.positive pid p hp))
      refine .worker j ?_ (by rw [hslot]; exact nofun) ?_
      · rw [hworkers, List.getElem?_set_ne hj]
        exact hget
      · rw [hbehind']
        rwa [hbehind] at hborn
    | old j hget hold hborn =>
      rw [hpc] at hold
      exact .old j (holds ▸ hget) ((hawaits j).trans hold) hborn
  have hnew : Known m s.increments r s.increments := by
    refine .worker i ?_ (by rw [hslot]; exact nofun) (by rw [hbehind', Nat.add_zero])
    rw [hworkers, List.getElem?_set_self hi]
  have hmaster : ∀ k, m.pc.fills = some k → ∀ (j : Nat) (pid : Int), k ≤ j →
      m.workerPids[j]? = some pid → pid = 0 := by
    intro k hk j pid hj hget
    obtain ⟨rfl, hfills⟩ := hempty k hk
    rw [hworkers, List.getElem?_set_ne (by omega)] at hget
    exact h.empty i (hpc ▸ hfills) j pid (by omega) hget
  have hlength : m.workerPids.length = n := by
    rw [hworkers, List.length_set]
    exact h.length
  have hlengthOld : m.oldPids.length ≤ n := (congrArg List.length holds).trans_le h.lengthOld
  have hinside : ∀ k, m.pc.replaced = some k → k < m.workerPids.length := by
    intro k hk
    rw [hslot] at hk
    cases hk
  cases hfork with
  | failed => exact ⟨hkept, h.positive, hmaster, hinside, hlength, hlengthOld⟩
  | child hr hnone =>
    refine ⟨fun pid p hp => ?_, fun pid p hp => ?_, hmaster, hinside, hlength, hlengthOld⟩
    · obtain ⟨rfl, he⟩ | ⟨_, hold⟩ := update_some hp
      · cases he
        exact hnew
      · exact hkept pid p hold
    · obtain ⟨rfl, _⟩ | ⟨_, hold⟩ := update_some hp
      · exact hr
      · exact h.positive pid p hold

end Master

/-- `waitpid` of a child that is not the one returned leaves all processes, or is of a slot
    that a failed fork has left. -/
theorem waitStep_procs {s t : System} {pid r : Int} (hwait : WaitStep s pid r t) :
    (∀ q p, t.procs q = some p → s.procs q = some p) ∧ t.increments = s.increments ∧
      (0 < pid → r = pid → t.procs pid = none) := by
  cases hwait with
  | running hr => exact ⟨fun _ _ h => h, rfl, fun hpos he => by omega⟩
  | reaped =>
    refine ⟨fun q p hq => procs_removed hq, rfl, fun _ he => ?_⟩
    subst he
    exact Function.update_self _ _ _

theorem collectStep_procs {s t : System} {pid r : Int} (hwait : CollectStep s pid r t) :
    (∀ q p, t.procs q = some p → s.procs q = some p) ∧ t.increments = s.increments := by
  cases hwait with
  | failed => exact ⟨fun _ _ h => h, rfl⟩
  | reaped => exact ⟨fun _ _ hq => procs_removed hq, rfl⟩

section Branches

variable {n : Nat} {s : System} (h : PlacesInv n s)

include h

theorem PlacesInv.fill {t : System} {cfg : Config} {pc : MasterPc} {m : Master} {r : Int} {i : Nat}
    (hpc : s.master.pc = pc) (hfills : pc.fills = some i) (hi : i < s.master.workerPids.length)
    (hfork : ForkStep s cfg r t) (hworkers : m.workerPids = s.master.workerPids.set i r)
    (holds : m.oldPids = s.master.oldPids) (hbehind : pc.behind = 0) (hbehind' : m.pc.behind = 0)
    (hslot : m.pc.replaced = none) (hawaits : ∀ j, m.pc.awaits j = pc.awaits j)
    (hfills' : m.pc.fills = some (i + 1)) : PlacesInv n (t.withMaster m) := by
  refine h.fork hpc hfork hi (fun pid hget hpos => ?_) hworkers holds hbehind hbehind' hslot hawaits
    (fun j hj => ?_)
  · have hzero := h.empty i (hpc ▸ hfills) i pid le_rfl hget
    omega
  · exact ⟨Option.some.inj (hj.symm.trans hfills'), hfills⟩

theorem PlacesInv.increment (hpc : s.master.pc = .incrementing) (sh : Shared) :
    PlacesInv n ({ s with shared := sh, increments := s.increments + 1 }.withMaster
      { s.master with pc := .setting }) := by
  refine ⟨fun pid p hp => ?_, h.positive, nofun, nofun, h.length, h.lengthOld⟩
  cases h.known pid p hp with
  | worker j hget _ hborn =>
    rw [hpc] at hborn
    exact .worker j hget nofun (congrArg (· + 1) hborn)
  | old j _ hawaits =>
    rw [hpc] at hawaits
    cases hawaits

theorem PlacesInv.handOver (hpc : s.master.pc = .setting) (sh : Shared) :
    PlacesInv n ({ s with shared := sh }.withMaster { s.master with
      pc := .respawning 0
      oldPids := s.master.workerPids
      workerPids := List.replicate s.master.workerPids.length 0
      drainDeadline := 30
      leaked := 0 }) := by
  refine ⟨fun pid p hp => ?_, h.positive, ?_, nofun, ?_, h.length.le⟩
  · cases h.known pid p hp with
    | worker j hget _ hborn =>
      rw [hpc] at hborn
      exact .old j hget rfl hborn
    | old j _ hawaits =>
      rw [hpc] at hawaits
      cases hawaits
  · intro i _ j pid _ hget
    exact List.eq_of_mem_replicate (List.mem_of_getElem? hget)
  · exact List.length_replicate.trans h.length

theorem PlacesInv.kill {i : Nat} {pid : Int} (hpc : s.master.pc = .killing i)
    (hget : s.master.oldPids[i]? = some pid) :
    PlacesInv n ((s.kill pid).withMaster { s.master with pc := .collecting i }) := by
  refine h.goto hpc (fun q p hq => procs_removed hq) rfl rfl rfl rfl nofun (fun j q hj hawaits => ?_)
    rfl nofun
  obtain rfl | hlt := Nat.eq_or_lt_of_le (of_decide_eq_true hawaits)
  · cases hget.symm.trans hj
    exact .inr (Function.update_self _ _ _)
  · exact .inl (decide_eq_true hlt)

theorem PlacesInv.spare {i : Nat} {pid : Int} (hpc : s.master.pc = .killing i)
    (hget : s.master.oldPids[i]? = some pid) (hpid : pid ≤ 0) :
    PlacesInv n (s.withMaster { s.master with pc := .killing (i + 1) }) := by
  refine h.goto hpc (fun _ _ hp => hp) rfl rfl rfl rfl nofun (fun j q hj hawaits => ?_) rfl nofun
  obtain rfl | hlt := Nat.eq_or_lt_of_le (of_decide_eq_true hawaits)
  · cases hget.symm.trans hj
    refine .inr (Option.eq_none_iff_forall_ne_some.mpr fun p hp => ?_)
    have := h.positive pid p hp
    omega
  · exact .inl (decide_eq_true hlt)

theorem PlacesInv.giveUp {i : Nat} (hpc : s.master.pc = .killing i)
    (hget : s.master.oldPids[i]? = none) :
    PlacesInv n (s.withMaster { s.master with pc := .finishing, oldPids := [] }) := by
  refine ⟨fun pid p hp => ?_, h.positive, nofun, nofun, h.length, Nat.zero_le _⟩
  cases h.known pid p hp with
  | worker j hj _ hborn =>
    rw [hpc] at hborn
    exact .worker j hj nofun hborn
  | old j hj hawaits =>
    rw [hpc] at hawaits
    have hle := of_decide_eq_true hawaits
    have hlt := (List.getElem?_eq_some_iff.mp hj).1
    have hend := List.getElem?_eq_none_iff.mp hget
    omega

theorem PlacesInv.reap {t : System} {i : Nat} {pid r : Int} (hpc : s.master.pc = .reaping i)
    (hget : s.master.workerPids[i]? = some pid) (hwait : WaitStep s pid r t) (hr : r = pid) :
    PlacesInv n (t.withMaster { s.master with pc := .replacing i }) := by
  obtain ⟨hprocs, hinc, hgone⟩ := waitStep_procs hwait
  refine h.goto hpc hprocs hinc rfl rfl rfl (fun j q hj hslot => .inr ?_) nofun rfl fun j hj => ?_
  · -- the child of the slot was reaped, or the slot holds none
    cases hslot
    cases hget.symm.trans hj
    refine Option.eq_none_iff_forall_ne_some.mpr fun p hp => ?_
    have hpos := h.positive pid p (hprocs pid p hp)
    rw [hgone hpos hr] at hp
    cases hp
  · cases hj
    exact (List.getElem?_eq_some_iff.mp hget).1

end Branches

theorem PlacesInv.drained {n : Nat} {s t : System} {k : MasterCalls} {i alive : Nat} {pid : Int}
    (h : PlacesInv n s) (hpc : s.master.pc = .draining i alive)
    (hget : s.master.oldPids[i]? = some pid) (hpos : 0 < pid) (hwait : WaitStep s pid k.waited t)
    (hr : k.waited = pid) : PlacesInv n (t.withMaster { s.master with
      pc := .draining (i + 1) alive, oldPids := s.master.oldPids.set i 0 }) := by
  obtain ⟨hprocs, hinc, hgone⟩ := waitStep_procs hwait
  refine ⟨fun q p hq => ?_, fun q p hq => h.positive q p (hprocs q p hq), nofun, nofun, h.length, ?_⟩
  · have hknown := h.known q p (hprocs q p hq)
    show Known _ t.increments q p.bornAt
    rw [hinc]
    cases hknown with
    | worker j hj hold hborn =>
      rw [hpc] at hborn
      exact .worker j hj nofun hborn
    | old j hj _ hborn =>
      have hne : i ≠ j := by
        rintro rfl
        rw [hget] at hj
        cases hj
        have hnone := hgone hpos hr
        rw [show t.procs pid = some p from hq] at hnone
        cases hnone
      exact .old j ((List.getElem?_set_ne hne).trans hj) rfl hborn
  · show (s.master.oldPids.set i 0).length ≤ n
    rw [List.length_set]
    exact h.lengthOld

/-- What a step of the master keeps. -/
theorem PlacesInv.master {n : Nat} {s s' : System} {k : MasterCalls} (h : PlacesInv n s)
    (hstep : MasterStep s k s') : PlacesInv n s' := by
  have hsame : ∀ pid p, s.procs pid = some p → s.procs pid = some p := fun _ _ hp => hp
  cases hstep with
  | spawns i t hpc hi hfork =>
    exact h.fill hpc rfl hi hfork rfl rfl rfl rfl rfl (fun _ => rfl) rfl
  | spawned i hpc => exact h.goto hpc hsame rfl rfl rfl rfl nofun nofun rfl nofun
  | asked hpc => exact h.goto hpc hsame rfl rfl rfl rfl nofun nofun rfl nofun
  | unasked hpc => exact h.goto hpc hsame rfl rfl rfl rfl nofun nofun rfl nofun
  | clears hpc => exact h.goto hpc hsame rfl rfl rfl rfl nofun nofun rfl nofun
  | loadFails hpc => exact h.goto hpc hsame rfl rfl rfl rfl nofun nofun rfl nofun
  | loads cfg hpc => exact h.goto hpc hsame rfl rfl rfl rfl nofun nofun rfl nofun
  | reloads hpc => exact h.goto hpc (fun _ _ hp => hp) rfl rfl rfl rfl nofun nofun rfl nofun
  | increments hpc => exact h.increment hpc _
  | sets hpc => exact h.handOver hpc _
  | respawns i t hpc hi hfork =>
    exact h.fill hpc rfl hi hfork rfl rfl rfl rfl rfl (fun _ => rfl) rfl
  | respawned i hpc => exact h.goto hpc hsame rfl rfl rfl rfl nofun (fun _ _ _ _ => .inl rfl) rfl nofun
  | skips i alive pid hpc =>
    exact h.goto hpc hsame rfl rfl rfl rfl nofun (fun _ _ _ _ => .inl rfl) rfl nofun
  | drained i alive pid t hpc hget hpos hwait hr => exact h.drained hpc hget hpos hwait hr
  | drains i alive pid t hpc hget hpos hwait hr =>
    obtain ⟨hprocs, hinc, _⟩ := waitStep_procs hwait
    exact h.goto hpc hprocs hinc rfl rfl rfl nofun (fun _ _ _ _ => .inl rfl) rfl nofun
  | drainEnds i alive hpc =>
    refine h.goto hpc hsame rfl rfl rfl rfl nofun (fun j _ _ _ => .inl ?_) rfl nofun
    exact decide_eq_true (Nat.zero_le j)
  | drainAgain i alive hpc =>
    exact h.goto hpc hsame rfl rfl rfl rfl nofun (fun _ _ _ _ => .inl rfl) rfl nofun
  | kills i pid hpc hget => exact h.kill hpc hget
  | spares i pid hpc hget hpid => exact h.spare hpc hget hpid
  | killed i hpc hget => exact h.giveUp hpc hget
  | collects i t hpc hwait =>
    obtain ⟨hprocs, hinc⟩ := collectStep_procs hwait
    exact h.goto hpc hprocs hinc rfl rfl rfl nofun (fun _ _ _ hawaits => .inl hawaits) rfl nofun
  | finishes hpc => exact h.goto hpc (fun _ _ hp => hp) rfl rfl rfl rfl nofun nofun rfl nofun
  | reaps i pid t hpc hget hwait hr => exact h.reap hpc hget hwait hr
  | passes i pid t hpc hget hwait hr =>
    obtain ⟨hprocs, hinc, _⟩ := waitStep_procs hwait
    exact h.goto hpc hprocs hinc rfl rfl rfl nofun nofun rfl nofun
  | scanned i hpc => exact h.goto hpc hsame rfl rfl rfl rfl nofun nofun rfl nofun
  | replaces i t hpc hfork =>
    exact h.fork hpc hfork (h.inside i (by rw [hpc]; rfl)) (fun _ _ _ => rfl) rfl rfl rfl rfl rfl
      (fun _ => rfl) nofun

/-! ## Any run -/

theorem PlacesInv.worker {n : Nat} {s s' : System} (h : PlacesInv n s) {pid : Int} {a : WorkerAct}
    (hstep : s.step (.worker pid a) = some s') : PlacesInv n s' := by
  obtain ⟨p, pc', _, hp, _, rfl⟩ := worker_step hstep
  refine ⟨fun q p' hq => ?_, fun q p' hq => ?_, h.empty, h.inside, h.length, h.lengthOld⟩
  · obtain ⟨rfl, he⟩ | ⟨_, hold⟩ := update_some hq
    · cases he
      exact h.known q p hp
    · exact h.known q p' hold
  · obtain ⟨rfl, _⟩ | ⟨_, hold⟩ := update_some hq
    · exact h.positive q p hp
    · exact h.positive q p' hold

theorem placesInv_step {n : Nat} {s s' : System} {a : SystemStep} (h : PlacesInv n s)
    (hstep : s.step a = some s') : PlacesInv n s' := by
  cases a with
  | sighup =>
    cases hstep
    refine ⟨fun pid p hp => ?_, h.positive, h.empty, h.inside, h.length, h.lengthOld⟩
    cases h.known pid p hp with
    | worker j hget hslot hborn => exact .worker j hget hslot hborn
    | old j hget hawaits hborn => exact .old j hget hawaits hborn
  | master k => exact h.master (master_step hstep)
  | worker pid a => exact h.worker hstep

theorem placesInv_run {cfg : Config} {online : Int32} {steps : List SystemStep} {s : System}
    (hrun : (systemInit cfg online).run steps = some s) : PlacesInv (workerCount cfg online) s :=
  Runs.run_keeps placesInv_step steps (placesInv_init cfg online) hrun

/-- Outside a reload a process stands in the table of the workers, forked since the latest
    increment. -/
theorem PlacesInv.settled {n : Nat} {s : System} (h : PlacesInv n s)
    (hquiet : s.master.pc.reloads = false) {pid : Int} {p : WorkerProc} (hp : s.procs pid = some p) :
    pid ∈ s.master.workerPids ∧ p.bornAt = s.increments := by
  cases h.known pid p hp with
  | worker j hget _ hborn =>
    refine ⟨List.mem_of_getElem? hget, ?_⟩
    unfold MasterPc.behind at hborn
    split at hborn
    · rename_i hpc
      rw [hpc] at hquiet
      cases hquiet
    · exact hborn
  | old j _ hawaits =>
    unfold MasterPc.awaits at hawaits
    unfold MasterPc.reloads at hquiet
    split at hawaits <;> simp_all

theorem PlacesInv.either {n : Nat} {s : System} (h : PlacesInv n s) {pid : Int} {p : WorkerProc}
    (hp : s.procs pid = some p) : (pid ∈ s.master.workerPids ∨ pid ∈ s.master.oldPids) ∧
      p.bornAt ≤ s.increments ∧ s.increments ≤ p.bornAt + 1 := by
  cases h.known pid p hp with
  | worker j hget _ hborn =>
    have hle : s.master.pc.behind ≤ 1 := by
      unfold MasterPc.behind
      split
      · exact le_rfl
      · exact Nat.zero_le 1
    exact ⟨.inl (List.mem_of_getElem? hget), by omega, by omega⟩
  | old j hget _ hborn => exact ⟨.inr (List.mem_of_getElem? hget), by omega, by omega⟩

/-- What the master's tables account for. -/
structure Accounted (s : System) (n : Nat) : Prop where
  tables : ∀ pid p, s.procs pid = some p →
    (pid ∈ s.master.workerPids ∨ (s.master.pc.reloads = true ∧ pid ∈ s.master.oldPids)) ∧
      p.bornAt ≤ s.increments ∧ s.increments ≤ p.bornAt + 1
  few : ∀ pids : Finset Int, (∀ pid ∈ pids, (s.procs pid).isSome = true) →
    pids.card ≤ if s.master.pc.reloads = true then 2 * n else n

theorem card_le_length {pids : Finset Int} {l : List Int} (h : ∀ pid ∈ pids, pid ∈ l) :
    pids.card ≤ l.length :=
  calc pids.card ≤ l.toFinset.card :=
        Finset.card_le_card fun pid hpid => List.mem_toFinset.mpr (h pid hpid)
    _ ≤ l.length := List.toFinset_card_le l

/-- **No worker is lost.** For every run of the master, its workers and the signals sent to
    it, in any order, with any forks that fail, any workers that die, any reloads and any waits
    that a signal interrupts: each process that was forked and neither reaped nor killed stands
    in the table of the workers, or during a reload in that of the old ones, and was forked
    since the latest increment of the generation or just before it. There are at most as many
    as slots, and in a reload twice as many. -/
theorem workers_accounted (cfg : Config) (online : Int32) {steps : List SystemStep} {s : System}
    (hrun : (systemInit cfg online).run steps = some s) : Accounted s (workerCount cfg online) := by
  have hinv := placesInv_run hrun
  refine ⟨fun pid p hp => ?_, fun pids hpids => ?_⟩
  · obtain ⟨hmem, hborn⟩ := hinv.either hp
    cases hreloads : s.master.pc.reloads with
    | false => exact ⟨.inl (hinv.settled hreloads hp).1, hborn⟩
    | true => exact ⟨hmem.imp_right fun hold => ⟨rfl, hold⟩, hborn⟩
  · have hthere (pid : Int) (hpid : pid ∈ pids) : ∃ p, s.procs pid = some p :=
      Option.isSome_iff_exists.mp (hpids pid hpid)
    split
    · have hle : pids.card ≤ (s.master.workerPids ++ s.master.oldPids).length := by
        apply card_le_length
        intro pid hpid
        obtain ⟨p, hp⟩ := hthere pid hpid
        exact List.mem_append.mpr (hinv.either hp).1
      have hlength := hinv.length
      have hlengthOld := hinv.lengthOld
      rw [List.length_append] at hle
      omega
    · rename_i hreloads
      rw [← hinv.length]
      apply card_le_length
      intro pid hpid
      obtain ⟨p, hp⟩ := hthere pid hpid
      exact (hinv.settled (Bool.eq_false_iff.mpr hreloads) hp).1

/-- The first fork has failed, the worker in the other slot was reaped there, and a new one is
    forked. -/
def refilledSteps : List SystemStep := staleSteps ++ [.master ⟨none, 0, -1⟩, .master noCalls,
  .master noCalls, .master ⟨none, 0, -1⟩, .master ⟨none, 101, 0⟩]

theorem workers_accounted_refilled : ∃ s, (systemInit sampleConfig 2).run refilledSteps = some s ∧
    (s.procs 101).isSome = true ∧ Accounted s (workerCount sampleConfig 2) := by
  have hrun : ((systemInit sampleConfig 2).run refilledSteps).map (fun s => (s.procs 101).isSome) =
      some true := by decide +kernel
  obtain ⟨s, hs, hproc⟩ := Option.map_eq_some_iff.mp hrun
  exact ⟨s, hs, hproc, workers_accounted sampleConfig 2 hs⟩

/-- **Outside a reload the workers are all new, and none is drained.** For every run and every
    state in which the master is not between an increment of the generation and the end of the
    last old worker: every process was forked since the latest increment, and no step that a
    worker can take refuses a connection, goes into drain mode or leaves its loop for a
    drain. -/
theorem quiet_outside_reload (cfg : Config) (online : Int32) {steps : List SystemStep} {s : System}
    (hrun : (systemInit cfg online).run steps = some s) (hquiet : s.master.pc.reloads = false) :
    (∀ pid p, s.procs pid = some p → p.bornAt = s.increments) ∧
    ∀ (pid : Int) (a : WorkerAct) (s' : System) (notices : List Notice),
      s.workerStep pid a = some (s', notices) → notices = [] := by
  have hplaces := placesInv_run hrun
  have hgenerations := generationInv_run hrun
  refine ⟨fun pid p hp => (hplaces.settled hquiet hp).2, fun pid a s' notices hstep => ?_⟩
  by_contra hne
  obtain ⟨p, pc', hp, hmove, _⟩ := workerStep_some hstep
  obtain ⟨l, hl, hgreater⟩ := workerMove_notices hmove hne
  obtain ⟨m, hborn, hm, hg⟩ := (hgenerations.procs pid p hp).recorded l hl
  have hsettled := (hplaces.settled hquiet hp).2
  -- what it has recorded is the generation there is
  have hsame : l.myGeneration = s.shared.drainGeneration := by
    rw [hg, hgenerations.counted]
    congr 1
    omega
  rw [hsame, gt_iff_lt, Int32.lt_iff_toInt_lt] at hgreater
  exact lt_irrefl _ hgreater

/-- A reload in which the old worker is told to drain and leaves. -/
def reloadedSteps : List SystemStep := reloadSteps ++
  [.worker 100 .decide, .master ⟨none, 101, 0⟩, .worker 101 (.enter idleWorker 5), .master noCalls,
    .master ⟨none, 0, 100⟩, .master noCalls, .master noCalls, .master noCalls, .worker 101 .check]

theorem quiet_outside_reload_reloaded : ∃ s,
    (systemInit sampleConfig 1).run reloadedSteps = some s ∧ (s.procs 101).isSome = true ∧
    (∀ pid p, s.procs pid = some p → p.bornAt = s.increments) ∧
    ∀ (pid : Int) (a : WorkerAct) (s' : System) (notices : List Notice),
      s.workerStep pid a = some (s', notices) → notices = [] := by
  have hrun : ((systemInit sampleConfig 1).run reloadedSteps).map (fun s =>
      (s.master.pc.reloads, (s.procs 101).isSome)) = some (false, true) := by decide +kernel
  obtain ⟨s, hs, hstate⟩ := Option.map_eq_some_iff.mp hrun
  obtain ⟨hquiet, hproc⟩ := Prod.mk.inj hstate
  exact ⟨s, hs, hproc, quiet_outside_reload sampleConfig 1 hs hquiet⟩

end NexusGateway
