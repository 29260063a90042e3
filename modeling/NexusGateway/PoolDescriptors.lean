import NexusGateway.ActiveCount
import NexusGateway.Lib.Descriptors
import Mathlib.Data.List.Nodup

/- Which descriptors the pool records.

   The event loop and the process's descriptor table as one system: an event's handler
   opens and closes descriptors in the table, and the kernel hands out positive numbers
   that nobody holds. In every reachable state the numbers recorded in the pool are
   distinct and open, and each slot's fields agree with its state (`pool_descriptors`);
   so `proxy_get` finds the one slot a number belongs to. Handlers that close the
   upstream's descriptor twice are no exception here: nothing is opened between. -/
namespace NexusGateway
open CString Descriptors

/-- The descriptors that the pool records. -/
def Pool.recorded (pool : Pool) : List Int := pool.slots.flatMap ProxyConn.descriptors

/-- What the fields of a slot say together. -/
structure SlotOk (c : ProxyConn) : Prop where
  fd_nonneg : 0 ≤ c.fd
  free : c.fd = 0 → c.upstreamFd ≤ 0
  upstream : 0 < c.fd →
    (0 < c.upstreamFd ↔ c.state = .connectingUpstream ∨ c.state = .readingUpstream)

theorem mem_descriptors {c : ProxyConn} {d : Int} :
    d ∈ c.descriptors ↔ 0 < d ∧ (c.fd = d ∨ c.upstreamFd = d) := by
  rw [ProxyConn.descriptors, List.mem_filter, List.mem_cons, List.mem_singleton, decide_eq_true_eq]
  constructor
  · rintro ⟨rfl | rfl, hpos⟩
    · exact ⟨hpos, .inl rfl⟩
    · exact ⟨hpos, .inr rfl⟩
  · rintro ⟨hpos, rfl | rfl⟩
    · exact ⟨.inl rfl, hpos⟩
    · exact ⟨.inr rfl, hpos⟩

theorem count_descriptors (c : ProxyConn) (d : Int) :
    c.descriptors.count d =
      (if 0 < c.fd ∧ c.fd = d then 1 else 0) +
        if 0 < c.upstreamFd ∧ c.upstreamFd = d then 1 else 0 := by
  rw [ProxyConn.descriptors]
  by_cases hfd : 0 < c.fd <;> by_cases hufd : 0 < c.upstreamFd <;>
    simp [hfd, hufd, List.count_cons, Nat.add_comm]

/-! ## One slot -/

/-- How descriptors move between a slot and the table. -/
inductive Moves (c c' : ProxyConn) : List Op → Prop
  | same (hsame : c'.descriptors = c.descriptors) : Moves c c' []
  | gains {fd : Int} (hgain : ∀ d, c'.descriptors.count d =
      c.descriptors.count d + if d = fd then 1 else 0) : Moves c c' [.opened fd]
  | loses {ops : List Op} (hnone : c'.descriptors = [])
      (hops : ∀ op ∈ ops, ∃ d ∈ c.descriptors, op = .closed d) : Moves c c' ops

/-- What is opened has a positive number. -/
def PositiveOps (ops : List Op) : Prop := ∀ fd, .opened fd ∈ ops → 0 < fd

theorem slotOk_free {c : ProxyConn} (hfd : c.fd = 0) (hufd : c.upstreamFd = -1) :
    SlotOk c ∧ c.descriptors = [] := by
  refine ⟨⟨by omega, fun _ => by omega, fun h => absurd hfd (Int.ne_of_gt h)⟩, ?_⟩
  rw [ProxyConn.descriptors, hfd, hufd]
  rfl

theorem closesOf_mem {fds ds : List Int} (h : ∀ d ∈ fds, d ∈ ds) :
    ∀ op ∈ closesOf fds, ∃ d ∈ ds, op = .closed d := by
  intro op hop
  obtain ⟨d, hd, rfl⟩ := List.mem_map.mp hop
  exact ⟨d, h d hd, rfl⟩

/-- A handler only gains one descriptor, or closes those of its slot. -/
theorem slotStep_moves {c c' : ProxyConn} {active active' : Int} {ev : UInt32} {k : EventCalls}
    {ops : List Op} (hc : SlotOk c) (hfd : 0 < c.fd) (hpos : PositiveOps ops)
    (h : SlotStep c active ev k c' active' ops) : Moves c c' ops ∧ SlotOk c' := by
  -- a handler of the upstream's socket finds the upstream's descriptor open
  have hopen {hd : Handler} (hh : handlerFor c ev = some hd) (hne : hd ≠ .clientRead) :
      0 < c.upstreamFd := by
    refine (hc.upstream hfd).mpr ?_
    rw [handlerFor_state hh]
    cases hd with
    | clientRead => exact absurd rfl hne
    | upstreamWritable => exact .inl rfl
    | upstreamReadable => exact .inr rfl
  cases h with
  | kept => exact ⟨.same rfl, hc⟩
  | connected hhandler _ hfd' hufd' hstate' =>
    have hnew := hpos _ (List.mem_singleton.mpr rfl)
    have hnone : ¬ 0 < c.upstreamFd := by
      rw [hc.upstream hfd, handlerFor_state hhandler]
      simp [Handler.state]
    refine ⟨.gains fun d => ?_, ⟨by omega, fun h => by omega, fun _ => ?_⟩⟩
    · rw [count_descriptors, count_descriptors, hfd', hufd']
      simp [hfd, hnone, hnew, eq_comm]
    · rw [hufd', hstate']
      exact ⟨fun _ => .inl rfl, fun _ => hnew⟩
  | sent hhandler hfd' hufd' hstate' =>
    have hufd := hopen hhandler (by decide)
    refine ⟨.same ?_, ⟨by omega, fun h => by omega, fun _ => ?_⟩⟩
    · rw [ProxyConn.descriptors, ProxyConn.descriptors, hfd', hufd']
    · rw [hufd', hstate']
      exact ⟨fun _ => .inr rfl, fun _ => hufd⟩
  | released hhandler hfd' hufd' =>
    obtain ⟨hok, hnone⟩ := slotOk_free hfd' hufd'
    exact ⟨.loses hnone (closesOf_mem fun _ h => h), hok⟩
  | releasedTwice htwice _ hfd' hufd' =>
    obtain ⟨hok, hnone⟩ := slotOk_free hfd' hufd'
    have hufd : 0 < c.upstreamFd := by
      obtain ⟨hhandler, _⟩ | ⟨hhandler, _⟩ := htwice
      · exact hopen hhandler (by decide)
      · exact hopen hhandler (by decide)
    have hmem : ∀ d ∈ c.upstreamFd :: c.descriptors, d ∈ c.descriptors := by
      intro d hd
      obtain rfl | hd := List.mem_cons.mp hd
      · exact mem_descriptors.mpr ⟨hufd, .inr rfl⟩
      · exact hd
    exact ⟨.loses hnone (closesOf_mem hmem), hok⟩
  | dropped hfails _ hfd' hufd' =>
    obtain ⟨hok, hnone⟩ := slotOk_free hfd' hufd'
    have hufd := hopen hfails.1 (by decide)
    refine ⟨.loses hnone (closesOf_mem fun d hd => ?_), hok⟩
    obtain rfl | hd := List.mem_cons.mp hd
    · exact mem_descriptors.mpr ⟨hufd, .inr rfl⟩
    · obtain rfl := List.mem_singleton.mp hd
      exact mem_descriptors.mpr ⟨hfd, .inl rfl⟩

/-! ## One event -/

/-- What the fields of every slot say together. -/
def PoolOk (pool : Pool) : Prop := ∀ c ∈ pool.slots, SlotOk c

/-- How an event moves descriptors between the pool and the table: not at all, a new one
    past a full pool, or within one slot. -/
inductive PoolMoves (pool pool' : Pool) : List Op → Prop
  | same (hpool : pool' = pool) : PoolMoves pool pool' []
  | past {fd : Int} (hpool : pool' = pool) : PoolMoves pool pool' [.opened fd]
  | slot {ops : List Op} (i : Nat) (c c' : ProxyConn) (hget : pool.slots[i]? = some c)
      (hset : pool'.slots = pool.slots.set i c') (hmoves : Moves c c' ops) : PoolMoves pool pool' ops

theorem slotFor_client {l : EventLoop} {e : Event} (hpool : PoolOk l.pool) (he : 0 < e.fd)
    (hother : e.fd ≠ l.listenFd) {i : Nat} {c : ProxyConn} (hslot : l.slotFor e = some i)
    (hget : l.pool.slots[i]? = some c) : 0 < c.fd ∧ (c.fd = e.fd ∨ c.upstreamFd = e.fd) := by
  rw [slotFor_conn hother] at hslot
  obtain ⟨c', hget', _, hrecords⟩ := Slots.findIdx?_some hslot
  rw [hget] at hget'
  cases hget'
  have hok := hpool c (List.mem_iff_getElem?.mpr ⟨i, hget⟩)
  rw [ProxyConn.records, Bool.or_eq_true, beq_iff_eq, beq_iff_eq] at hrecords
  refine ⟨?_, hrecords⟩
  have hnonneg := hok.fd_nonneg
  by_contra hfree
  have hzero : c.fd = 0 := by omega
  have := hok.free hzero
  omega

theorem poolOk_set {pool pool' : Pool} {i : Nat} {c' : ProxyConn} (hpool : PoolOk pool)
    (hset : pool'.slots = pool.slots.set i c') (hc : SlotOk c') : PoolOk pool' := by
  intro c hmem
  rw [hset] at hmem
  obtain h | rfl := List.mem_or_eq_of_mem_set hmem
  · exact hpool c h
  · exact hc

/-- What an event moves. -/
theorem loopStep_moves {l l' : EventLoop} {e : Event} {ops : List Op} (hpool : PoolOk l.pool)
    (he : 0 < e.fd) (hpos : PositiveOps ops) (hstep : LoopStep l e l' ops) :
    PoolMoves l.pool l'.pool ops ∧ PoolOk l'.pool ∧ l'.listenFd = l.listenFd := by
  cases hstep with
  | still => exact ⟨.same rfl, hpool, rfl⟩
  | forgot => exact ⟨.past rfl, hpool, rfl⟩
  | admitted i c c' hlisten hslot hget hfree hopen hfd hufd hstate hset hlistenFd hactive =>
    have hnew := hpos _ (List.mem_singleton.mpr rfl)
    have hok := (hpool c (List.mem_iff_getElem?.mpr ⟨i, hget⟩)).free hfree
    have hnone : ¬ 0 < c.upstreamFd := by omega
    have hc' : SlotOk c' := by
      refine ⟨by omega, fun h => by omega, fun _ => ?_⟩
      rw [hufd, hstate]
      simp
    refine ⟨.slot i c c' hget hset (.gains fun d => ?_), poolOk_set hpool hset hc', hlistenFd⟩
    rw [count_descriptors, count_descriptors, hfd, hufd, hfree]
    simp [hnone, hnew, eq_comm]
  | handled i c c' hother hslot hget hset hlistenFd hslotStep =>
    have hok := hpool c (List.mem_iff_getElem?.mpr ⟨i, hget⟩)
    obtain ⟨hclient, _⟩ := slotFor_client hpool he hother hslot hget
    obtain ⟨hmoves, hok'⟩ := slotStep_moves hok hclient hpos hslotStep
    exact ⟨.slot i c c' hget hset hmoves, poolOk_set hpool hset hok', hlistenFd⟩

theorem recorded_set {pool pool' : Pool} {i : Nat} {c c' : ProxyConn} (hget : pool.slots[i]? = some c)
    (hset : pool'.slots = pool.slots.set i c') (d : Int) :
    pool'.recorded.count d + c.descriptors.count d =
      pool.recorded.count d + c'.descriptors.count d := by
  rw [Pool.recorded, hset]
  exact Slots.count_flatMap_set ProxyConn.descriptors hget c' d

/-! ## The event loop and the descriptor table -/

/-- Who holds a descriptor of the process: the event loop, for a connection, or anything
    else in it. -/
inductive Party where
  | loop
  | other
  deriving DecidableEq, Repr

/-- The event loop and the descriptors of its process. -/
structure LoopWorld where
  loop : EventLoop
  table : Table Party

def positiveOp : Op → Bool
  | .opened fd => decide (0 < fd)
  | .closed _ => true

theorem positiveOps_of_all {ops : List Op} (h : ops.all positiveOp = true) : PositiveOps ops := by
  intro fd hfd
  exact of_decide_eq_true (List.all_eq_true.mp h _ hfd)

/-- A step of the loop with nothing between a handler's calls; none, if the event's
    descriptor is not positive, or the kernel would not hand out what the calls return. -/
def LoopWorld.step (s : LoopWorld) : WorkerStep → Option LoopWorld
  | .event e =>
    let r := onEvent s.loop e
    let ops := e.ops r.2
    if 0 < e.fd ∧ ops.all positiveOp then
      (s.table.run .loop ops).map (fun table => { loop := r.1, table := table })
    else none
  | .health node healthy => some { s with loop := s.loop.step (.health node healthy) }

/-- As `nexus_worker_run` enters the loop: the listening descriptor is open. -/
structure LoopWorld.Started (s : LoopWorld) : Prop where
  loop : s.loop.Started
  listening : s.table.holder s.loop.listenFd = some .other

inductive LoopWorld.Reachable (s₀ : LoopWorld) : LoopWorld → Prop
  | start : Reachable s₀ s₀
  | step {s s' : LoopWorld} {a : WorkerStep} (h : Reachable s₀ s) (hstep : s.step a = some s') :
      Reachable s₀ s'

/-- Steps one after the other. -/
def LoopWorld.run (s : LoopWorld) : List WorkerStep → Option LoopWorld
  | [] => some s
  | a :: steps => (s.step a).bind (fun s' => s'.run steps)

theorem reachable_run {s₀ : LoopWorld} {steps : List WorkerStep} :
    ∀ {s s' : LoopWorld}, LoopWorld.Reachable s₀ s → s.run steps = some s' →
      LoopWorld.Reachable s₀ s' := by
  induction steps with
  | nil =>
    intro s s' h hrun
    cases hrun
    exact h
  | cons a steps ih =>
    intro s s' h hrun
    obtain ⟨s₁, hstep, hrest⟩ := Option.bind_eq_some_iff.mp hrun
    exact ih (h.step hstep) hrest

/-- The invariant: what the pool records is open, held by the loop, and recorded once. -/
structure LoopInv (s : LoopWorld) : Prop where
  slots : PoolOk s.loop.pool
  once : ∀ d, s.loop.pool.recorded.count d ≤ 1
  held : ∀ d ∈ s.loop.pool.recorded, s.table.holder d = some .loop
  listening : s.table.holder s.loop.listenFd = some .other

theorem zero_ok : SlotOk .zero ∧ ProxyConn.descriptors .zero = [] :=
  ⟨⟨by decide, fun _ => by decide, fun h => absurd h (by decide)⟩, rfl⟩

theorem recorded_poolInit : poolInit.recorded = [] := by
  rw [Pool.recorded, List.flatMap_eq_nil_iff]
  intro c hc
  rw [List.eq_of_mem_replicate hc]
  exact zero_ok.2

theorem started_inv {s : LoopWorld} (h : s.Started) : LoopInv s := by
  have hnone : s.loop.pool.recorded = [] := by rw [h.loop.pool, recorded_poolInit]
  refine ⟨?_, fun d => ?_, fun d hd => ?_, h.listening⟩
  · intro c hc
    rw [h.loop.pool] at hc
    rw [List.eq_of_mem_replicate hc]
    exact zero_ok.1
  · rw [hnone]
    exact Nat.zero_le 1
  · rw [hnone] at hd
    cases hd

theorem mem_recorded {pool : Pool} {i : Nat} {c : ProxyConn} (hget : pool.slots[i]? = some c)
    {d : Int} (hd : d ∈ c.descriptors) : d ∈ pool.recorded :=
  List.mem_flatMap.mpr ⟨c, List.mem_iff_getElem?.mpr ⟨i, hget⟩, hd⟩

section Moves

variable {pool pool' : Pool} {t t' : Table Party} (honce : ∀ d, pool.recorded.count d ≤ 1)
  (hheld : ∀ d ∈ pool.recorded, t.holder d = some .loop)

include honce hheld

theorem held_gain {fd : Int} (hnone : t.holder fd = none) (hall : ∀ d, pool'.recorded.count d =
      pool.recorded.count d + if d = fd then 1 else 0) :
    (∀ d, pool'.recorded.count d ≤ 1) ∧
      ∀ d ∈ pool'.recorded, (t.set fd (some .loop)).holder d = some .loop := by
  have hnew : pool.recorded.count fd = 0 := by
    rw [List.count_eq_zero]
    intro hmem
    rw [hheld fd hmem] at hnone
    cases hnone
  refine ⟨fun d => ?_, fun d hd => ?_⟩
  · rw [hall]
    split
    · rename_i hd
      rw [hd, hnew]
    · exact honce d
  · by_cases hfd : d = fd
    · rw [hfd, t.set_self]
    · have hpos := List.count_pos_iff.mpr hd
      rw [hall, if_neg hfd, Nat.add_zero, List.count_pos_iff] at hpos
      rw [t.set_other hfd, hheld d hpos]

theorem held_lose {ds : List Int}
    (hall : ∀ d, pool'.recorded.count d + ds.count d = pool.recorded.count d)
    (hkeep : ∀ d, d ∉ ds → t'.holder d = t.holder d) :
    (∀ d, pool'.recorded.count d ≤ 1) ∧ ∀ d ∈ pool'.recorded, t'.holder d = some .loop := by
  refine ⟨fun d => ?_, fun d hd => ?_⟩
  · have := hall d
    have := honce d
    omega
  · -- it was recorded once, so it is none of those closed
    have h1 := hall d
    have h2 := honce d
    have h3 := List.count_pos_iff.mpr hd
    have hother : d ∉ ds := List.count_eq_zero.mp (by omega)
    have hmem : d ∈ pool.recorded := List.count_pos_iff.mp (by omega)
    rw [hkeep d hother, hheld d hmem]

/-- The table after an event, and what was recorded stays held. -/
theorem held_moves {ops : List Op} (hmoves : PoolMoves pool pool' ops)
    (hrun : t.run .loop ops = some t') :
    (∀ d, pool'.recorded.count d ≤ 1) ∧ (∀ d ∈ pool'.recorded, t'.holder d = some .loop) ∧
    ∀ d, t.holder d = some .other → t'.holder d = some .other := by
  cases hmoves with
  | same hpool =>
    cases hrun
    rw [hpool]
    exact ⟨honce, hheld, fun _ h => h⟩
  | past hpool =>
    obtain ⟨hnone, rfl⟩ := run_opened hrun
    rw [hpool]
    exact ⟨honce, fun d hd => t.set_held hnone (hheld d hd) _, fun d hd => t.set_held hnone hd _⟩
  | slot i c c' hget hset hmove =>
    have hcount := recorded_set hget hset
    cases hmove with
    | same hsame =>
      cases hrun
      have hall (d : Int) : pool'.recorded.count d + [].count d = pool.recorded.count d := by
        have := hcount d
        rw [hsame] at this
        simpa using this
      obtain ⟨honce', hheld'⟩ := held_lose honce hheld hall (fun _ _ => rfl)
      exact ⟨honce', hheld', fun _ h => h⟩
    | @gains fd hgain =>
      obtain ⟨hnone, rfl⟩ := run_opened hrun
      have hall (d : Int) : pool'.recorded.count d =
          pool.recorded.count d + if d = fd then 1 else 0 := by
        have := hcount d
        rw [hgain] at this
        omega
      obtain ⟨honce', hheld'⟩ := held_gain honce hheld hnone hall
      exact ⟨honce', hheld', fun d hd => t.set_held hnone hd _⟩
    | loses hnone hops =>
      obtain ⟨t₁, hrun₁, hkeep⟩ := run_closes .loop hops t
      rw [hrun] at hrun₁
      cases hrun₁
      have hall (d : Int) :
          pool'.recorded.count d + c.descriptors.count d = pool.recorded.count d := by
        have := hcount d
        rwa [hnone] at this
      obtain ⟨honce', hheld'⟩ := held_lose honce hheld hall hkeep
      refine ⟨honce', hheld', fun d hd => ?_⟩
      have hother : d ∉ c.descriptors := by
        intro hmem
        have := hheld d (mem_recorded hget hmem)
        rw [hd] at this
        cases this
      rw [hkeep d hother, hd]

end Moves

/-- Every step keeps the invariant. -/
theorem step_inv {s s' : LoopWorld} {a : WorkerStep} (h : LoopInv s) (hstep : s.step a = some s') :
    LoopInv s' := by
  cases a with
  | event e =>
    unfold LoopWorld.step at hstep
    dsimp only at hstep
    split at hstep
    · rename_i hguard
      obtain ⟨t', hrun, rfl⟩ := Option.map_eq_some_iff.mp hstep
      obtain ⟨hmoves, hslots, hlisten⟩ := loopStep_moves h.slots hguard.1
        (positiveOps_of_all hguard.2) (onEvent_step s.loop e)
      obtain ⟨honce, hheld, hothers⟩ := held_moves h.once h.held hmoves hrun
      refine ⟨hslots, honce, hheld, ?_⟩
      show t'.holder (onEvent s.loop e).1.listenFd = _
      rw [hlisten]
      exact hothers _ h.listening
    · cases hstep
  | health node healthy =>
    cases hstep
    exact ⟨h.slots, h.once, h.held, h.listening⟩

theorem reachable_inv {s₀ s : LoopWorld} (h₀ : s₀.Started) (h : LoopWorld.Reachable s₀ s) :
    LoopInv s := by
  induction h with
  | start => exact started_inv h₀
  | step _ hstep ih => exact step_inv ih hstep

/-- What the pool says of the descriptors in use. -/
structure PoolConsistent (s : LoopWorld) : Prop where
  nodup : s.loop.pool.recorded.Nodup
  isOpen : ∀ d ∈ s.loop.pool.recorded, s.table.holder d = some .loop
  owner : ∀ d ∈ s.loop.pool.recorded, ∃ i c, proxyGet s.loop.pool d = some i ∧
    s.loop.pool.slots[i]? = some c ∧ d ∈ c.descriptors ∧
    ∀ j c', s.loop.pool.slots[j]? = some c' → d ∈ c'.descriptors → j = i
  free : ∀ c ∈ s.loop.pool.slots, ¬ 0 < c.fd → ¬ 0 < c.upstreamFd
  upstream : ∀ c ∈ s.loop.pool.slots, 0 < c.fd →
    (0 < c.upstreamFd ↔ c.state = .connectingUpstream ∨ c.state = .readingUpstream)

/-- The slot that `proxy_get` finds for a recorded number records it, and no other does. -/
theorem proxyGet_owner {s : LoopWorld} (h : LoopInv s) {d : Int} (hd : d ∈ s.loop.pool.recorded) :
    ∃ i c, proxyGet s.loop.pool d = some i ∧ s.loop.pool.slots[i]? = some c ∧ d ∈ c.descriptors ∧
      ∀ j c', s.loop.pool.slots[j]? = some c' → d ∈ c'.descriptors → j = i := by
  obtain ⟨c, hc, hdc⟩ := List.mem_flatMap.mp hd
  obtain ⟨hpos, hrecords⟩ := mem_descriptors.mp hdc
  cases hfound : proxyGet s.loop.pool d with
  | none =>
    have hno := List.findIdx?_eq_none_iff.mp hfound c hc
    rw [ProxyConn.records, Bool.or_eq_false_iff, beq_eq_false_iff_ne, beq_eq_false_iff_ne] at hno
    exact absurd hrecords (not_or.mpr hno)
  | some i =>
    obtain ⟨c', hget, _, hr⟩ := Slots.findIdx?_some hfound
    rw [ProxyConn.records, Bool.or_eq_true, beq_iff_eq, beq_iff_eq] at hr
    have hmem := mem_descriptors.mpr ⟨hpos, hr⟩
    exact ⟨i, c', rfl, hget, hmem, fun j c'' hget' hmem' =>
      Slots.slot_unique (h.once d) hget' hget hmem' hmem⟩

/-- **The pool and the descriptors in use agree.** For every worker as it enters its
    loop, every run of events for positive descriptors, with any results of the system
    calls that the kernel can return (descriptors that are positive and not open), and
    every state reached: no descriptor is recorded twice, `proxy_get` finds the one slot
    of each, a slot without a client records no upstream, and a slot with one records an
    upstream exactly in the two states of an upstream's connection. -/
theorem pool_descriptors {s₀ s : LoopWorld} (h₀ : s₀.Started) (h : LoopWorld.Reachable s₀ s) :
    PoolConsistent s := by
  have hinv := reachable_inv h₀ h
  refine ⟨List.nodup_iff_count_le_one.mpr hinv.once, hinv.held, fun d hd => proxyGet_owner hinv hd, ?_,
    fun c hc => (hinv.slots c hc).upstream⟩
  intro c hc hfree
  have hnonneg := (hinv.slots c hc).fd_nonneg
  have := (hinv.slots c hc).free (by omega)
  omega

/-- A worker as it enters its loop, and the descriptors its process has. -/
def sampleWorld : LoopWorld :=
  ⟨sampleLoop, ⟨fun fd => if 0 ≤ fd ∧ fd ≤ 6 then some .other else none⟩⟩

theorem sampleWorld_started : sampleWorld.Started := ⟨sampleLoop_started, by decide⟩

theorem pool_descriptors_sample :
    ∃ s, sampleWorld.run [.event (acceptEvent 7), .event (requestEvent 7 8), .event (acceptEvent 9),
      .event (sentEvent 8)] = some s ∧ PoolConsistent s := by
  have hrun : (sampleWorld.run [.event (acceptEvent 7), .event (requestEvent 7 8),
      .event (acceptEvent 9), .event (sentEvent 8)]).isSome = true := by decide +kernel
  obtain ⟨s, hs⟩ := Option.isSome_iff_exists.mp hrun
  exact ⟨s, hs, pool_descriptors sampleWorld_started (reachable_run .start hs)⟩

end NexusGateway
