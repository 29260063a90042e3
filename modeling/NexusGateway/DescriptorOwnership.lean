import NexusGateway.PoolDescriptors

/- Who owns the descriptors that the worker closes.

   The same handlers as in `PoolDescriptors`, with their calls made one at a time and
   the rest of the process (the health checker's probes, the files served) opening and
   closing its own descriptors between any two of them. A number that the worker has
   closed can be someone else's before its handler closes it again.

   A run is clean when no event makes a handler close a descriptor twice and every
   accepted connection has a slot (`Clean`). In every state of a clean run the worker
   owns what it is about to close, has closed each descriptor it was handed once or
   holds it still, and records what it holds (`descriptors_owned`). -/
namespace NexusGateway
open CString Descriptors

/-- The event loop with the calls its handler has still to make; the process's
    descriptors, those that the rest of it has opened, and the calls made so far. -/
structure ProcessWorld where
  loop : EventLoop
  pending : List Op
  table : Table Party
  others : List Int
  history : List (Call Party)

inductive ProcessStep where
  | event (e : Event)
  | health (node : Nat) (healthy : Bool)
  | call
  | otherOpens (fd : Int)
  | otherCloses (fd : Int)

/-- A call of a party, entered in the table and in the history. -/
def ProcessWorld.calls (s : ProcessWorld) (c : Call Party) : Option ProcessWorld :=
  (s.table.step c).map (fun table => { s with table := table, history := s.history ++ [c] })

/-- A step of the process. An event is handled when the calls of the one before it have
    been made; the rest of the process closes what it has opened. -/
def ProcessWorld.step (s : ProcessWorld) : ProcessStep → Option ProcessWorld
  | .event e =>
    if s.pending = [] ∧ 0 < e.fd then
      let r := onEvent s.loop e
      some { s with loop := r.1, pending := e.ops r.2 }
    else none
  | .health node healthy => some { s with loop := s.loop.step (.health node healthy) }
  | .call =>
    match s.pending with
    | [] => none
    | op :: rest => { s with pending := rest }.calls ⟨.loop, op⟩
  | .otherOpens fd => { s with others := fd :: s.others }.calls ⟨.other, .opened fd⟩
  | .otherCloses fd =>
    if fd ∈ s.others then { s with others := s.others.erase fd }.calls ⟨.other, .closed fd⟩
    else none

def ProcessWorld.run (s : ProcessWorld) : List ProcessStep → Option ProcessWorld
  | [] => some s
  | a :: steps => (s.step a).bind (fun s' => s'.run steps)

/-- As `nexus_worker_run` enters the loop: it holds no descriptor of a connection. -/
structure ProcessWorld.Started (s : ProcessWorld) : Prop where
  loop : s.loop.Started
  pending : s.pending = []
  free : ∀ fd, s.table.holder fd ≠ some .loop
  others : ∀ fd ∈ s.others, s.table.holder fd = some .other
  distinct : s.others.Nodup
  history : s.history = []

/-- The connection that the event acts on. -/
def EventLoop.connFor (l : EventLoop) (e : Event) : Option ProxyConn :=
  (l.slotFor e).bind (fun i => l.pool.slots[i]?)

/-- The event closes no descriptor twice, forgets none, and is handed none numbered 0:
    an accepted connection finds a slot, the upstream's socket has no error when it gets
    writable, and no read of it returns bytes or its end. -/
def Clean (l : EventLoop) (e : Event) : Prop :=
  (e.calls.accept.accepted ≠ 0 ∧ e.calls.clientRead.upstreamFd ≠ 0) ∧
  (e.fd = l.listenFd → l.refuses e.calls.accept = false → 0 ≤ e.calls.accept.accepted →
    l.connFor e ≠ none) ∧
  (e.fd ≠ l.listenFd → ∀ c ∈ l.connFor e, ¬ ClosesTwice c e.ev e.calls)

def CleanStep (l : EventLoop) : ProcessStep → Prop
  | .event e => Clean l e
  | _ => True

/-- Every event of the run is clean in the state it meets. -/
def CleanRun (s : ProcessWorld) : List ProcessStep → Prop
  | [] => True
  | a :: steps => CleanStep s.loop a ∧ ∀ s' ∈ s.step a, CleanRun s' steps

instance (c : ProxyConn) (ev : UInt32) (k : EventCalls) : Decidable (ClosesTwice c ev k) :=
  inferInstanceAs (Decidable (_ ∨ _))

instance (l : EventLoop) (e : Event) : Decidable (Clean l e) := inferInstanceAs (Decidable (_ ∧ _))

instance (l : EventLoop) : DecidablePred (CleanStep l)
  | .event e => inferInstanceAs (Decidable (Clean l e))
  | .health _ _ => isTrue trivial
  | .call => isTrue trivial
  | .otherOpens _ => isTrue trivial
  | .otherCloses _ => isTrue trivial

instance CleanRun.decidable : (steps : List ProcessStep) → DecidablePred (fun s => CleanRun s steps)
  | [], _ => isTrue trivial
  | a :: steps, s =>
    have := CleanRun.decidable steps
    inferInstanceAs (Decidable (CleanStep s.loop a ∧ ∀ s' ∈ s.step a, CleanRun s' steps))

/-! ## One event -/

/-- The calls of one handler are one open or closes only. -/
def OneKind (ops : List Op) : Prop := (∃ fd, ops = [.opened fd]) ∨ ∃ fds, ops = closesOf fds

/-- What the pool records less what is still to be opened and with what is still to be
    closed: the descriptors that the worker holds. -/
def Conserves (pool pool' : Pool) (ops : List Op) : Prop :=
  ∀ d, pool'.recorded.count d + ops.count (.closed d) = pool.recorded.count d + ops.count (.opened d)

/-- A handler that closes nothing twice takes from its slot what it closes and gives
    it what it opens. -/
theorem slotStep_conserves {c c' : ProxyConn} {active active' : Int} {ev : UInt32} {k : EventCalls}
    {ops : List Op} (hc : SlotOk c) (hfd : 0 < c.fd) (hpos : PositiveOps ops)
    (hclean : ¬ ClosesTwice c ev k) (h : SlotStep c active ev k c' active' ops) :
    OneKind ops ∧ ∀ d, c'.descriptors.count d + ops.count (.closed d) =
      c.descriptors.count d + ops.count (.opened d) := by
  obtain ⟨hmoves, _⟩ := slotStep_moves hc hfd hpos h
  cases h with
  | kept => exact ⟨.inr ⟨[], rfl⟩, fun _ => rfl⟩
  | connected hhandler hopen hfd' hufd' hstate' =>
    refine ⟨.inl ⟨_, rfl⟩, fun d => ?_⟩
    cases hmoves with
    | gains hgain => rw [hgain, (opened_count _ d).1, (opened_count _ d).2, Nat.add_zero]
    | loses _ hops =>
      obtain ⟨_, _, hne⟩ := hops _ (List.mem_singleton.mpr rfl)
      cases hne
  | sent hhandler hfd' hufd' hstate' =>
    refine ⟨.inr ⟨[], rfl⟩, fun d => ?_⟩
    rw [ProxyConn.descriptors, ProxyConn.descriptors, hfd', hufd']
    rfl
  | released hhandler hfd' hufd' =>
    refine ⟨.inr ⟨_, rfl⟩, fun d => ?_⟩
    rw [(slotOk_free hfd' hufd').2, (closesOf_count _ d).1, (closesOf_count _ d).2]
    exact Nat.add_comm _ _
  | releasedTwice htwice => exact absurd htwice hclean
  | dropped hfails hopen hfd' hufd' =>
    have hufd : 0 < c.upstreamFd := by
      rw [hc.upstream hfd, handlerFor_state hfails.1]
      exact .inr rfl
    refine ⟨.inr ⟨_, rfl⟩, fun d => ?_⟩
    rw [(slotOk_free hfd' hufd').2, (closesOf_count _ d).1, (closesOf_count _ d).2, count_descriptors]
    simp [hfd, hufd, List.count_cons]

theorem positiveOps_closesOf (fds : List Int) : PositiveOps (closesOf fds) := by
  intro fd hfd
  obtain ⟨_, _, hne⟩ := List.mem_map.mp hfd
  cases hne

theorem positiveOps_opened {fd : Int} (hle : 0 ≤ fd) (hne : fd ≠ 0) : PositiveOps [.opened fd] := by
  intro d hd
  cases List.mem_singleton.mp hd
  omega

theorem slotStep_opens {c c' : ProxyConn} {active active' : Int} {ev : UInt32} {k : EventCalls}
    {ops : List Op} (h : SlotStep c active ev k c' active' ops) (hk : k.clientRead.upstreamFd ≠ 0) :
    PositiveOps ops := by
  cases h with
  | kept => exact positiveOps_closesOf []
  | connected _ hopen => exact positiveOps_opened hopen hk
  | sent => exact positiveOps_closesOf []
  | released => exact positiveOps_closesOf _
  | releasedTwice => exact positiveOps_closesOf (_ :: _)
  | dropped => exact positiveOps_closesOf _

theorem loopStep_opens {l l' : EventLoop} {e : Event} {ops : List Op} (h : LoopStep l e l' ops)
    (hclean : Clean l e) : PositiveOps ops := by
  cases h with
  | still => exact positiveOps_closesOf []
  | forgot _ _ _ hopen => exact positiveOps_opened hopen hclean.1.1
  | admitted _ _ _ _ _ _ _ hopen => exact positiveOps_opened hopen hclean.1.1
  | handled _ _ _ _ _ _ _ _ hslotStep => exact slotStep_opens hslotStep hclean.1.2

/-- What a clean event opens and closes is what the pool gains and loses. -/
theorem loopStep_conserves {l l' : EventLoop} {e : Event} {ops : List Op} (hpool : PoolOk l.pool)
    (he : 0 < e.fd) (hclean : Clean l e) (h : LoopStep l e l' ops) :
    PoolOk l'.pool ∧ OneKind ops ∧ Conserves l.pool l'.pool ops := by
  have hpos := loopStep_opens h hclean
  refine ⟨(loopStep_moves hpool he hpos h).2.1, ?_⟩
  cases h with
  | still => exact ⟨.inr ⟨[], rfl⟩, fun _ => rfl⟩
  | forgot hslot hlisten hlet hopen =>
    refine absurd ?_ (hclean.2.1 hlisten hlet hopen)
    rw [EventLoop.connFor, hslot]
    rfl
  | admitted i c c' hlisten hslot hget hfree hopen hfd hufd hstate hset hlistenFd hactive =>
    refine ⟨.inl ⟨_, rfl⟩, fun d => ?_⟩
    have hcount := recorded_set hget hset d
    have hnew := hpos _ (List.mem_singleton.mpr rfl)
    have hnone : ¬ 0 < c.upstreamFd := by
      have := (hpool c (List.mem_iff_getElem?.mpr ⟨i, hget⟩)).free hfree
      omega
    rw [count_descriptors, count_descriptors, hfd, hufd, hfree] at hcount
    rw [(opened_count _ d).1, (opened_count _ d).2]
    simpa [hnone, hnew, eq_comm] using hcount
  | handled i c c' hother hslot hget hset hlistenFd hslotStep =>
    have hok := hpool c (List.mem_iff_getElem?.mpr ⟨i, hget⟩)
    have hclient := (slotFor_client hpool he hother hslot hget).1
    have hconn : c ∈ l.connFor e := by
      rw [EventLoop.connFor, hslot]
      exact hget
    obtain ⟨hkind, hslots⟩ := slotStep_conserves hok hclient hpos (hclean.2.2 hother c hconn) hslotStep
    refine ⟨hkind, fun d => ?_⟩
    have h1 := recorded_set hget hset d
    have h2 := hslots d
    omega

/-! ## The process -/

/-- The invariant of a clean run: the pool records what the loop holds, less what it has
    still to open and with what it has still to close; what the rest of the process has
    opened is its own; and no call has closed a number that its party did not hold. -/
structure ProcessInv (s₀ s : ProcessWorld) : Prop where
  slots : PoolOk s.loop.pool
  oneKind : OneKind s.pending
  conserved : ∀ d, s.loop.pool.recorded.count d + s.pending.count (.closed d) =
    s.table.holds .loop d + s.pending.count (.opened d)
  others : ∀ fd ∈ s.others, s.table.holder fd = some .other
  distinct : s.others.Nodup
  balanced : Balanced s₀.table s.history s.table

theorem holds_one {t : Table Party} {p : Party} {d : Int} :
    0 < t.holds p d ↔ t.holder d = some p := by
  rw [Table.holds]
  split
  · rename_i h
    exact ⟨fun _ => h, fun _ => Nat.one_pos⟩
  · rename_i h
    exact ⟨fun hlt => absurd hlt (Nat.lt_irrefl 0), fun hp => absurd hp h⟩

/-- The next close is of a number that the loop holds. -/
theorem ProcessInv.next_close {s₀ s : ProcessWorld} (h : ProcessInv s₀ s) {d : Int} {rest : List Op}
    (hnext : s.pending = .closed d :: rest) : s.table.holder d = some .loop := by
  have hcons := h.conserved d
  obtain ⟨fd, hone⟩ | ⟨fds, hcloses⟩ := h.oneKind
  · rw [hone] at hnext
    cases hnext
  · have hopened : s.pending.count (.opened d) = 0 := by
      rw [hcloses]
      exact (closesOf_count fds d).2
    have hclosed : 0 < s.pending.count (.closed d) := by
      rw [hnext]
      exact List.count_pos_iff.mpr List.mem_cons_self
    exact holds_one.mp (by omega)

theorem holds_other {t t' : Table Party} {op : Op} (hstep : t.step ⟨.other, op⟩ = some t')
    (hproper : (⟨.other, op⟩ : Call Party).Proper t) (d : Int) :
    t'.holds .loop d = t.holds .loop d := by
  have := holds_step hstep hproper .loop d
  simpa using this

theorem holder_kept {t t' : Table Party} {c : Call Party} (hstep : t.step c = some t')
    (hproper : c.Proper t) {p : Party} (hp : c.party ≠ p) {d : Int} (hd : t.holder d = some p) :
    t'.holder d = some p := by
  obtain ⟨q, op⟩ := c
  cases op with
  | opened fd =>
    obtain ⟨hnone, rfl⟩ := step_opened hstep
    exact t.set_held hnone hd _
  | closed fd =>
    obtain rfl := step_closed hstep
    have hne : d ≠ fd := by
      rintro rfl
      rw [hproper d rfl] at hd
      exact hp (Option.some.inj hd)
    rw [t.set_other hne, hd]

theorem calls_some {s s' : ProcessWorld} {c : Call Party} (h : s.calls c = some s') :
    ∃ t, s.table.step c = some t ∧ s' = { s with table := t, history := s.history ++ [c] } := by
  obtain ⟨t, hstep, he⟩ := Option.map_eq_some_iff.mp h
  exact ⟨t, hstep, he.symm⟩

theorem ProcessInv.call {s₀ s s' : ProcessWorld} (h : ProcessInv s₀ s) {op : Op} {rest : List Op}
    (hnext : s.pending = op :: rest)
    (hcall : { s with pending := rest }.calls ⟨.loop, op⟩ = some s') : ProcessInv s₀ s' := by
  obtain ⟨t, hstep, rfl⟩ := calls_some hcall
  have hproper : (⟨.loop, op⟩ : Call Party).Proper s.table := by
    intro d hd
    cases hd
    exact h.next_close hnext
  have hrest : OneKind rest := by
    obtain ⟨fd, hone⟩ | ⟨fds, hcloses⟩ := h.oneKind
    · rw [hone] at hnext
      cases hnext
      exact .inr ⟨[], rfl⟩
    · rw [hcloses] at hnext
      cases fds with
      | nil => cases hnext
      | cons _ fds =>
        cases hnext
        exact .inr ⟨fds, rfl⟩
  refine ⟨h.slots, hrest, fun d => ?_, fun fd hfd => ?_, h.distinct, h.balanced.snoc hstep hproper⟩
  · have hcons := h.conserved d
    have hone := holds_step hstep hproper .loop d
    rw [hnext, List.count_cons, List.count_cons] at hcons
    simp only [beq_iff_eq, true_and] at hcons hone
    show s.loop.pool.recorded.count d + rest.count (.closed d) =
      t.holds .loop d + rest.count (.opened d)
    omega
  · exact holder_kept hstep hproper (show Party.loop ≠ Party.other by decide) (h.others fd hfd)

theorem ProcessInv.event {s₀ s : ProcessWorld} (h : ProcessInv s₀ s) {e : Event}
    (hpending : s.pending = []) (he : 0 < e.fd) (hclean : Clean s.loop e) :
    ProcessInv s₀ { s with loop := (onEvent s.loop e).1, pending := e.ops (onEvent s.loop e).2 } := by
  obtain ⟨hslots, hkind, hconserves⟩ := loopStep_conserves h.slots he hclean (onEvent_step s.loop e)
  refine ⟨hslots, hkind, fun d => ?_, h.others, h.distinct, h.balanced⟩
  have hcons := h.conserved d
  rw [hpending, List.count_nil, List.count_nil] at hcons
  rw [← Nat.add_zero (s.table.holds .loop d), ← hcons]
  exact hconserves d

theorem ProcessInv.otherOpens {s₀ s s' : ProcessWorld} (h : ProcessInv s₀ s) {fd : Int}
    (hcall : { s with others := fd :: s.others }.calls ⟨.other, .opened fd⟩ = some s') :
    ProcessInv s₀ s' := by
  obtain ⟨t, hopen, rfl⟩ := calls_some hcall
  have hproper : (⟨.other, .opened fd⟩ : Call Party).Proper s.table := fun d hd => by cases hd
  obtain ⟨hnone, ht⟩ := step_opened hopen
  have hnew : fd ∉ s.others := by
    intro hmem
    rw [h.others fd hmem] at hnone
    cases hnone
  refine ⟨h.slots, h.oneKind, fun d => ?_, fun d hd => ?_, List.nodup_cons.mpr ⟨hnew, h.distinct⟩,
    h.balanced.snoc hopen hproper⟩
  · show _ = t.holds .loop d + _
    rw [holds_other hopen hproper]
    exact h.conserved d
  · show t.holder d = _
    rw [ht]
    obtain rfl | hold := List.mem_cons.mp hd
    · exact s.table.set_self d _
    · exact s.table.set_held hnone (h.others d hold) _

theorem ProcessInv.otherCloses {s₀ s s' : ProcessWorld} (h : ProcessInv s₀ s) {fd : Int}
    (hmem : fd ∈ s.others)
    (hcall : { s with others := s.others.erase fd }.calls ⟨.other, .closed fd⟩ = some s') :
    ProcessInv s₀ s' := by
  obtain ⟨t, hclose, rfl⟩ := calls_some hcall
  have hproper : (⟨.other, .closed fd⟩ : Call Party).Proper s.table := by
    intro d hd
    cases hd
    exact h.others fd hmem
  refine ⟨h.slots, h.oneKind, fun d => ?_, fun d hd => ?_, h.distinct.erase fd,
    h.balanced.snoc hclose hproper⟩
  · show _ = t.holds .loop d + _
    rw [holds_other hclose hproper]
    exact h.conserved d
  · obtain ⟨hne, hd⟩ := h.distinct.mem_erase_iff.mp hd
    show t.holder d = _
    rw [step_closed hclose, s.table.set_other hne, h.others d hd]

/-- Every step of a clean run keeps the invariant. -/
theorem process_step {s₀ s s' : ProcessWorld} {a : ProcessStep} (h : ProcessInv s₀ s)
    (hclean : CleanStep s.loop a) (hstep : s.step a = some s') : ProcessInv s₀ s' := by
  cases a with
  | event e =>
    unfold ProcessWorld.step at hstep
    dsimp only at hstep
    split at hstep
    · rename_i hguard
      cases hstep
      exact h.event hguard.1 hguard.2 hclean
    · cases hstep
  | health node healthy =>
    cases hstep
    exact ⟨h.slots, h.oneKind, h.conserved, h.others, h.distinct, h.balanced⟩
  | call =>
    unfold ProcessWorld.step at hstep
    dsimp only at hstep
    split at hstep
    · cases hstep
    · rename_i op rest hnext
      exact h.call hnext hstep
  | otherOpens fd => exact h.otherOpens hstep
  | otherCloses fd =>
    unfold ProcessWorld.step at hstep
    dsimp only at hstep
    split at hstep
    · rename_i hmem
      exact h.otherCloses hmem hstep
    · cases hstep

theorem started_processInv {s : ProcessWorld} (h : s.Started) : ProcessInv s s := by
  have hloop : LoopInv ⟨s.loop, ⟨fun _ => some .other⟩⟩ := started_inv ⟨h.loop, rfl⟩
  refine ⟨hloop.slots, ?_, fun d => ?_, h.others, h.distinct, ?_⟩
  · rw [h.pending]
    exact .inr ⟨[], rfl⟩
  · have hnone : s.table.holds .loop d = 0 := if_neg (h.free d)
    rw [h.pending, h.loop.pool, recorded_poolInit, hnone]
    rfl
  · rw [h.history]
    exact balanced_nil s.table

theorem run_processInv {s₀ : ProcessWorld} (steps : List ProcessStep) :
    ∀ {s s' : ProcessWorld}, ProcessInv s₀ s → CleanRun s steps → s.run steps = some s' →
      ProcessInv s₀ s' := by
  induction steps with
  | nil =>
    intro s s' h _ hrun
    cases hrun
    exact h
  | cons a steps ih =>
    intro s s' h hclean hrun
    obtain ⟨s₁, hstep, hrest⟩ := Option.bind_eq_some_iff.mp hrun
    exact ih (process_step h hclean.1 hstep) (hclean.2 s₁ hstep) hrest

/-- Each descriptor the worker was handed is closed once, by the worker, as its own. -/
structure ClosesOnce (s : ProcessWorld) : Prop where
  own : ∀ d rest, s.pending = .closed d :: rest → s.table.holder d = some .loop
  once : ∀ d, opens .loop d s.history = closes .loop d s.history + s.table.holds .loop d
  kept : ∀ d, s.table.holder d = some .loop → d ∈ s.loop.pool.recorded ∨ .closed d ∈ s.pending

/-- **Every descriptor is closed once, and no other's is closed.** For every worker as it
    enters its loop, and every run in which its events, its handlers' calls and the
    rest of the process take turns in any order: if every event is clean in the state it
    meets, then in the state reached the number that the worker closes next is one it
    holds; it has closed every number as often as it was handed it, but for the one time
    that it still holds it; and what it holds is recorded in the pool or about to be
    closed. -/
theorem descriptors_owned {s₀ s : ProcessWorld} (h₀ : s₀.Started) {steps : List ProcessStep}
    (hclean : CleanRun s₀ steps) (hrun : s₀.run steps = some s) : ClosesOnce s := by
  have hinv := run_processInv steps (started_processInv h₀) hclean hrun
  refine ⟨fun d rest hnext => hinv.next_close hnext, fun d => ?_, fun d hd => ?_⟩
  · have hbal := hinv.balanced .loop d
    have hnone : s₀.table.holds .loop d = 0 := if_neg (h₀.free d)
    omega
  · have hcons := hinv.conserved d
    have hpos := holds_one.mpr hd
    by_cases hrecorded : d ∈ s.loop.pool.recorded
    · exact .inl hrecorded
    · have hzero := List.count_eq_zero.mpr hrecorded
      exact .inr (List.count_pos_iff.mp (by omega))

/-- The worker of `sampleWorld`, and the descriptors its process has. -/
def sampleProcess : ProcessWorld :=
  ⟨sampleLoop, [], ⟨fun fd => if 0 ≤ fd ∧ fd ≤ 6 then some .other else none⟩, [], []⟩

theorem sampleProcess_started : sampleProcess.Started := by
  refine ⟨sampleLoop_started, rfl, fun fd h => ?_, fun fd h => ?_, List.nodup_nil, rfl⟩
  · change (if 0 ≤ fd ∧ fd ≤ 6 then some Party.other else none) = some Party.loop at h
    split at h
    · cases h
    · cases h
  · cases h

/-- A client is let in, a probe opens a socket, the request gets its upstream, and the
    upstream resets the connection. -/
def cleanSteps : List ProcessStep :=
  [.event (acceptEvent 7), .call, .otherOpens 8, .event (requestEvent 7 9), .otherCloses 8, .call,
    .event (sentEvent 9), .event (upstreamEvent 9 (.failed false)), .call, .otherOpens 9]

theorem descriptors_owned_clean : ∃ s, sampleProcess.run cleanSteps = some s ∧ ClosesOnce s := by
  have hclean : CleanRun sampleProcess cleanSteps := by decide +kernel
  have hrun : (sampleProcess.run cleanSteps).isSome = true := by decide +kernel
  obtain ⟨s, hs⟩ := Option.isSome_iff_exists.mp hrun
  exact ⟨s, hs, descriptors_owned sampleProcess_started hclean hs⟩

/-- The upstream's response has been read and its descriptor 8 closed; a probe is given
    the number before the client is closed. -/
def probedSteps : List ProcessStep :=
  [.event (acceptEvent 7), .call, .event (requestEvent 7 8), .call, .event (sentEvent 8),
    .event (upstreamEvent 8 responseRead),
    .call, .otherOpens 8, .call]

/-- The worker is about to close the probe's descriptor. -/
theorem probe_closed : sampleProcess.Started ∧
    ∃ s, sampleProcess.run probedSteps = some s ∧ s.pending = [.closed 8] ∧
      s.table.holder 8 = some .other ∧ ¬ ClosesOnce s := by
  have hrun : (sampleProcess.run probedSteps).map (fun s => (s.pending, s.table.holder 8)) =
      some ([.closed 8], some .other) := by decide +kernel
  obtain ⟨s, hs, hstate⟩ := Option.map_eq_some_iff.mp hrun
  obtain ⟨hpending, hholder⟩ := Prod.mk.inj hstate
  refine ⟨sampleProcess_started, s, hs, hpending, hholder, fun h => ?_⟩
  have hown := h.own 8 [] hpending
  rw [hholder] at hown
  cases hown

end NexusGateway
