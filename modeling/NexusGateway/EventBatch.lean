import NexusGateway.PoolDescriptors

/- The events of one `epoll_wait`.

   A batch is fetched once and its events are handled one after the other, each for the
   slot that its number is found in at that moment. A handler may close a number that a
   later event of the batch carries, and `accept4` or a connect may be handed the same
   number again. `batch_own_iff`: every event is acted upon for the connection it was
   raised for exactly when no event that is acted upon carries a number handed out
   earlier in its batch. -/
namespace NexusGateway
open CString Descriptors

/-- A connection: its slot, and how many the slot has had before it. -/
structure ConnId where
  slot : Nat
  era : Nat
  deriving DecidableEq, Repr

/-- The event loop inside a batch: how many connections each slot has had, and the numbers
    handed out since the batch was fetched. -/
structure BatchWorld where
  world : LoopWorld
  era : Nat → Nat
  handed : List Int

/-- The slot of a connection that the event lets in. -/
def EventLoop.admits (l : EventLoop) (e : Event) : Option Nat :=
  if e.fd = l.listenFd then l.slotFor e else none

def openedFd : Op → Option Int
  | .opened fd => some fd
  | .closed _ => none

/-- The next event of a batch. -/
def BatchWorld.step (g : BatchWorld) (e : Event) : Option BatchWorld :=
  (g.world.step (.event e)).map (fun world =>
    { world := world
      era := fun i => if g.world.loop.admits e = some i then g.era i + 1 else g.era i
      handed := (e.ops (onEvent g.world.loop e).2).filterMap openedFd ++ g.handed })

/-- The connection that a number belongs to. -/
def BatchWorld.connOf (g : BatchWorld) (fd : Int) : Option ConnId :=
  (proxyGet g.world.loop.pool fd).map (fun i => ⟨i, g.era i⟩)

/-- The connection that a handler runs for, if the event runs one. -/
def BatchWorld.actsFor (g : BatchWorld) (e : Event) : Option ConnId :=
  if e.fd = g.world.loop.listenFd then none
  else
    (proxyGet g.world.loop.pool e.fd).bind fun i =>
      (g.world.loop.pool.slots[i]?).bind fun c =>
        if (handlerFor c e.ev).isSome then some ⟨i, g.era i⟩ else none

/-- Every event of the batch that is acted upon is so for the connection that its number
    belonged to when the batch was fetched. -/
def EachOwn (start g : BatchWorld) : List Event → Prop
  | [] => True
  | e :: batch => ∀ g' ∈ g.step e,
      (∀ id ∈ g.actsFor e, start.connOf e.fd = some id) ∧ EachOwn start g' batch

/-- No event that is acted upon carries a number handed out earlier in the batch. -/
def NoReuse (g : BatchWorld) : List Event → Prop
  | [] => True
  | e :: batch => ∀ g' ∈ g.step e, (∀ id ∈ g.actsFor e, e.fd ∉ g.handed) ∧ NoReuse g' batch

/-! ## What a batch keeps -/

/-- Inside a batch. A number that was not handed out in it is in the slot it was in, for
    the same connection; and a connection that is still there keeps its numbers, none of
    which was handed out. -/
structure BatchInv (start g : BatchWorld) : Prop where
  loop : LoopInv g.world
  era : ∀ i, start.era i ≤ g.era i
  old : ∀ i c d, g.world.loop.pool.slots[i]? = some c → d ∈ c.descriptors → d ∉ g.handed →
    g.era i = start.era i ∧
      ∃ c₀, start.world.loop.pool.slots[i]? = some c₀ ∧ d ∈ c₀.descriptors
  live : ∀ i c c₀ d, g.world.loop.pool.slots[i]? = some c →
    start.world.loop.pool.slots[i]? = some c₀ → g.era i = start.era i → 0 < c.fd →
    d ∈ c₀.descriptors → d ∈ c.descriptors ∧ d ∉ g.handed

theorem batchInv_start {g : BatchWorld} (hloop : LoopInv g.world) (hhanded : g.handed = []) :
    BatchInv g g := by
  refine ⟨hloop, fun _ => Nat.le_refl _, fun i c d hget hd _ => ⟨rfl, c, hget, hd⟩, ?_⟩
  intro i c c₀ d hget hget₀ _ _ hd
  rw [hget] at hget₀
  cases hget₀
  rw [hhanded]
  exact ⟨hd, List.not_mem_nil⟩

/-- What one event does to a slot: how many connections it has had before and after,
    and the numbers handed out by then. -/
structure SlotKept (era era' : Nat) (handed : List Int) (c c' : ProxyConn) : Prop where
  gained : ∀ d ∈ c'.descriptors, d ∈ c.descriptors ∨ d ∈ handed
  same : era' = era ∧ (0 < c'.fd → 0 < c.fd ∧ ∀ d ∈ c.descriptors, d ∈ c'.descriptors) ∨
    era' = era + 1 ∧ ∀ d ∈ c'.descriptors, d ∈ handed

theorem slotKept_refl (era : Nat) (handed : List Int) (c : ProxyConn) :
    SlotKept era era handed c c :=
  ⟨fun _ hd => .inl hd, .inl ⟨rfl, fun hfd => ⟨hfd, fun _ hd => hd⟩⟩⟩

theorem mem_filterMap_openedFd {ops : List Op} {d : Int} :
    d ∈ ops.filterMap openedFd ↔ .opened d ∈ ops := by
  rw [List.mem_filterMap]
  constructor
  · rintro ⟨op, hop, hfd⟩
    cases op with
    | opened fd =>
      cases hfd
      exact hop
    | closed fd => cases hfd
  · exact fun h => ⟨_, h, rfl⟩

theorem moves_gained {c c' : ProxyConn} {ops : List Op} (h : Moves c c' ops) :
    (∀ d ∈ c'.descriptors, d ∈ c.descriptors ∨ .opened d ∈ ops) ∧
    (c'.descriptors ≠ [] → ∀ d ∈ c.descriptors, d ∈ c'.descriptors) := by
  cases h with
  | same hsame =>
    rw [hsame]
    exact ⟨fun d hd => .inl hd, fun _ d hd => hd⟩
  | @gains fd hgain =>
    refine ⟨fun d hd => ?_, fun _ d hd => ?_⟩
    · have hpos := List.count_pos_iff.mpr hd
      rw [hgain] at hpos
      by_cases hfd : d = fd
      · rw [hfd]
        exact .inr (List.mem_singleton.mpr rfl)
      · rw [if_neg hfd, Nat.add_zero] at hpos
        exact .inl (List.count_pos_iff.mp hpos)
    · have hpos := List.count_pos_iff.mpr hd
      refine List.count_pos_iff.mp ?_
      rw [hgain]
      omega
  | loses hnone =>
    rw [hnone]
    exact ⟨fun d hd => absurd hd List.not_mem_nil, fun h => absurd rfl h⟩

theorem opened_unheld {pool pool' : Pool} {t t' : Table Party} {ops : List Op}
    (hmoves : PoolMoves pool pool' ops) (hrun : t.run .loop ops = some t') {d : Int}
    (hd : .opened d ∈ ops) : t.holder d = none := by
  have hone {fd : Int} (hrun : t.run .loop [.opened fd] = some t') (hd : .opened d ∈ [Op.opened fd]) :
      t.holder d = none := by
    cases List.mem_singleton.mp hd
    exact (run_opened hrun).1
  cases hmoves with
  | same => cases hd
  | past => exact hone hrun hd
  | slot i c c' hget hset hmove =>
    cases hmove with
    | same => cases hd
    | gains => exact hone hrun hd
    | loses _ hops =>
      obtain ⟨_, _, hne⟩ := hops _ hd
      cases hne

theorem batchStep_some {g g' : BatchWorld} {e : Event} (h : g.step e = some g') :
    ∃ world, g.world.step (.event e) = some world ∧ g' =
      { world := world
        era := fun i => if g.world.loop.admits e = some i then g.era i + 1 else g.era i
        handed := (e.ops (onEvent g.world.loop e).2).filterMap openedFd ++ g.handed } := by
  obtain ⟨world, hstep, he⟩ := Option.map_eq_some_iff.mp h
  exact ⟨world, hstep, he.symm⟩

theorem worldStep_some {s s' : LoopWorld} {e : Event} (h : s.step (.event e) = some s') :
    0 < e.fd ∧ PositiveOps (e.ops (onEvent s.loop e).2) ∧ s'.loop = (onEvent s.loop e).1 ∧
      s.table.run .loop (e.ops (onEvent s.loop e).2) = some s'.table := by
  unfold LoopWorld.step at h
  dsimp only at h
  split at h
  · rename_i hguard
    obtain ⟨t, hrun, rfl⟩ := Option.map_eq_some_iff.mp h
    exact ⟨hguard.1, positiveOps_of_all hguard.2, rfl, hrun⟩
  · cases h

theorem slotKept_admitted {c c' : ProxyConn} {accepted : Int} (hfd : c'.fd = accepted)
    (hufd : c'.upstreamFd = -1) (era : Nat) {handed : List Int} (hhanded : accepted ∈ handed) :
    SlotKept era (era + 1) handed c c' := by
  have hall : ∀ d ∈ c'.descriptors, d ∈ handed := by
    intro d hd
    obtain ⟨hpos, rfl | rfl⟩ := mem_descriptors.mp hd
    · rwa [hfd]
    · omega
  exact ⟨fun d hd => .inr (hall d hd), .inr ⟨rfl, hall⟩⟩

theorem slotKept_handled {c c' : ProxyConn} {ops : List Op} (hmoves : Moves c c' ops)
    (hclient : 0 < c.fd) (era : Nat) {handed : List Int} (hhanded : ∀ d, .opened d ∈ ops → d ∈ handed) :
    SlotKept era era handed c c' := by
  obtain ⟨hgained, hkept⟩ := moves_gained hmoves
  refine ⟨fun d hd => (hgained d hd).imp_right (hhanded d),
    .inl ⟨rfl, fun hfd => ⟨hclient, hkept ?_⟩⟩⟩
  exact List.ne_nil_of_mem (mem_descriptors.mpr ⟨hfd, .inl rfl⟩)

/-- What an event does to every slot. -/
theorem loopStep_slots {l l' : EventLoop} {e : Event} {ops : List Op} (hpool : PoolOk l.pool)
    (he : 0 < e.fd) (hpos : PositiveOps ops) (hstep : LoopStep l e l' ops) (era : Nat → Nat)
    {handed : List Int} (hhanded : ∀ d, .opened d ∈ ops → d ∈ handed) {i : Nat} {c' : ProxyConn}
    (hget' : l'.pool.slots[i]? = some c') :
    ∃ c, l.pool.slots[i]? = some c ∧
      SlotKept (era i) (if l.admits e = some i then era i + 1 else era i) handed c c' := by
  -- a slot that the event does not act on
  have hsame (hnot : l.admits e ≠ some i) (hget : l.pool.slots[i]? = some c') :
      ∃ c, l.pool.slots[i]? = some c ∧
        SlotKept (era i) (if l.admits e = some i then era i + 1 else era i) handed c c' := by
    rw [if_neg hnot]
    exact ⟨c', hget, slotKept_refl _ _ _⟩
  have hnone (hslot : l.slotFor e = none) : l.admits e ≠ some i := by
    rw [EventLoop.admits, hslot]
    split <;> exact (Option.some_ne_none i).symm
  cases hstep with
  | still hslot => exact hsame (hnone hslot) hget'
  | forgot hslot => exact hsame (hnone hslot) hget'
  | admitted j c c'' hlisten hslot hget hfree hopen hfd hufd hstate hset hlistenFd hactive =>
    have hadmits : l.admits e = some j := (if_pos hlisten).trans hslot
    rw [hset] at hget'
    by_cases hij : j = i
    · subst hij
      rw [List.getElem?_set_self (List.getElem?_eq_some_iff.mp hget).1] at hget'
      cases hget'
      have hopened := List.mem_singleton.mpr (rfl : Op.opened e.calls.accept.accepted = _)
      rw [if_pos hadmits]
      exact ⟨c, hget, slotKept_admitted hfd hufd _ (hhanded _ hopened)⟩
    · rw [List.getElem?_set_ne hij] at hget'
      refine hsame ?_ hget'
      rw [hadmits]
      exact fun h => hij (Option.some.inj h)
  | handled j c c'' hother hslot hget hset hlistenFd hslotStep =>
    have hadmits : l.admits e ≠ some i := by
      rw [EventLoop.admits, if_neg hother]
      exact (Option.some_ne_none i).symm
    rw [hset] at hget'
    by_cases hij : j = i
    · subst hij
      rw [List.getElem?_set_self (List.getElem?_eq_some_iff.mp hget).1] at hget'
      cases hget'
      have hok := hpool c (List.mem_iff_getElem?.mpr ⟨_, hget⟩)
      have hclient := (slotFor_client hpool he hother hslot hget).1
      rw [if_neg hadmits]
      have hmoves := (slotStep_moves hok hclient hpos hslotStep).1
      exact ⟨c, hget, slotKept_handled hmoves hclient _ hhanded⟩
    · rw [List.getElem?_set_ne hij] at hget'
      exact hsame hadmits hget'

/-- Every event of a batch keeps the invariant. -/
theorem batchStep_inv {start g g' : BatchWorld} {e : Event} (h : BatchInv start g)
    (hstep : g.step e = some g') : BatchInv start g' := by
  obtain ⟨world, hworld, rfl⟩ := batchStep_some hstep
  obtain ⟨he, hpos, hloop, hrun⟩ := worldStep_some hworld
  have hevent := onEvent_step g.world.loop e
  have hmoves := (loopStep_moves h.loop.slots he hpos hevent).1
  have hhanded : ∀ d, .opened d ∈ e.ops (onEvent g.world.loop e).2 →
      d ∈ (e.ops (onEvent g.world.loop e).2).filterMap openedFd ++ g.handed :=
    fun d hd => List.mem_append_left _ (mem_filterMap_openedFd.mpr hd)
  have hslots {i : Nat} {c' : ProxyConn} (hget' : world.loop.pool.slots[i]? = some c') :=
    loopStep_slots h.loop.slots he hpos hevent g.era hhanded (by rwa [← hloop])
  refine ⟨step_inv h.loop hworld, fun i => ?_, fun i c' d hget' hd hnew => ?_,
    fun i c' c₀ d hget' hget₀ hera hfd hd => ?_⟩
  · have := h.era i
    dsimp only
    split <;> omega
  · obtain ⟨c, hget, hgained, hsame⟩ := hslots hget'
    have hdc := (hgained d hd).resolve_right hnew
    obtain ⟨hera, hold⟩ := h.old i c d hget hdc (fun hmem => hnew (List.mem_append_right _ hmem))
    obtain ⟨hkept, _⟩ | ⟨_, hall⟩ := hsame
    · exact ⟨hkept.trans hera, hold⟩
    · exact absurd (hall d hd) hnew
  · obtain ⟨c, hget, _, hsame⟩ := hslots hget'
    obtain ⟨hkept, hlive⟩ | ⟨hnext, _⟩ := hsame
    · obtain ⟨hfdc, hall⟩ := hlive hfd
      obtain ⟨hdc, hnot⟩ := h.live i c c₀ d hget hget₀ (hkept.symm.trans hera) hfdc hd
      refine ⟨hall d hdc, fun hmem => ?_⟩
      -- what is still recorded is held, and was not handed out again
      obtain hopened | hmem := List.mem_append.mp hmem
      · have hheld := h.loop.held d (mem_recorded hget hdc)
        rw [opened_unheld hmoves hrun (mem_filterMap_openedFd.mp hopened)] at hheld
        cases hheld
      · exact hnot hmem
    · have hle := h.era i
      have heq := hnext.symm.trans hera
      omega

/-! ## The connection an event is for -/

theorem actsFor_some {g : BatchWorld} {e : Event} {id : ConnId} (h : g.actsFor e = some id) :
    ∃ i c, proxyGet g.world.loop.pool e.fd = some i ∧ g.world.loop.pool.slots[i]? = some c ∧
      e.fd ≠ g.world.loop.listenFd ∧ id = ⟨i, g.era i⟩ := by
  unfold BatchWorld.actsFor at h
  split at h
  · cases h
  rename_i hother
  obtain ⟨i, hfound, h⟩ := Option.bind_eq_some_iff.mp h
  obtain ⟨c, hget, h⟩ := Option.bind_eq_some_iff.mp h
  split at h
  · exact ⟨i, c, hfound, hget, hother, (Option.some.inj h).symm⟩
  · cases h

/-- An event is for its own connection exactly when its number was not handed out in
    the batch. -/
theorem acts_own_iff {start g : BatchWorld} {e : Event} (hstart : LoopInv start.world)
    (h : BatchInv start g) (he : 0 < e.fd) {id : ConnId} (hacts : g.actsFor e = some id) :
    start.connOf e.fd = some id ↔ e.fd ∉ g.handed := by
  obtain ⟨i, c, hfound, hget, hother, rfl⟩ := actsFor_some hacts
  have hslot : g.world.loop.slotFor e = some i := (slotFor_conn hother).trans hfound
  obtain ⟨hclient, hrecords⟩ := slotFor_client h.loop.slots he hother hslot hget
  have hd := mem_descriptors.mpr ⟨he, hrecords⟩
  constructor
  · intro hconn
    obtain ⟨j, hfound₀, hid⟩ := Option.map_eq_some_iff.mp hconn
    obtain ⟨rfl, hera⟩ := ConnId.mk.inj hid
    obtain ⟨c₀, hget₀, _, hr⟩ := Slots.findIdx?_some hfound₀
    rw [ProxyConn.records, Bool.or_eq_true, beq_iff_eq, beq_iff_eq] at hr
    exact (h.live _ c c₀ e.fd hget hget₀ hera.symm hclient (mem_descriptors.mpr ⟨he, hr⟩)).2
  · intro hnew
    obtain ⟨hera, c₀, hget₀, hd₀⟩ := h.old i c e.fd hget hd hnew
    obtain ⟨j, _, hfound₀, _, _, hunique⟩ := proxyGet_owner hstart (mem_recorded hget₀ hd₀)
    rw [BatchWorld.connOf, hfound₀, ← hunique i c₀ hget₀ hd₀, hera]
    rfl

theorem batch_iff {start : BatchWorld} (hstart : LoopInv start.world) (batch : List Event) :
    ∀ {g : BatchWorld}, BatchInv start g → (EachOwn start g batch ↔ NoReuse g batch) := by
  induction batch with
  | nil => exact fun _ => Iff.rfl
  | cons e batch ih =>
    intro g h
    unfold EachOwn NoReuse
    apply forall_congr'
    intro g'
    apply forall_congr'
    intro hstep
    have he : 0 < e.fd := by
      obtain ⟨world, hworld, _⟩ := batchStep_some hstep
      exact (worldStep_some hworld).1
    apply and_congr
    · apply forall_congr'
      intro id
      apply forall_congr'
      intro hacts
      exact acts_own_iff hstart h he hacts
    · exact ih (batchStep_inv h hstep)

/-- **When every event of a batch is acted upon for its own connection.** For every state
    of the event loop that a run reaches, every batch of events for positive descriptors
    in any order, and any results of the system calls that the kernel can return
    (descriptors that are not open, those that the batch has closed among them): every
    event is acted upon for the connection that its number belonged to when the batch was
    fetched exactly when no event that is acted upon carries a number that `accept4` or a
    connect was handed earlier in the batch. -/
theorem batch_own_iff {s₀ : LoopWorld} (h₀ : s₀.Started) {g : BatchWorld}
    (hreach : LoopWorld.Reachable s₀ g.world) (hfetched : g.handed = []) (batch : List Event) :
    EachOwn g g batch ↔ NoReuse g batch :=
  batch_iff (reachable_inv h₀ hreach) batch (batchInv_start (reachable_inv h₀ hreach) hfetched)

instance EachOwn.decidable (start : BatchWorld) :
    (batch : List Event) → DecidablePred (fun g => EachOwn start g batch)
  | [], _ => isTrue trivial
  | e :: batch, g =>
    have := EachOwn.decidable start batch
    inferInstanceAs (Decidable (∀ g' ∈ g.step e,
      (∀ id ∈ g.actsFor e, start.connOf e.fd = some id) ∧ EachOwn start g' batch))

/-- A client waits for its upstream's response. -/
def waitingSteps : List WorkerStep :=
  [.event (acceptEvent 7), .event (requestEvent 7 8), .event (sentEvent 8)]

/-- The batch of a world in which every slot has had one connection. -/
def fetched (world : LoopWorld) : BatchWorld := ⟨world, fun _ => 1, []⟩

/-- The upstream answers, a new client connects, and the old client's event comes last. -/
def staleBatch : List Event :=
  [upstreamEvent 8 responseRead,
    acceptEvent 7, ⟨7, epollIn, EventCalls.idle⟩]

theorem batch_own_iff_stale : ∃ world, sampleWorld.run waitingSteps = some world ∧
    (EachOwn (fetched world) (fetched world) staleBatch ↔ NoReuse (fetched world) staleBatch) := by
  have hrun : (sampleWorld.run waitingSteps).isSome = true := by decide +kernel
  obtain ⟨world, hworld⟩ := Option.isSome_iff_exists.mp hrun
  exact ⟨world, hworld, batch_own_iff sampleWorld_started (g := fetched world)
    (reachable_run .start hworld) rfl staleBatch⟩

/-- The new client's connection is closed for the old client's event. -/
theorem stale_event_closes : ∃ world, sampleWorld.run waitingSteps = some world ∧
    ¬ EachOwn (fetched world) (fetched world) staleBatch ∧
    (world.run (staleBatch.map .event)).map (fun w => w.loop.pool.clients) = some 0 := by
  have hrun : (sampleWorld.run waitingSteps).map (fun world =>
      (decide (EachOwn (fetched world) (fetched world) staleBatch),
        (world.run (staleBatch.map .event)).map (fun w => w.loop.pool.clients))) =
      some (false, some 0) := by decide +kernel
  obtain ⟨world, hworld, hstate⟩ := Option.map_eq_some_iff.mp hrun
  obtain ⟨hown, hclients⟩ := Prod.mk.inj hstate
  exact ⟨world, hworld, of_decide_eq_false hown, hclients⟩

end NexusGateway
