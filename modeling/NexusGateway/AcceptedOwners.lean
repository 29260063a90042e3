import NexusGateway.ActiveCount
import NexusGateway.Lib.Runs

/- Who owns the descriptors that were accepted.

   A descriptor that `accept4` returns goes into a free slot of the pool, and every
   handler that frees a slot closes the descriptor in it. When the pool has no free slot
   the descriptor is neither kept nor closed, and a descriptor 0 leaves its slot free. As
   long as neither happens, every accepted descriptor that is open stands in a slot
   (`accepted_owned`); with 1024 clients it happens on the next accept
   (`accepted_forgotten`). -/
namespace NexusGateway
open CString Descriptors

/-- The event loop, and the descriptors that `accept4` has returned and that were not closed. -/
structure AcceptWorld where
  loop : EventLoop
  opened : List Int

/-- The accepted descriptors after a call, `accepted` being what the accept returns. -/
def openedAfter (accepted : Int) (opened : List Int) : Action → List Int
  | .accept _ => if accepted < 0 then opened else accepted :: opened
  | .close fd => opened.filter (fun d => decide (d ≠ fd))
  | _ => opened

def AcceptWorld.step (w : AcceptWorld) : WorkerStep → AcceptWorld
  | .event e =>
    let r := onEvent w.loop e
    ⟨r.1, r.2.foldl (openedAfter e.calls.accept.accepted) w.opened⟩
  | .health node healthy => { w with loop := w.loop.step (.health node healthy) }

/-- As `nexus_worker_run` enters the loop. -/
structure AcceptWorld.Started (w : AcceptWorld) : Prop where
  loop : w.loop.Started
  opened : w.opened = []

/-- Every accepted descriptor that is open stands in a slot that is not free. -/
def AcceptWorld.Owned (w : AcceptWorld) : Prop :=
  ∀ d ∈ w.opened, ∃ c ∈ w.loop.pool.slots, c.fd = d ∧ c.isFree = false

/-- An accept that lets a connection in finds a free slot, and does not return 0. -/
def FindsSlot (w : AcceptWorld) : WorkerStep → Prop
  | .event e =>
    e.fd = w.loop.listenFd → w.loop.refuses e.calls.accept = false → 0 ≤ e.calls.accept.accepted →
      e.calls.accept.accepted ≠ 0 ∧ w.loop.pool.slots.any ProxyConn.isFree = true
  | .health _ _ => True

instance (w : AcceptWorld) : DecidablePred (FindsSlot w)
  | .event _ => inferInstanceAs (Decidable (_ → _ → _ → _))
  | .health _ _ => isTrue trivial

/-! ## What an event does to the accepted descriptors -/

theorem mem_foldl_openedAfter {accepted d : Int} {actions : List Action}
    (hnone : ∀ fd, .accept fd ∉ actions) {opened : List Int}
    (hd : d ∈ actions.foldl (openedAfter accepted) opened) : d ∈ opened ∧ .close d ∉ actions := by
  induction actions generalizing opened with
  | nil => exact ⟨hd, by simp⟩
  | cons a actions ih =>
    obtain ⟨hlater, hrest⟩ := ih (fun fd h => hnone fd (List.mem_cons_of_mem _ h)) hd
    cases a with
    | accept fd => exact absurd List.mem_cons_self (hnone fd)
    | close fd =>
      obtain ⟨hopen, hne⟩ := List.mem_filter.mp hlater
      have hclose : d ≠ fd := of_decide_eq_true hne
      exact ⟨hopen, by simp [hclose, hrest]⟩
    | _ => exact ⟨hlater, by simp [hrest]⟩

theorem slotStep_opened {c c' : ProxyConn} {active active' : Int} {ev : UInt32} {k : EventCalls}
    {ops : List Op} (h : SlotStep c active ev k c' active' ops) {d : Int} (hd : .opened d ∈ ops) :
    d = k.clientRead.upstreamFd := by
  cases h with
  | connected => exact Op.opened.inj (List.mem_singleton.mp hd)
  | _ => simp [closesOf] at hd

/-- A handler accepts nothing: with any number that an accept might return it opens
    no other than the upstream's. -/
theorem handleConn_no_accept (w : Worker) (c : ProxyConn) (ev : UInt32) (k : EventCalls) (fd : Int) :
    .accept fd ∉ (handleConn w c ev k).actions := by
  intro hmem
  have hstep := handleConn_step w c ev
    { k with accept := { k.accept with accepted := k.clientRead.upstreamFd.natAbs + 1 } }
  have hopened : .opened ((k.clientRead.upstreamFd.natAbs : Int) + 1) ∈
      tableOps (k.clientRead.upstreamFd.natAbs + 1) k.clientRead.upstreamFd
        (handleConn w c ev k).actions := by
    refine List.mem_flatMap.mpr ⟨.accept fd, hmem, ?_⟩
    rw [tableOp, handedOut, if_neg (by omega)]
    exact List.mem_singleton.mpr rfl
  have hsame := slotStep_opened hstep hopened
  dsimp only at hsame
  omega

theorem mem_tableOps_close {accepted connected d : Int} {actions : List Action}
    (h : .closed d ∈ tableOps accepted connected actions) : .close d ∈ actions := by
  obtain ⟨a, ha, hop⟩ := List.mem_flatMap.mp h
  unfold tableOp at hop
  split at hop
  · simp [handedOut] at hop
  · simp [handedOut] at hop
  · cases List.mem_singleton.mp hop
    exact ha
  · cases hop

theorem slotStep_client {c c' : ProxyConn} {active active' : Int} {ev : UInt32} {k : EventCalls}
    {ops : List Op} (h : SlotStep c active ev k c' active' ops) (hc : 0 < c.fd) :
    c'.fd = c.fd ∨ .closed c.fd ∈ ops := by
  have hmem : Op.closed c.fd ∈ closesOf c.descriptors := by
    simp [closesOf, ProxyConn.descriptors, hc]
  cases h with
  | kept => exact .inl rfl
  | connected _ _ hfd => exact .inl hfd
  | sent _ hfd => exact .inl hfd
  | released => exact .inr hmem
  | releasedTwice => exact .inr (List.mem_cons_of_mem _ hmem)
  | dropped => exact .inr (by simp [closesOf])

theorem acceptConn_opened {l : EventLoop} {k : AcceptCalls} {opened : List Int} {d : Int}
    (hd : d ∈ (acceptConn l k).2.foldl (openedAfter k.accepted) opened) :
    d ∈ opened ∨ d = k.accepted ∧ l.refuses k = false ∧ 0 ≤ k.accepted := by
  unfold acceptConn at hd
  split at hd
  · exact .inl hd
  rename_i hlet
  split at hd
  · rename_i hfailed
    simp [openedAfter, hfailed] at hd
    exact .inl hd
  rename_i hopen
  have hnew : d ∈ k.accepted :: opened := by
    split at hd <;> simpa [openedAfter, hopen] using hd
  obtain hsame | hold := List.mem_cons.mp hnew
  · exact .inr ⟨hsame, Bool.eq_false_iff.mpr hlet, not_lt.mp hopen⟩
  · exact .inl hold

/-! ## The invariant of a run -/

/-- Accepted descriptors are positive and owned. -/
def OwnedInv (w : AcceptWorld) : Prop := ∀ d ∈ w.opened, 0 < d ∧ ∃ c ∈ w.loop.pool.slots, c.fd = d

theorem owner_set {slots : List ProxyConn} {i : Nat} {c c' : ProxyConn} {d : Int}
    (hget : slots[i]? = some c) (howner : ∃ x ∈ slots, x.fd = d) (hsame : c.fd = d → c'.fd = d) :
    ∃ x ∈ slots.set i c', x.fd = d := by
  obtain ⟨x, hx, hfd⟩ := howner
  obtain ⟨j, hj⟩ := List.mem_iff_getElem?.mp hx
  by_cases hji : j = i
  · subst hji
    cases hget.symm.trans hj
    have hlt := (List.getElem?_eq_some_iff.mp hget).1
    exact ⟨c', List.mem_set hlt c', hsame hfd⟩
  · refine ⟨x, List.mem_iff_getElem?.mpr ⟨j, ?_⟩, hfd⟩
    rw [List.getElem?_set_ne (Ne.symm hji), hj]

theorem ownedInv_accept {w : AcceptWorld} {e : Event} (h : OwnedInv w)
    (hlisten : e.fd = w.loop.listenFd) (hfinds : FindsSlot w (.event e)) : OwnedInv (w.step (.event e)) := by
  intro d hd
  have honEvent : onEvent w.loop e = acceptConn w.loop e.calls.accept := if_pos hlisten
  have hmem : d ∈ w.opened ∨ d = e.calls.accept.accepted ∧
      w.loop.refuses e.calls.accept = false ∧ 0 ≤ e.calls.accept.accepted := by
    apply acceptConn_opened
    rw [← honEvent]
    exact hd
  have hslot (hlet : w.loop.refuses e.calls.accept = false) (hopen : 0 ≤ e.calls.accept.accepted) :
      e.calls.accept.accepted ≠ 0 ∧ w.loop.slotFor e ≠ none := by
    obtain ⟨hne, hfree⟩ := hfinds hlisten hlet hopen
    refine ⟨hne, ?_⟩
    rw [slotFor_listen hlisten, if_neg (by simp [hlet, hopen]), ne_eq, List.findIdx?_eq_none_iff]
    intro hnone
    obtain ⟨c, hc, hcfree⟩ := List.any_eq_true.mp hfree
    rw [hnone c hc] at hcfree
    cases hcfree
  show 0 < d ∧ ∃ c ∈ (onEvent w.loop e).1.pool.slots, c.fd = d
  generalize hnext : (onEvent w.loop e).1 = l'
  have hstep := onEvent_step w.loop e
  rw [hnext] at hstep
  generalize e.ops (onEvent w.loop e).2 = ops at hstep
  cases hstep with
  | still hnone =>
    obtain hold | ⟨_, hlet, hopen⟩ := hmem
    · exact h d hold
    · exact absurd hnone (hslot hlet hopen).2
  | forgot hnone _ hlet hopen => exact absurd hnone (hslot hlet hopen).2
  | admitted i c c' _ hfound hget hfree hopen hfd _ _ hpool =>
    rw [hpool]
    obtain hold | ⟨rfl, hlet, _⟩ := hmem
    · obtain ⟨hpos, howner⟩ := h d hold
      exact ⟨hpos, owner_set hget howner (fun hzero => by omega)⟩
    · have hne := (hslot hlet hopen).1
      have hlt := (List.getElem?_eq_some_iff.mp hget).1
      exact ⟨by omega, c', List.mem_set hlt c', hfd⟩
  | handled i c c' hother => exact absurd hlisten hother

theorem onEvent_no_accept {l : EventLoop} {e : Event} (hother : e.fd ≠ l.listenFd) (fd : Int) :
    .accept fd ∉ (onEvent l e).2 := by
  unfold onEvent
  rw [if_neg hother]
  split
  · simp
  · split
    · simp
    · exact handleConn_no_accept _ _ _ _ fd

theorem ownedInv_handle {w : AcceptWorld} {e : Event} (h : OwnedInv w)
    (hother : e.fd ≠ w.loop.listenFd) : OwnedInv (w.step (.event e)) := by
  intro d hd
  obtain ⟨hold, hclose⟩ := mem_foldl_openedAfter (onEvent_no_accept hother) hd
  obtain ⟨hpos, howner⟩ := h d hold
  refine ⟨hpos, ?_⟩
  show ∃ c ∈ (onEvent w.loop e).1.pool.slots, c.fd = d
  have hclosed : .closed d ∉ e.ops (onEvent w.loop e).2 :=
    fun hmem => hclose (mem_tableOps_close hmem)
  generalize hnext : (onEvent w.loop e).1 = l'
  have hstep := onEvent_step w.loop e
  rw [hnext] at hstep
  generalize e.ops (onEvent w.loop e).2 = ops at hstep hclosed
  cases hstep with
  | still => exact howner
  | forgot => exact howner
  | admitted _ _ _ hlisten => exact absurd hlisten hother
  | handled i c c' _ _ hget hpool _ hslotStep =>
    rw [hpool]
    refine owner_set hget howner (fun hfd => ?_)
    obtain hsame | hgone := slotStep_client hslotStep (by omega)
    · exact hsame.trans hfd
    · rw [hfd] at hgone
      exact absurd hgone hclosed

/-- What a step keeps while every accept finds a slot. -/
theorem ownedInv_step {w : AcceptWorld} {a : WorkerStep} (h : OwnedInv w) (hfinds : FindsSlot w a) :
    OwnedInv (w.step a) := by
  cases a with
  | event e =>
    by_cases hlisten : e.fd = w.loop.listenFd
    · exact ownedInv_accept h hlisten hfinds
    · exact ownedInv_handle h hlisten
  | health => exact h

/-- **Every accepted descriptor has an owner.** For every worker as it enters its loop, and
    every run of events for any descriptors, with any results of their system calls and
    any number of clients: if every accept that lets a connection in finds a free slot
    and does not return 0, then in the state reached every descriptor that `accept4` has
    returned and that was not closed is the descriptor of a slot that is not free. -/
theorem accepted_owned {w : AcceptWorld} (hw : w.Started) {steps : List WorkerStep}
    (hfinds : Runs.Meets (fun w a => some (w.step a)) FindsSlot w steps) :
    (steps.foldl AcceptWorld.step w).Owned := by
  have hinit : OwnedInv w := by
    intro d hd
    rw [hw.opened] at hd
    cases hd
  have hinv : OwnedInv (steps.foldl AcceptWorld.step w) := by
    refine Runs.run_invariant (fun h hmeets hstep => ?_) steps hinit hfinds
      (Runs.run_total AcceptWorld.step steps w)
    cases hstep
    exact ownedInv_step h hmeets
  intro d hd
  obtain ⟨hpos, c, hc, hfd⟩ := hinv d hd
  exact ⟨c, hc, hfd, beq_eq_false_iff_ne.mpr (by omega)⟩

def acceptStart : AcceptWorld := ⟨sampleLoop, []⟩

theorem acceptStart_started : acceptStart.Started := ⟨sampleLoop_started, rfl⟩

theorem accepted_owned_two :
    ([WorkerStep.event (acceptEvent 7), .event (acceptEvent 8)].foldl AcceptWorld.step
      acceptStart).Owned :=
  accepted_owned acceptStart_started (by decide +kernel)

/-! ## A full pool -/

/-- This many clients, the one after the other, with the descriptors from 6 on. -/
def acceptMany (n : Nat) : List WorkerStep :=
  (List.range n).map (fun i : Nat => .event (acceptEvent (6 + i)))

/-- The pool holds this many clients, with descriptors from 6 on. -/
structure Filled (n : Nat) (l : EventLoop) : Prop where
  listenFd : l.listenFd = 5
  clients : l.pool.clients = n
  below : ∀ c ∈ l.pool.slots, 0 ≤ c.fd ∧ c.fd < 6 + n

theorem Filled.loopStep {n : Nat} {l : EventLoop} (h : Filled n l) :
    ∃ ops, LoopStep l (acceptEvent (6 + n)) (onEvent l (acceptEvent (6 + n))).1 ops ∧
      l.slotFor (acceptEvent (6 + n)) = l.pool.slots.findIdx? ProxyConn.isFree := by
  refine ⟨_, onEvent_step l (acceptEvent (6 + n)), ?_⟩
  have hlet : ¬ (l.refuses (acceptEvent (6 + n)).calls.accept = true ∨
      (acceptEvent (6 + n)).calls.accept.accepted < 0) := by
    rintro (hrefused | hfailed)
    · cases hrefused
    · exact absurd hfailed (by simp [acceptEvent]; omega)
  rw [slotFor_listen h.listenFd.symm, if_neg hlet]

theorem Filled.free {n : Nat} {l : EventLoop} (h : Filled n l) (hn : n < proxyPoolSize) :
    l.pool.slots.findIdx? ProxyConn.isFree ≠ none := by
  rw [ne_eq, List.findIdx?_eq_none_iff]
  intro hnone
  have hall : l.pool.clients = l.pool.slots.length := by
    rw [Pool.clients, List.countP_eq_length]
    intro c hc
    have hne : c.fd ≠ 0 := beq_eq_false_iff_ne.mp (hnone c hc)
    have := (h.below c hc).1
    exact decide_eq_true (by omega)
  rw [h.clients, l.pool.length_eq] at hall
  omega

theorem Filled.full {l : EventLoop} (h : Filled proxyPoolSize l) :
    l.pool.slots.findIdx? ProxyConn.isFree = none := by
  rw [List.findIdx?_eq_none_iff]
  intro c hc
  have hall : l.pool.slots.countP (fun c => decide (0 < c.fd)) = l.pool.slots.length :=
    h.clients.trans l.pool.length_eq.symm
  have hpos := of_decide_eq_true (List.countP_eq_length.mp hall c hc)
  exact beq_eq_false_iff_ne.mpr (Int.ne_of_gt hpos)

theorem Filled.next {n : Nat} {l : EventLoop} (h : Filled n l) (hn : n < proxyPoolSize) :
    Filled (n + 1) (onEvent l (acceptEvent (6 + n))).1 := by
  obtain ⟨ops, hstep, hslot⟩ := h.loopStep
  have hfree := h.free hn
  rw [← hslot] at hfree
  generalize (onEvent l (acceptEvent (6 + n))).1 = l' at hstep ⊢
  cases hstep with
  | still hnone => exact absurd hnone hfree
  | forgot hnone => exact absurd hnone hfree
  | admitted i c c' _ _ hget hzero _ hfd _ _ hpool hlistenFd =>
    have hnew : c'.fd = 6 + n := hfd
    refine ⟨hlistenFd.trans h.listenFd, ?_, fun x hx => ?_⟩
    · have hclients := clients_set hget hpool
      have hone : c'.client = 1 := if_pos (by omega)
      rw [client_zero hzero, hone, h.clients] at hclients
      exact hclients
    · rw [hpool] at hx
      obtain hold | rfl := List.mem_or_eq_of_mem_set hx
      · have := h.below x hold
        omega
      · omega
  | handled _ _ _ hother => exact absurd h.listenFd.symm hother

theorem filled_acceptMany {n : Nat} (hn : n ≤ proxyPoolSize) :
    Filled n ((acceptMany n).foldl AcceptWorld.step acceptStart).loop := by
  induction n with
  | zero =>
    have hcount : (0 : Int) = sampleLoop.pool.clients := started_counts sampleLoop_started
    refine ⟨rfl, (Int.ofNat.inj hcount).symm, fun c hc => ?_⟩
    rw [List.eq_of_mem_replicate hc]
    decide
  | succ n ih =>
    rw [acceptMany, List.range_succ, List.map_append, List.foldl_append]
    exact (ih (by omega)).next hn

theorem accept_opens {w : AcceptWorld} {e : Event} (hlisten : e.fd = w.loop.listenFd)
    (hlet : w.loop.refuses e.calls.accept = false) (hopen : 0 ≤ e.calls.accept.accepted) :
    e.calls.accept.accepted ∈ (w.step (.event e)).opened := by
  show _ ∈ (onEvent w.loop e).2.foldl (openedAfter e.calls.accept.accepted) w.opened
  have honEvent : onEvent w.loop e = acceptConn w.loop e.calls.accept := if_pos hlisten
  rw [honEvent]
  unfold acceptConn
  rw [if_neg (by simp [hlet]), if_neg (not_lt.mpr hopen)]
  split <;> simp [openedAfter, not_lt.mpr hopen]

theorem full_forgets {n : Nat} (hn : n = proxyPoolSize) {w : AcceptWorld} (h : Filled n w.loop) :
    ¬ (w.step (.event (acceptEvent (6 + n)))).Owned := by
  intro howned
  have hopens := accept_opens (e := acceptEvent (6 + n)) h.listenFd.symm rfl
    (by show (0 : Int) ≤ 6 + n; omega)
  obtain ⟨c, hc, hfd, _⟩ := howned (6 + n) hopens
  obtain ⟨ops, hstep, hslot⟩ := h.loopStep
  rw [(hn ▸ h : Filled proxyPoolSize w.loop).full] at hslot
  have hpool : (w.step (.event (acceptEvent (6 + n)))).loop.pool = w.loop.pool := by
    show (onEvent w.loop (acceptEvent (6 + n))).1.pool = w.loop.pool
    generalize (onEvent w.loop (acceptEvent (6 + n))).1 = l' at hstep ⊢
    cases hstep with
    | still => rfl
    | forgot => rfl
    | admitted i c c' _ hsome =>
      rw [hslot] at hsome
      cases hsome
    | handled i c c' hother => exact absurd h.listenFd.symm hother
  have hlt := (h.below c (hpool ▸ hc)).2
  omega

theorem acceptMany_forgets {n : Nat} (hn : n = proxyPoolSize) :
    ¬ ((acceptMany (n + 1)).foldl AcceptWorld.step acceptStart).Owned := by
  rw [acceptMany, List.range_succ, List.map_append, List.foldl_append]
  exact full_forgets hn (filled_acceptMany hn.le)

/-- The client after the last slot is taken has no owner. -/
theorem accepted_forgotten : acceptStart.Started ∧
    ¬ ((acceptMany (proxyPoolSize + 1)).foldl AcceptWorld.step acceptStart).Owned :=
  ⟨acceptStart_started, acceptMany_forgets rfl⟩

end NexusGateway
