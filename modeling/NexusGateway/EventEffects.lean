import NexusGateway.Lib.Descriptors
import NexusGateway.RequestRouting
import NexusGateway.WorkerEvents

/- What one event can do to the pool's descriptors.

   Every handler is summed up once: what it leaves of its slot's descriptors and state,
   what it does to the count of active connections, and which numbers it opens and
   closes, in order (`handleConn_step`). `onEvent_step` says the same of a whole event.
   The invariants of the event loop are all read off these two. -/
namespace NexusGateway
open CString Descriptors

/-- The slot's open descriptors. -/
def ProxyConn.descriptors (c : ProxyConn) : List Int :=
  [c.fd, c.upstreamFd].filter (fun fd => decide (0 < fd))

/-- A descriptor that a call returned. -/
def handedOut (fd : Int) : List Op := if fd < 0 then [] else [.opened fd]

/-- What an action opens or closes, `accepted` being what the accept returned and
    `connected` what the connect did. -/
def tableOp (accepted connected : Int) : Action → List Op
  | .accept _ => handedOut accepted
  | .connectUpstream _ _ => handedOut connected
  | .close fd => [.closed fd]
  | _ => []

/-- What a handler opens and closes, in order. -/
def tableOps (accepted connected : Int) (actions : List Action) : List Op :=
  actions.flatMap (tableOp accepted connected)

@[simp] theorem tableOps_nil (accepted connected : Int) : tableOps accepted connected [] = [] := rfl

@[simp] theorem tableOps_append (accepted connected : Int) (before actions : List Action) :
    tableOps accepted connected (before ++ actions) =
      tableOps accepted connected before ++ tableOps accepted connected actions :=
  List.flatMap_append

theorem closeClientConn_ops (accepted connected : Int) (w : Worker) (c : ProxyConn) :
    tableOps accepted connected (closeClientConn w c).actions = closesOf c.descriptors := by
  unfold closeClientConn ProxyConn.descriptors
  by_cases hfd : 0 < c.fd <;> by_cases hufd : 0 < c.upstreamFd <;>
    simp [tableOps, tableOp, closesOf, hfd, hufd]

/-- The count after a client's descriptor is closed. -/
def afterClose (c : ProxyConn) (active : Int) : Int := if c.fd > 0 then active - 1 else active

/-! ## The client's socket -/

/-- The connection was closed by `close_client_conn`, before which no descriptor was
    opened or closed. -/
def ClosedBy (w : Worker) (c : ProxyConn) (k : ClientReadCalls) (h : Handled) : Prop :=
  ∃ w' c' before, h = (closeClientConn w' c').after before ∧ w'.activeConns = w.activeConns ∧
    c'.fd = c.fd ∧ c'.upstreamFd = c.upstreamFd ∧
    ∀ accepted, tableOps accepted k.upstreamFd before = []

/-- The connection got an upstream's descriptor. -/
structure ConnectedBy (w : Worker) (c : ProxyConn) (k : ClientReadCalls) (h : Handled) : Prop where
  fd : h.conn.fd = c.fd
  upstreamFd : h.conn.upstreamFd = k.upstreamFd
  state : h.conn.state = .connectingUpstream
  active : h.worker.activeConns = w.activeConns
  opens : ∀ accepted, tableOps accepted k.upstreamFd h.actions = [.opened k.upstreamFd]

theorem Routed.closed_or_connected {w : Worker} {c : ProxyConn} {req : HttpReq}
    {k : ClientReadCalls} {handled : Handled} (h : Routed w c req k handled) :
    (¬ Forwarded w c req k ∧ ClosedBy w c k handled) ∨
    (Forwarded w c req k ∧ ConnectedBy w c k handled) := by
  cases h with
  | blocked hlisted =>
    refine .inl ⟨fun h => ?_, w, c.saveRequest req, _, rfl, rfl, rfl, rfl, fun _ => rfl⟩
    exact Bool.false_ne_true (h.unlisted.symm.trans hlisted)
  | limited hactive hunlisted hrefused =>
    refine .inl ⟨fun h => ?_, _, c.saveRequest req, _, rfl, hactive, rfl, rfl, fun _ => rfl⟩
    exact Bool.false_ne_true (hrefused.symm.trans h.admitted)
  | static hactive hunlisted hadmitted hstatic =>
    refine .inl ⟨fun h => ?_, _, c.saveRequest req, _, rfl, hactive, rfl, rfl, fun _ => rfl⟩
    exact Bool.false_ne_true (h.dynamic.symm.trans hstatic)
  | dropped hactive hdynamic hstopped hconn hbefore =>
    refine .inl ⟨hstopped, _, _, _, rfl, hactive, hconn.fd, hconn.upstreamFd, fun _ => ?_⟩
    obtain rfl | ⟨hfailed, host, port, rfl⟩ := hbefore
    · rfl
    · simp [tableOps, tableOp, handedOut, hfailed]
  | forwarded hactive hforwarded hconn =>
    refine .inr ⟨hforwarded, hconn.fd, hconn.upstreamFd, hconn.state, hactive, fun _ => ?_⟩
    have hopen := Int.not_lt.mpr hforwarded.connected
    simp [tableOps, tableOp, handedOut, hopen]

theorem handleClientRead_cases (w : Worker) (c : ProxyConn) (k : ClientReadCalls) :
    ClosedBy w c k (handleClientRead w c k) ∨
    (0 ≤ k.upstreamFd ∧ ConnectedBy w c k (handleClientRead w c k)) := by
  obtain ⟨c', hfd, hufd, he⟩ | ⟨bytes, hfits, _, hrouted⟩ := handleClientRead_ends w c k
  · exact .inl ⟨w, c', [], he, rfl, hfd, hufd, fun _ => rfl⟩
  · obtain ⟨_, hclosed⟩ | ⟨hforward, hconnected⟩ := hrouted.closed_or_connected
    · exact .inl hclosed
    · exact .inr ⟨hforward.connected, hconnected.fd, hconnected.upstreamFd, hconnected.state,
        hconnected.active, hconnected.opens⟩

/-! ## One slot -/

/-- The handler closes the upstream's descriptor itself before `close_client_conn` does. -/
def ClosesTwice (c : ProxyConn) (ev : UInt32) (k : EventCalls) : Prop :=
  (handlerFor c ev = some .upstreamWritable ∧ k.writable.soError ≠ 0) ∨
  (handlerFor c ev = some .upstreamReadable ∧ ∀ wouldBlock, k.readable.read ≠ .failed wouldBlock)

/-- The read of the upstream's socket fails, and not because it would block. -/
def ReadFails (c : ProxyConn) (ev : UInt32) (k : EventCalls) : Prop :=
  handlerFor c ev = some .upstreamReadable ∧ k.readable.read = .failed false

/-- What an event does to the slot it finds: `c` and the count of active connections
    before, `c'` and the count after, and what is opened and closed. -/
inductive SlotStep (c : ProxyConn) (active : Int) (ev : UInt32) (k : EventCalls) :
    ProxyConn → Int → List Op → Prop
  | kept (hquiet : ReadFails c ev k → c.upstreamFd < 0) : SlotStep c active ev k c active []
  | connected {c' : ProxyConn} (hhandler : handlerFor c ev = some .clientRead)
      (hopen : 0 ≤ k.clientRead.upstreamFd) (hfd : c'.fd = c.fd)
      (hufd : c'.upstreamFd = k.clientRead.upstreamFd) (hstate : c'.state = .connectingUpstream) :
      SlotStep c active ev k c' active [.opened k.clientRead.upstreamFd]
  | sent {c' : ProxyConn} (hhandler : handlerFor c ev = some .upstreamWritable) (hfd : c'.fd = c.fd)
      (hufd : c'.upstreamFd = c.upstreamFd) (hstate : c'.state = .readingUpstream) :
      SlotStep c active ev k c' active []
  | released {c' : ProxyConn} (hhandler : handlerFor c ev = some .clientRead) (hfd : c'.fd = 0)
      (hufd : c'.upstreamFd = -1) :
      SlotStep c active ev k c' (afterClose c active) (closesOf c.descriptors)
  | releasedTwice {c' : ProxyConn} (htwice : ClosesTwice c ev k) (hopen : 0 ≤ c.upstreamFd)
      (hfd : c'.fd = 0) (hufd : c'.upstreamFd = -1) :
      SlotStep c active ev k c' (afterClose c active)
        (.closed c.upstreamFd :: closesOf c.descriptors)
  | dropped {c' : ProxyConn} (hfails : ReadFails c ev k) (hopen : 0 ≤ c.upstreamFd) (hfd : c'.fd = 0)
      (hufd : c'.upstreamFd = -1) :
      SlotStep c active ev k c' active (closesOf [c.upstreamFd, c.fd])

theorem handleClientRead_step {w : Worker} {c : ProxyConn} {ev : UInt32} {k : EventCalls}
    (hh : handlerFor c ev = some .clientRead) :
    SlotStep c w.activeConns ev k (handleClientRead w c k.clientRead).conn
      (handleClientRead w c k.clientRead).worker.activeConns
      (tableOps k.accept.accepted k.clientRead.upstreamFd
        (handleClientRead w c k.clientRead).actions) := by
  obtain ⟨w', c', before, he, hactive, hfd, hufd, hops⟩ | ⟨hopen, hconn⟩ :=
    handleClientRead_cases w c k.clientRead
  · have hdesc : c'.descriptors = c.descriptors := by
      rw [ProxyConn.descriptors, ProxyConn.descriptors, hfd, hufd]
    have hafter : (closeClientConn w' c').worker.activeConns = afterClose c w.activeConns := by
      rw [afterClose, ← hactive, ← hfd]
      rfl
    rw [he]
    unfold Handled.after
    dsimp only
    rw [tableOps_append, hops, List.nil_append, closeClientConn_ops, hdesc, hafter]
    exact .released hh rfl rfl
  · rw [hconn.opens, hconn.active]
    exact .connected hh hopen hconn.fd hconn.upstreamFd hconn.state

theorem handleUpstreamWritable_step {w : Worker} {c : ProxyConn} {ev : UInt32} {k : EventCalls}
    (hh : handlerFor c ev = some .upstreamWritable) :
    SlotStep c w.activeConns ev k (handleUpstreamWritable w c k.writable).conn
      (handleUpstreamWritable w c k.writable).worker.activeConns
      (tableOps k.accept.accepted k.clientRead.upstreamFd
        (handleUpstreamWritable w c k.writable).actions) := by
  have hquiet : ReadFails c ev k → c.upstreamFd < 0 := by
    intro h
    rw [ReadFails, hh] at h
    cases h.1
  unfold handleUpstreamWritable
  dsimp only
  split
  · exact .kept hquiet
  rename_i hopen
  split
  · rename_i herr
    unfold Handled.after
    dsimp only
    rw [tableOps_append, closeClientConn_ops]
    exact .releasedTwice (.inl ⟨hh, herr⟩) (Int.not_lt.mp hopen) rfl rfl
  split
  · exact .sent hh rfl rfl rfl
  · exact .kept hquiet

theorem handleUpstreamReadable_step {w : Worker} {c : ProxyConn} {ev : UInt32} {k : EventCalls}
    (hh : handlerFor c ev = some .upstreamReadable) :
    SlotStep c w.activeConns ev k (handleUpstreamReadable w c k.readable).conn
      (handleUpstreamReadable w c k.readable).worker.activeConns
      (tableOps k.accept.accepted k.clientRead.upstreamFd
        (handleUpstreamReadable w c k.readable).actions) := by
  unfold handleUpstreamReadable
  dsimp only
  split
  · rename_i hclosed
    exact .kept fun _ => hclosed
  rename_i hopen
  have hle := Int.not_lt.mp hopen
  cases hread : k.readable.read with
  | data bytes hne hfits =>
    dsimp only [Handled.after]
    rw [tableOps_append, closeClientConn_ops]
    refine .releasedTwice (.inr ⟨hh, fun b hb => ?_⟩) hle rfl rfl
    rw [hread] at hb
    cases hb
  | eof =>
    dsimp only [Handled.after]
    rw [tableOps_append, closeClientConn_ops]
    refine .releasedTwice (.inr ⟨hh, fun b hb => ?_⟩) hle rfl rfl
    rw [hread] at hb
    cases hb
  | failed wouldBlock =>
    cases wouldBlock with
    | true =>
      refine .kept fun h => ?_
      rw [ReadFails, hread] at h
      cases h.2
    | false => exact .dropped ⟨hh, hread⟩ hle rfl rfl

/-- **What a handler does to its slot.** -/
theorem handleConn_step (w : Worker) (c : ProxyConn) (ev : UInt32) (k : EventCalls) :
    SlotStep c w.activeConns ev k (handleConn w c ev k).conn (handleConn w c ev k).worker.activeConns
      (tableOps k.accept.accepted k.clientRead.upstreamFd (handleConn w c ev k).actions) := by
  unfold handleConn
  cases hh : handlerFor c ev with
  | none =>
    refine .kept fun h => ?_
    rw [ReadFails, hh] at h
    cases h.1
  | some h =>
    cases h with
    | clientRead => exact handleClientRead_step hh
    | upstreamWritable => exact handleUpstreamWritable_step hh
    | upstreamReadable => exact handleUpstreamReadable_step hh

/-! ## One event -/

/-- What an event opens and closes. -/
def Event.ops (e : Event) (actions : List Action) : List Op :=
  tableOps e.calls.accept.accepted e.calls.clientRead.upstreamFd actions

/-- The slot the event acts on: the first free one for a connection that is let in, else
    the one that its descriptor is found in. -/
def EventLoop.slotFor (l : EventLoop) (e : Event) : Option Nat :=
  if e.fd = l.listenFd then
    if l.refuses e.calls.accept ∨ e.calls.accept.accepted < 0 then none
    else l.pool.slots.findIdx? ProxyConn.isFree
  else proxyGet l.pool e.fd

/-- What an event does to the event loop. -/
inductive LoopStep (l : EventLoop) (e : Event) : EventLoop → List Op → Prop
  | still (hslot : l.slotFor e = none) : LoopStep l e l []
  | forgot (hslot : l.slotFor e = none) (hlisten : e.fd = l.listenFd)
      (hlet : l.refuses e.calls.accept = false) (hopen : 0 ≤ e.calls.accept.accepted) :
      LoopStep l e l [.opened e.calls.accept.accepted]
  | admitted {l' : EventLoop} (i : Nat) (c c' : ProxyConn) (hlisten : e.fd = l.listenFd)
      (hslot : l.slotFor e = some i) (hget : l.pool.slots[i]? = some c) (hfree : c.fd = 0)
      (hopen : 0 ≤ e.calls.accept.accepted) (hfd : c'.fd = e.calls.accept.accepted)
      (hufd : c'.upstreamFd = -1) (hstate : c'.state = .readingReq)
      (hpool : l'.pool.slots = l.pool.slots.set i c') (hlistenFd : l'.listenFd = l.listenFd)
      (hactive : l'.worker.activeConns = l.worker.activeConns + 1) :
      LoopStep l e l' [.opened e.calls.accept.accepted]
  | handled {l' : EventLoop} {ops : List Op} (i : Nat) (c c' : ProxyConn) (hother : e.fd ≠ l.listenFd)
      (hslot : l.slotFor e = some i) (hget : l.pool.slots[i]? = some c)
      (hpool : l'.pool.slots = l.pool.slots.set i c') (hlistenFd : l'.listenFd = l.listenFd)
      (hstep : SlotStep c l.worker.activeConns e.ev e.calls c' l'.worker.activeConns ops) :
      LoopStep l e l' ops

theorem slotFor_listen {l : EventLoop} {e : Event} (hlisten : e.fd = l.listenFd) :
    l.slotFor e =
      if l.refuses e.calls.accept ∨ e.calls.accept.accepted < 0 then none
      else l.pool.slots.findIdx? ProxyConn.isFree :=
  if_pos hlisten

theorem slotFor_conn {l : EventLoop} {e : Event} (hother : e.fd ≠ l.listenFd) :
    l.slotFor e = proxyGet l.pool e.fd :=
  if_neg hother

theorem acceptConn_step {l : EventLoop} {e : Event} (hlisten : e.fd = l.listenFd) :
    LoopStep l e (acceptConn l e.calls.accept).1 (e.ops (acceptConn l e.calls.accept).2) := by
  have hslot := slotFor_listen hlisten
  unfold acceptConn
  split
  · rename_i hrefused
    rw [if_pos (.inl hrefused)] at hslot
    exact .still hslot
  rename_i hlet
  split
  · rename_i hfailed
    have hops : e.ops [.accept l.listenFd] = [] := by
      simp [Event.ops, tableOps, tableOp, handedOut, hfailed]
    rw [if_pos (.inr hfailed)] at hslot
    rw [hops]
    exact .still hslot
  rename_i hopen
  have hle := Int.not_lt.mp hopen
  rw [if_neg (not_or.mpr ⟨hlet, hopen⟩)] at hslot
  unfold proxyAlloc
  cases hfree : l.pool.slots.findIdx? ProxyConn.isFree with
  | none =>
    have hops : e.ops [.accept l.listenFd] = [.opened e.calls.accept.accepted] := by
      simp [Event.ops, tableOps, tableOp, handedOut, hopen]
    dsimp only
    rw [hops]
    exact .forgot (hslot.trans hfree) hlisten (Bool.eq_false_iff.mpr hlet) hle
  | some i =>
    obtain ⟨c, hget, _, hc⟩ := Slots.findIdx?_some hfree
    have hops (text : Bytes) (events : UInt32) : e.ops [.accept l.listenFd, .logError 1 text,
        .epollAdd e.calls.accept.accepted events] = [.opened e.calls.accept.accepted] := by
      simp [Event.ops, tableOps, tableOp, handedOut, hopen]
    dsimp only
    rw [hops]
    refine .admitted i c (.opened e.calls.accept
      { c with fd := e.calls.accept.accepted, state := .idle, upstreamFd := -1 }) hlisten
      (hslot.trans hfree) hget (eq_of_beq hc) hle rfl rfl rfl ?_ rfl rfl
    show (l.pool.slots.modify i _).modify i _ = _
    rw [List.modify_modify_eq, Slots.modify_eq_set hget]
    rfl

/-- **What an event does.** -/
theorem onEvent_step (l : EventLoop) (e : Event) :
    LoopStep l e (onEvent l e).1 (e.ops (onEvent l e).2) := by
  unfold onEvent
  split
  · rename_i hlisten
    exact acceptConn_step hlisten
  rename_i hother
  have hslot := slotFor_conn hother
  cases hfound : proxyGet l.pool e.fd with
  | none => exact .still (hslot.trans hfound)
  | some i =>
    obtain ⟨c, hget, _, _⟩ := Slots.findIdx?_some hfound
    dsimp only
    rw [hget]
    exact .handled i c (handleConn l.worker c e.ev e.calls).conn hother (hslot.trans hfound) hget
      (Slots.modify_eq_set hget _) rfl (handleConn_step l.worker c e.ev e.calls)

theorem onEvent_refused {l : EventLoop} {e : Event} (hlisten : e.fd = l.listenFd)
    (hrefuses : l.refuses e.calls.accept = true) : onEvent l e = (l, []) := by
  rw [onEvent, if_pos hlisten, acceptConn, if_pos hrefuses]

end NexusGateway
