import NexusGateway.Worker
import NexusGateway.Lib.Slots

/- The worker's event loop: the connection pool, the handlers of the upstream's
   socket and `on_event` (`worker.c`).

   The handlers follow the same plan as `handleClientRead`: the results of their system
   calls are arguments, and their calls come back as actions in the order of the
   source. `onEvent` finds the slot of a descriptor by number alone and runs the
   handler that the slot's state and the event's bits select (`handlerFor`). -/
namespace NexusGateway
open CString

/-! ## The upstream's socket -/

/-- What the calls of one `handle_upstream_writable` return: the socket's error and the
    write, of which at most the prepared bytes are taken. -/
structure UpstreamWritableCalls where
  soError : Int32
  written : Int
  deriving DecidableEq, Repr

/-- `handle_upstream_writable`. -/
def handleUpstreamWritable (w : Worker) (c : ProxyConn) (k : UpstreamWritableCalls) : Handled :=
  let ufd := c.upstreamFd
  if ufd < 0 then ⟨w, c, []⟩
  else if k.soError ≠ 0 then (closeClientConn w c).after [.close ufd, .epollDel ufd]
  else
    let write := .write ufd (c.reqBuf.bytes.take c.reqLen)
    -- whatever part of the request was taken, the rest is not written again
    if k.written > 0 then
      ⟨w, { c with state := .readingUpstream }, [write, .epollMod ufd epollIn]⟩
    else ⟨w, c, [write]⟩

/-- What the calls of one `handle_upstream_readable` return: the read, the write to the
    client, and the clock. -/
structure UpstreamReadableCalls where
  read : ReadResult 8191
  clientWritten : Int
  nowMs : UInt64
  deriving DecidableEq, Repr

/-- The connection once a piece of the response is in its buffer. -/
def ProxyConn.receiveResponse (c : ProxyConn) (bytes : Bytes) (h : bytes.length ≤ 8191) : ProxyConn :=
  { c with
    respBuf := c.respBuf.store (bytes ++ [0]) (by
      rw [List.length_append, List.length_singleton]; omega)
    respLen := bytes.length
    statusCode := 200 }

theorem response_written (c : ProxyConn) {bytes : Bytes} (hfits : bytes.length ≤ 8191) :
    (c.receiveResponse bytes hfits).respBuf.bytes.take (c.receiveResponse bytes hfits).respLen = bytes :=
  Buffer.take_store c.respBuf (by rw [List.length_append, List.length_singleton]; omega)

/-- The record of a response. -/
def ProxyConn.accessFull (c : ProxyConn) (nowMs : UInt64) : AccessFull where
  clientIp := c.clientIp
  clientPort := c.clientPort
  method := c.method
  path := c.path
  version := c.version
  statusCode := c.statusCode
  bytesSent := c.respLen
  userAgent := ascii "-"
  reqId := c.reqId
  upstreamAddr := ascii "127.0.0.1:19998"
  durationMs := nowMs - c.startMs

/-- `handle_upstream_readable`. -/
def handleUpstreamReadable (w : Worker) (c : ProxyConn) (k : UpstreamReadableCalls) : Handled :=
  let ufd := c.upstreamFd
  if ufd < 0 then ⟨w, c, []⟩
  else
    match k.read with
    | .data bytes _ hfits =>
      let c := c.receiveResponse bytes hfits
      -- one piece is the whole response: it is written once and everything is closed
      (closeClientConn w c).after
        [.write c.fd (c.respBuf.bytes.take c.respLen), .logAccessFull (c.accessFull k.nowMs),
          .close ufd, .epollDel ufd]
    | .eof => (closeClientConn w c).after [.close ufd, .epollDel ufd]
    | .failed true => ⟨w, c, []⟩
    -- the count of active connections stays
    | .failed false =>
      ⟨w, proxyFree c, [.close ufd, .epollDel ufd, .close c.fd, .epollDel c.fd]⟩

/-! ## The pool -/

/-- `PROXY_POOL_SIZE`. -/
def proxyPoolSize : Nat := 1024

/-- `g_proxy_pool`. -/
structure Pool where
  slots : List ProxyConn
  length_eq : slots.length = proxyPoolSize
  deriving DecidableEq, Repr

/-- A slot of zeros. -/
def ProxyConn.zero : ProxyConn where
  fd := 0
  state := .idle
  upstreamFd := 0
  reqBuf := .zero 4096
  reqLen := 0
  respBuf := .zero 8192
  respLen := 0
  clientIp := .empty
  clientPort := 0
  reqId := .zero size16_pos
  startMs := 0
  method := .zero size16_pos
  path := .zero size1024_pos
  version := .zero size16_pos
  statusCode := 0

/-- The pool as `nexus_worker_run` clears it. -/
def poolInit : Pool := ⟨List.replicate proxyPoolSize .zero, List.length_replicate⟩

/-- A change of one slot. -/
def Pool.modify (pool : Pool) (i : Nat) (f : ProxyConn → ProxyConn) : Pool where
  slots := pool.slots.modify i f
  length_eq := by rw [List.length_modify]; exact pool.length_eq

/-- No client descriptor stands in the slot. -/
def ProxyConn.isFree (c : ProxyConn) : Bool := c.fd == 0

/-- One of the slot's descriptors has this number. -/
def ProxyConn.records (fd : Int) (c : ProxyConn) : Bool := c.fd == fd || c.upstreamFd == fd

/-- `proxy_alloc`: the pool and the slot taken, if one is free. -/
def proxyAlloc (pool : Pool) (fd : Int) : Option (Pool × Nat) :=
  match pool.slots.findIdx? ProxyConn.isFree with
  | none => none
  | some i =>
    some (pool.modify i (fun c => { c with fd := fd, state := .idle, upstreamFd := -1 }), i)

/-- `proxy_get`. -/
def proxyGet (pool : Pool) (fd : Int) : Option Nat := pool.slots.findIdx? (ProxyConn.records fd)

/-! ## `on_event` -/

/-- The globals of a worker that its event loop uses. -/
structure EventLoop where
  worker : Worker
  pool : Pool
  listenFd : Int
  myGeneration : Int32
  deriving DecidableEq, Repr

/-- What the calls of an accept return: the two loads of the shared words, the
    descriptor, and the client's address when there is one. -/
structure AcceptCalls where
  shuttingDown : Int32
  drainGeneration : Int32
  accepted : Int
  clientIp : IpText
  clientPort : UInt16
  deriving DecidableEq, Repr

/-- What the calls of one `on_event` return, whichever handler it runs. -/
structure EventCalls where
  accept : AcceptCalls
  clientRead : ClientReadCalls
  writable : UpstreamWritableCalls
  readable : UpstreamReadableCalls

/-- Calls that find nothing to do. -/
def EventCalls.idle : EventCalls where
  accept := ⟨0, 0, -1, .empty, 0⟩
  clientRead := ⟨.failed true, 0, 0, 0, ⟨0, 0, 0⟩, .zero 4096, -1⟩
  writable := ⟨0, -1⟩
  readable := ⟨.failed true, -1, 0⟩

/-- A call of `on_event`: the descriptor, the event bits, and what the calls return. -/
structure Event where
  fd : Int
  ev : UInt32
  calls : EventCalls

/-- The connection is refused: a later generation is draining this worker. -/
def EventLoop.refuses (l : EventLoop) (k : AcceptCalls) : Bool :=
  k.shuttingDown != 0 && decide (k.drainGeneration > l.myGeneration)

/-- The slot of a connection just accepted. -/
def ProxyConn.opened (k : AcceptCalls) (c : ProxyConn) : ProxyConn :=
  { c with clientIp := k.clientIp, clientPort := k.clientPort, state := .readingReq }

/-- The branch of `on_event` for the listening descriptor. -/
def acceptConn (l : EventLoop) (k : AcceptCalls) : EventLoop × List Action :=
  if l.refuses k then (l, [])
  else if k.accepted < 0 then (l, [.accept l.listenFd])
  else
    match proxyAlloc l.pool k.accepted with
    -- the descriptor is kept open and forgotten
    | none => (l, [.accept l.listenFd])
    | some (pool, i) =>
      let active := l.worker.activeConns + 1
      let text := ascii "worker: accepted conn, active=" ++ ascii (toString active)
      ({ l with worker := { l.worker with activeConns := active }, pool := pool.modify i (.opened k) },
        [.accept l.listenFd, .logError 1 text, .epollAdd k.accepted epollIn])

/-- The handlers of a connection. -/
inductive Handler where
  | clientRead
  | upstreamWritable
  | upstreamReadable
  deriving DecidableEq, Repr

/-- The handler that the slot's state and the event's bits select. -/
def handlerFor (c : ProxyConn) (ev : UInt32) : Option Handler :=
  if c.state = .readingReq ∧ ev &&& epollIn ≠ 0 then some .clientRead
  else if c.state = .connectingUpstream ∧ (ev &&& epollOut ≠ 0 ∨ ev &&& epollIn ≠ 0) then
    some .upstreamWritable
  else if c.state = .readingUpstream ∧ ev &&& epollIn ≠ 0 then some .upstreamReadable
  else none

/-- The state that a handler serves. -/
def Handler.state : Handler → ConnState
  | .clientRead => .readingReq
  | .upstreamWritable => .connectingUpstream
  | .upstreamReadable => .readingUpstream

theorem handlerFor_state {c : ProxyConn} {ev : UInt32} {h : Handler} (hh : handlerFor c ev = some h) :
    c.state = h.state := by
  unfold handlerFor at hh
  split at hh
  · rename_i hs
    cases hh
    exact hs.1
  split at hh
  · rename_i hs
    cases hh
    exact hs.1
  split at hh
  · rename_i hs
    cases hh
    exact hs.1
  · cases hh

theorem handlerFor_connecting {c : ProxyConn} (h : c.state = .connectingUpstream) (ev : UInt32) :
    handlerFor c ev =
      if ev &&& epollOut ≠ 0 ∨ ev &&& epollIn ≠ 0 then some .upstreamWritable else none := by
  rw [handlerFor, h]
  simp

theorem handlerFor_awaiting {c : ProxyConn} (h : c.state = .readingUpstream) (ev : UInt32) :
    handlerFor c ev = if ev &&& epollIn ≠ 0 then some .upstreamReadable else none := by
  rw [handlerFor, h]
  simp

/-- The branch of `on_event` for a slot. -/
def handleConn (w : Worker) (c : ProxyConn) (ev : UInt32) (k : EventCalls) : Handled :=
  match handlerFor c ev with
  | some .clientRead => handleClientRead w c k.clientRead
  | some .upstreamWritable => handleUpstreamWritable w c k.writable
  | some .upstreamReadable => handleUpstreamReadable w c k.readable
  | none => ⟨w, c, []⟩

/-- `on_event`. -/
def onEvent (l : EventLoop) (e : Event) : EventLoop × List Action :=
  if e.fd = l.listenFd then acceptConn l e.calls.accept
  else
    match proxyGet l.pool e.fd with
    | none => (l, [])
    | some i =>
      match l.pool.slots[i]? with
      | none => (l, [])
      | some c =>
        let h := handleConn l.worker c e.ev e.calls
        ({ l with worker := h.worker, pool := l.pool.modify i (fun _ => h.conn) }, h.actions)

/-- The health checker's verdict on a node. -/
def setHealthy (u : Upstream) (i : Nat) (healthy : Bool) : Upstream :=
  { u with
    nodes := u.nodes.modify i (fun n => { n with healthy := healthy })
    nodes_le := by rw [List.length_modify]; exact u.nodes_le }

/-- What a worker's process does: its loop handles an event, or its health checker's
    thread judges a node. -/
inductive WorkerStep where
  | event (e : Event)
  | health (node : Nat) (healthy : Bool)

def EventLoop.step (l : EventLoop) : WorkerStep → EventLoop
  | .event e => (onEvent l e).1
  | .health node healthy =>
    { l with worker := { l.worker with upstream := setHealthy l.worker.upstream node healthy } }

/-- What an event leaves of the slots: at most one is changed, a free one when a connection is
    let in, else the one that is handled. -/
inductive SlotsAfter (l : EventLoop) (e : Event) : List ProxyConn → Prop
  | unchanged : SlotsAfter l e l.pool.slots
  | opened (i : Nat) (c : ProxyConn) (hlisten : e.fd = l.listenFd)
      (hslot : l.pool.slots.findIdx? ProxyConn.isFree = some i) (hget : l.pool.slots[i]? = some c)
      (hfree : c.isFree = true) :
      SlotsAfter l e (l.pool.slots.set i (.opened e.calls.accept
        { c with fd := e.calls.accept.accepted, state := .idle, upstreamFd := -1 }))
  | handled (i : Nat) (c : ProxyConn) (hother : e.fd ≠ l.listenFd)
      (hslot : proxyGet l.pool e.fd = some i) (hget : l.pool.slots[i]? = some c)
      (hrecords : c.records e.fd = true) :
      SlotsAfter l e (l.pool.slots.set i (handleConn l.worker c e.ev e.calls).conn)

theorem acceptConn_slots {l : EventLoop} {e : Event} (hlisten : e.fd = l.listenFd) :
    SlotsAfter l e (acceptConn l e.calls.accept).1.pool.slots := by
  unfold acceptConn proxyAlloc
  split
  · exact .unchanged
  split
  · exact .unchanged
  cases hslot : l.pool.slots.findIdx? ProxyConn.isFree with
  | none => exact .unchanged
  | some i =>
    obtain ⟨c, hget, _, hfree⟩ := Slots.findIdx?_some hslot
    have hset : (l.pool.slots.modify i (fun c =>
        { c with fd := e.calls.accept.accepted, state := .idle, upstreamFd := -1 })).modify i
          (.opened e.calls.accept) = l.pool.slots.set i (.opened e.calls.accept
        { c with fd := e.calls.accept.accepted, state := .idle, upstreamFd := -1 }) := by
      rw [List.modify_modify_eq, Slots.modify_eq_set hget]
      rfl
    show SlotsAfter l e ((l.pool.slots.modify i _).modify i _)
    rw [hset]
    exact .opened i c hlisten hslot hget hfree

/-- What an event does to the slots. -/
theorem onEvent_slots (l : EventLoop) (e : Event) : SlotsAfter l e (onEvent l e).1.pool.slots := by
  unfold onEvent
  split
  · rename_i hlisten
    exact acceptConn_slots hlisten
  rename_i hother
  cases hslot : proxyGet l.pool e.fd with
  | none => exact .unchanged
  | some i =>
    obtain ⟨c, hget, _, hrecords⟩ := Slots.findIdx?_some hslot
    dsimp only
    rw [hget]
    show SlotsAfter l e (l.pool.slots.modify i _)
    rw [Slots.modify_eq_set hget]
    exact .handled i c hother hslot hget hrecords

/-- The event loop as `nexus_worker_run` enters it. -/
structure EventLoop.Started (l : EventLoop) : Prop where
  pool : l.pool = poolInit
  active : l.worker.activeConns = 0

/-! ## One connection -/

/-- An event of a connection, with the worker it meets. -/
structure ConnEvent where
  worker : Worker
  ev : UInt32
  calls : EventCalls

/-- The events of a connection until it is closed: the actions of each, and what the
    connection is in the end. -/
def runConn (c : ProxyConn) : List ConnEvent → List (ConnEvent × List Action) × ProxyConn
  | [] => ([], c)
  | e :: es =>
    if c.isFree then ([], c)
    else
      let h := handleConn e.worker c e.ev e.calls
      let r := runConn h.conn es
      ((e, h.actions) :: r.1, r.2)

theorem runConn_free {c : ProxyConn} (hc : c.isFree = true) (es : List ConnEvent) :
    runConn c es = ([], c) := by
  cases es with
  | nil => rfl
  | cons e es =>
    rw [runConn]
    exact if_pos hc

theorem runConn_cons {c : ProxyConn} (hc : c.isFree = false) (e : ConnEvent) (es : List ConnEvent) :
    runConn c (e :: es) =
      ((e, (handleConn e.worker c e.ev e.calls).actions) ::
          (runConn (handleConn e.worker c e.ev e.calls).conn es).1,
        (runConn (handleConn e.worker c e.ev e.calls).conn es).2) := by
  rw [runConn, hc]
  rfl

end NexusGateway
