import NexusGateway.AccessLog
import NexusGateway.EventBatch
import NexusGateway.Lib.Components

/- A slot of the pool and the connections it has had.

   `proxy_free` leaves the state and the two data buffers of a slot as they are, and the
   serialised request is put together in an array that is not cleared either. Connections
   that agree in all fields but the buffers, and in the first `req_len` bytes of the first,
   are handled alike (`handleConn_alike`); a free slot of a run agrees with every other
   (`freeSlots_agree`). `slot_outputs_same`: whatever the pool has been through, a
   connection is handled in its slot as in any other worker's, up to the number of active
   connections that the error log is told. -/
namespace NexusGateway
open CString Components

/-! ## Connections that agree -/

/-- The connection with other contents in its buffers. -/
def ProxyConn.withBuffers (c : ProxyConn) (reqBuf : Buffer 4096) (respBuf : Buffer 8192) : ProxyConn :=
  { c with reqBuf := reqBuf, respBuf := respBuf }

/-- The connections differ in their buffers only, and not in what stands in
    `req_buf[0..req_len)`. -/
def ProxyConn.Agree (c c' : ProxyConn) : Prop :=
  ∃ reqBuf respBuf, c' = c.withBuffers reqBuf respBuf ∧ c'.prepared = c.prepared

theorem ProxyConn.Agree.fd {c c' : ProxyConn} (h : c.Agree c') : c'.fd = c.fd := by
  obtain ⟨_, _, rfl, _⟩ := h
  rfl

theorem ProxyConn.Agree.clientIp {c c' : ProxyConn} (h : c.Agree c') : c'.clientIp = c.clientIp := by
  obtain ⟨_, _, rfl, _⟩ := h
  rfl

theorem ProxyConn.Agree.accessText {c c' : ProxyConn} (h : c.Agree c') (tag : Bytes) (req : HttpReq) :
    accessText tag c' req = accessText tag c req := by
  obtain ⟨_, _, rfl, _⟩ := h
  rfl

/-- The record without the number in it. -/
def Action.uncounted : Action → Action
  | .logError level text => .logError level (text.takeWhile (· ≠ 61))
  | a => a

/-- What is done for two connections is the same, and the same to the numbers of active
    connections when those were. -/
structure SameActions (active active' : Int) (actions actions' : List Action) : Prop where
  uncounted : actions'.map Action.uncounted = actions.map Action.uncounted
  exactly : active' = active → actions' = actions

/-- A handler does the same for two connections. -/
structure Alike (active active' : Int) (h h' : Handled) : Prop where
  conn : h.conn.Agree h'.conn
  actions : SameActions active active' h.actions h'.actions

theorem sameActions_of_eq {active active' : Int} {actions actions' : List Action}
    (h : actions' = actions) : SameActions active active' actions actions' := by
  rw [h]
  exact ⟨rfl, fun _ => rfl⟩

theorem SameActions.append {active active' : Int} {before before' actions actions' : List Action}
    (hbefore : SameActions active active' before before')
    (h : SameActions active active' actions actions') :
    SameActions active active' (before ++ actions) (before' ++ actions') := by
  refine ⟨?_, fun hactive => ?_⟩
  · rw [List.map_append, List.map_append, hbefore.uncounted, h.uncounted]
  · rw [hbefore.exactly hactive, h.exactly hactive]

theorem Alike.after {active active' : Int} {h h' : Handled} (halike : Alike active active' h h')
    (before : List Action) : Alike active active' (h.after before) (h'.after before) :=
  ⟨halike.conn, (sameActions_of_eq rfl).append halike.actions⟩

theorem Alike.ite {active active' : Int} {p : Prop} [Decidable p] {h h' more more' : Handled}
    (hthen : Alike active active' h h') (helse : Alike active active' more more') :
    Alike active active' (if p then h else more) (if p then h' else more') := by
  by_cases hp : p
  · rwa [if_pos hp, if_pos hp]
  · rwa [if_neg hp, if_neg hp]

/-- What stands behind a `=` is cut off. -/
theorem uncounted_record {label : Bytes} (h : (61 : UInt8) ∈ label) (level : Nat) (n : Bytes) :
    (Action.logError level (label ++ n)).uncounted = (Action.logError level label).uncounted := by
  have hcut : (label ++ n).takeWhile (· ≠ 61) = label.takeWhile (· ≠ 61) := by
    induction label with
    | nil => cases h
    | cons b label ih =>
      obtain rfl | h := List.mem_cons.mp h
      · simp
      · simp only [List.cons_append, List.takeWhile_cons, ih h]
  rw [Action.uncounted, Action.uncounted, hcut]

theorem sameActions_record {label : Bytes} (h : (61 : UInt8) ∈ label) (active active' : Int)
    (level : Nat) (text : Int → Bytes) :
    SameActions active active' [.logError level (label ++ text active)]
      [.logError level (label ++ text active')] := by
  refine ⟨?_, fun hactive => by rw [hactive]⟩
  simp only [List.map_cons, List.map_nil, uncounted_record h]

/-! ## The handlers -/

theorem close_alike {w w' : Worker} {active active' : Int} (hw : w.activeConns = active)
    (hw' : w'.activeConns = active') {c c' : ProxyConn} (h : c.Agree c') :
    Alike active active' (closeClientConn w c) (closeClientConn w' c') := by
  subst hw hw'
  obtain ⟨reqBuf, respBuf, rfl, _⟩ := h
  refine ⟨⟨reqBuf, respBuf, rfl, rfl⟩, SameActions.append ?_ (sameActions_of_eq rfl)⟩
  show SameActions _ _ (if c.fd > 0 then _ else _) (if c.fd > 0 then _ else _)
  split
  · rename_i hfd
    have hlabel : (61 : UInt8) ∈ ascii "worker: closed conn, active=" := by decide +kernel
    have hrecord := sameActions_record hlabel w.activeConns w'.activeConns 1
      (fun active => ascii (toString (active - 1)))
    have hrest : SameActions w.activeConns w'.activeConns [.close c.fd, .epollDel c.fd]
        [.close c.fd, .epollDel c.fd] := sameActions_of_eq rfl
    simpa [hfd, ProxyConn.withBuffers] using hrecord.append hrest
  · exact sameActions_of_eq rfl

theorem connectUpstream_alike {w w' : Worker} {active active' : Int} (hw : w.activeConns = active)
    (hw' : w'.activeConns = active') {c c' : ProxyConn} (h : c.Agree c') (node : UpstreamNode)
    (ufd : Int) :
    Alike active active' (connectUpstream w c node ufd) (connectUpstream w' c' node ufd) := by
  unfold connectUpstream
  dsimp only
  split
  · exact .after (close_alike hw hw' h) _
  · obtain ⟨reqBuf, respBuf, rfl, hprepared⟩ := h
    exact ⟨⟨reqBuf, respBuf, rfl, hprepared⟩, sameActions_of_eq rfl⟩

theorem serialized_congr (req : HttpReq) {out out' : Bytes} (h : out'.length = out.length)
    (hout : out.length < 2 ^ 31) : serialized req out' = serialized req out := by
  by_cases hfit : (serialText req).length < out.length
  · have hlen := Nat.lt_trans hfit hout
    rw [(serialized_eq_some hlen).mpr ⟨rfl, hfit⟩, (serialized_eq_some hlen).mpr ⟨rfl, h ▸ hfit⟩]
  · have hfull := Nat.le_of_not_lt hfit
    rw [serialized, serialized, serialize_full hfull, serialize_full (h ▸ hfull)]
    rfl

theorem prepare_agree {c c' : ProxyConn} (h : c.Agree c') {text : Bytes} (hfits : text.length ≤ 4096) :
    (c.prepare text hfits).Agree (c'.prepare text hfits) := by
  obtain ⟨reqBuf, respBuf, rfl, _⟩ := h
  exact ⟨reqBuf.store text hfits, respBuf, rfl, by rw [prepared_prepare, prepared_prepare]⟩

theorem saveReqId_agree {c c' : ProxyConn} (h : c.Agree c') (req : HttpReq) :
    (c.saveReqId req).Agree (c'.saveReqId req) := by
  obtain ⟨reqBuf, respBuf, rfl, hprepared⟩ := h
  unfold ProxyConn.saveReqId
  split
  · exact ⟨reqBuf, respBuf, rfl, hprepared⟩
  · exact ⟨reqBuf, respBuf, rfl, hprepared⟩

/-- The worker with another count. -/
def Worker.counting (w : Worker) (active : Int) : Worker := { w with activeConns := active }

/-- The calls with another content of the local buffer. -/
def ClientReadCalls.onStack (k : ClientReadCalls) (buf : Buffer 4096) : ClientReadCalls :=
  { k with serializedReq := buf }

theorem forwardRequest_alike (w : Worker) (active : Int) {c c' : ProxyConn} (h : c.Agree c')
    (req : HttpReq) (node : UpstreamNode) (k : ClientReadCalls) (buf : Buffer 4096) :
    Alike w.activeConns active (forwardRequest w c req node k)
      (forwardRequest (w.counting active) c' req node (k.onStack buf)) := by
  have hrewrite : workerRewrite (w.counting active) c' req k.draw = workerRewrite w c req k.draw := by
    obtain ⟨_, _, rfl, _⟩ := h
    rfl
  have hlen : buf.bytes.length = k.serializedReq.bytes.length :=
    buf.length_eq.trans k.serializedReq.length_eq.symm
  have hout : k.serializedReq.bytes.length < 2 ^ 31 := by
    rw [k.serializedReq.length_eq]
    decide
  have hsame : serialized (workerRewrite (w.counting active) c' req (k.onStack buf).draw)
      (k.onStack buf).serializedReq.bytes =
      serialized (workerRewrite w c req k.draw) k.serializedReq.bytes := by
    show serialized (workerRewrite (w.counting active) c' req k.draw) buf.bytes = _
    rw [hrewrite]
    exact serialized_congr _ hlen hout
  cases htext : serialized (workerRewrite w c req k.draw) k.serializedReq.bytes with
  | none =>
    rw [forwardRequest_none htext, forwardRequest_none (hsame.trans htext)]
    exact close_alike (by rfl) (by rfl) h
  | some text =>
    rw [forwardRequest_some htext, forwardRequest_some (hsame.trans htext)]
    have hconn : ((c.prepare text (serialized_fits htext)).saveReqId
        (workerRewrite w c req k.draw)).Agree ((c'.prepare text (serialized_fits htext)).saveReqId
          (workerRewrite (w.counting active) c' req k.draw)) := by
      rw [hrewrite]
      exact saveReqId_agree (prepare_agree h (serialized_fits htext)) _
    exact connectUpstream_alike (by rfl) (by rfl) hconn node k.upstreamFd

theorem routeRequest_alike (w : Worker) (active : Int) {c c' : ProxyConn} (h : c.Agree c')
    (req : HttpReq) (k : ClientReadCalls) (buf : Buffer 4096) :
    Alike w.activeConns active (routeRequest w c req k)
      (routeRequest (w.counting active) c' req (k.onStack buf)) := by
  have hsaved : (c.saveRequest req).Agree (c'.saveRequest req) := by
    obtain ⟨reqBuf, respBuf, rfl, hprepared⟩ := h
    exact ⟨reqBuf, respBuf, rfl, hprepared⟩
  unfold routeRequest
  dsimp only
  generalize c.saveRequest req = saved, c'.saveRequest req = saved' at hsaved ⊢
  have hip : saved'.clientIp = saved.clientIp := hsaved.clientIp
  have hfd : saved'.fd = saved.fd := hsaved.fd
  rw [hip, hfd, hsaved.accessText, hsaved.accessText, hsaved.accessText]
  -- the tests are of the same lists and limits, address and path
  dsimp only [Worker.counting, ClientReadCalls.onStack]
  refine .ite (.after (close_alike (by rfl) (by rfl) hsaved) _) ?_
  refine .ite (.after (close_alike (by rfl) (by rfl) hsaved) _) ?_
  refine .ite (.after (close_alike (by rfl) (by rfl) hsaved) _) ?_
  cases (upstreamPick w.upstream).2 with
  | none => exact close_alike (by rfl) (by rfl) hsaved
  | some node =>
    exact forwardRequest_alike
      { w with
        rl := (rlCheck w.rl saved.clientIp.text k.rlCreatedMs k.rlCheckMs).1
        upstream := (upstreamPick w.upstream).1 } active hsaved req node k buf

theorem receive_agree {c c' : ProxyConn} (h : c.Agree c') {bytes : Bytes} (hfits : bytes.length ≤ 4095)
    (now : UInt64) : (c.receive bytes hfits now).Agree (c'.receive bytes hfits now) := by
  obtain ⟨reqBuf, respBuf, rfl, _⟩ := h
  refine ⟨reqBuf.store (bytes ++ [0]) ?_, respBuf, rfl, by rw [prepared_receive, prepared_receive]⟩
  rw [List.length_append, List.length_singleton]
  omega

theorem handleClientRead_alike (w : Worker) (active : Int) {c c' : ProxyConn} (h : c.Agree c')
    (k : ClientReadCalls) (buf : Buffer 4096) :
    Alike w.activeConns active (handleClientRead w c k)
      (handleClientRead (w.counting active) c' (k.onStack buf)) := by
  cases hread : k.read with
  | data bytes hne hfits =>
    have hreceived := receive_agree h hfits k.startMs
    have hread' : (k.onStack buf).read = .data bytes hne hfits := hread
    rw [handleClientRead_data hread, handleClientRead_data hread']
    split
    · exact close_alike (by rfl) (by rfl) hreceived
    · exact routeRequest_alike w active hreceived _ k buf
  | eof =>
    unfold handleClientRead
    rw [show (k.onStack buf).read = .eof from hread, hread]
    exact close_alike (by rfl) (by rfl) h
  | failed wouldBlock =>
    unfold handleClientRead
    rw [show (k.onStack buf).read = .failed wouldBlock from hread, hread]
    exact close_alike (by rfl) (by rfl) h

theorem ProxyConn.Agree.upstreamFd {c c' : ProxyConn} (h : c.Agree c') :
    c'.upstreamFd = c.upstreamFd := by
  obtain ⟨_, _, rfl, _⟩ := h
  rfl

theorem handleUpstreamWritable_alike (w : Worker) (active : Int) {c c' : ProxyConn} (h : c.Agree c')
    (k : UpstreamWritableCalls) :
    Alike w.activeConns active (handleUpstreamWritable w c k)
      (handleUpstreamWritable (w.counting active) c' k) := by
  have hclose : Alike w.activeConns active (closeClientConn w c)
      (closeClientConn (w.counting active) c') :=
    close_alike (by rfl) (by rfl) h
  obtain ⟨reqBuf, respBuf, rfl, hprepared⟩ := h
  unfold handleUpstreamWritable
  dsimp only
  have hwrite : (c.withBuffers reqBuf respBuf).reqBuf.bytes.take (c.withBuffers reqBuf respBuf).reqLen =
      c.reqBuf.bytes.take c.reqLen := hprepared
  rw [hwrite]
  refine .ite ⟨⟨reqBuf, respBuf, rfl, hprepared⟩, sameActions_of_eq rfl⟩ ?_
  refine .ite (hclose.after _) ?_
  exact .ite ⟨⟨reqBuf, respBuf, rfl, hprepared⟩, sameActions_of_eq rfl⟩
    ⟨⟨reqBuf, respBuf, rfl, hprepared⟩, sameActions_of_eq rfl⟩

theorem receiveResponse_agree {c c' : ProxyConn} (h : c.Agree c') {bytes : Bytes}
    (hfits : bytes.length ≤ 8191) : (c.receiveResponse bytes hfits).Agree (c'.receiveResponse bytes hfits) := by
  obtain ⟨reqBuf, respBuf, rfl, hprepared⟩ := h
  refine ⟨reqBuf, respBuf.store (bytes ++ [0]) ?_, rfl, hprepared⟩
  rw [List.length_append, List.length_singleton]
  omega

theorem handleUpstreamReadable_alike (w : Worker) (active : Int) {c c' : ProxyConn} (h : c.Agree c')
    (k : UpstreamReadableCalls) :
    Alike w.activeConns active (handleUpstreamReadable w c k)
      (handleUpstreamReadable (w.counting active) c' k) := by
  unfold handleUpstreamReadable
  dsimp only
  rw [h.upstreamFd]
  refine .ite ⟨h, sameActions_of_eq rfl⟩ ?_
  cases k.read with
  | data bytes hne hfits =>
    have hreceived := receiveResponse_agree h hfits
    have hclose : Alike w.activeConns active (closeClientConn w (c.receiveResponse bytes hfits))
        (closeClientConn (w.counting active) (c'.receiveResponse bytes hfits)) :=
      close_alike (by rfl) (by rfl) hreceived
    have hrecord : (c'.receiveResponse bytes hfits).accessFull k.nowMs =
        (c.receiveResponse bytes hfits).accessFull k.nowMs := by
      obtain ⟨_, _, rfl, _⟩ := h
      rfl
    dsimp only
    rw [response_written, response_written, hrecord, hreceived.fd]
    exact hclose.after _
  | eof => exact .after (close_alike (by rfl) (by rfl) h) _
  | failed wouldBlock =>
    cases wouldBlock with
    | true => exact ⟨h, sameActions_of_eq rfl⟩
    | false =>
      obtain ⟨reqBuf, respBuf, rfl, _⟩ := h
      exact ⟨⟨reqBuf, respBuf, rfl, rfl⟩, sameActions_of_eq rfl⟩

/-- The same event of a connection: its bits, what its calls return, and what the worker shares,
    but for the number of active connections. What stands in the local buffer may differ. -/
structure ConnEvent.Same (e e' : ConnEvent) : Prop where
  worker : ∃ active, e'.worker = e.worker.counting active
  ev : e'.ev = e.ev
  clientRead : ∃ buf, e'.calls.clientRead = e.calls.clientRead.onStack buf
  writable : e'.calls.writable = e.calls.writable
  readable : e'.calls.readable = e.calls.readable

theorem handlerFor_agree {c c' : ProxyConn} (h : c.Agree c') (ev : UInt32) :
    handlerFor c' ev = handlerFor c ev := by
  obtain ⟨_, _, rfl, _⟩ := h
  rfl

/-- **Connections that agree are handled alike** at the same event. -/
theorem handleConn_alike {c c' : ProxyConn} (h : c.Agree c') {e e' : ConnEvent} (he : e.Same e') :
    Alike e.worker.activeConns e'.worker.activeConns (handleConn e.worker c e.ev e.calls)
      (handleConn e'.worker c' e'.ev e'.calls) := by
  obtain ⟨active, hworker⟩ := he.worker
  obtain ⟨buf, hread⟩ := he.clientRead
  unfold handleConn
  rw [hworker, he.ev, hread, he.writable, he.readable, handlerFor_agree h]
  cases handlerFor c e.ev with
  | none => exact ⟨h, sameActions_of_eq rfl⟩
  | some handler =>
    cases handler with
    | clientRead => exact handleClientRead_alike e.worker active h e.calls.clientRead buf
    | upstreamWritable => exact handleUpstreamWritable_alike e.worker active h e.calls.writable
    | upstreamReadable => exact handleUpstreamReadable_alike e.worker active h e.calls.readable

/-! ## A connection in its slot -/

/-- What is done at an event, the number of active connections it meets, and what is left in
    `req_buf[0..req_len)`. -/
structure Output where
  active : Int
  actions : List Action
  prepared : Bytes
  deriving DecidableEq, Repr

/-- The same is left prepared, and the same is done but for the numbers of active connections,
    and for these too when they were the same. -/
structure Output.Same (o o' : Output) : Prop where
  prepared : o'.prepared = o.prepared
  actions : SameActions o.active o'.active o.actions o'.actions

/-- A connection by itself. -/
def ProxyConn.react (c : ProxyConn) (e : ConnEvent) : ProxyConn × Output :=
  let h := handleConn e.worker c e.ev e.calls
  (h.conn, ⟨e.worker.activeConns, h.actions, h.conn.prepared⟩)

theorem ProxyConn.Agree.prepared {c c' : ProxyConn} (h : c.Agree c') : c'.prepared = c.prepared := by
  obtain ⟨_, _, _, hprepared⟩ := h
  exact hprepared

theorem react_same {c c' : ProxyConn} {e e' : ConnEvent} (h : c.Agree c') (he : e.Same e') :
    (c.react e).1.Agree (c'.react e').1 ∧ (c.react e).2.Same (c'.react e').2 := by
  have halike := handleConn_alike h he
  exact ⟨halike.conn, halike.conn.prepared, halike.actions⟩

/-- What the loop does at an event, and what it leaves prepared in the slot. -/
def EventLoop.outputAt (l : EventLoop) (e : Event) (i : Nat) : Output where
  active := l.worker.activeConns
  actions := (onEvent l e).2
  prepared := ((onEvent l e).1.pool.slots[i]?).elim [] ProxyConn.prepared

/-- The slot has a client. -/
def EventLoop.occupied (i : Nat) (l : EventLoop) : Bool :=
  (l.pool.slots[i]?).any (fun c => !c.isFree)

/-- The event of the slot's connection that a step is, if it is one. -/
def EventLoop.ownEvent (i : Nat) (l : EventLoop) : WorkerStep → Option (ConnEvent × Output)
  | .event e =>
    if e.fd ≠ l.listenFd ∧ proxyGet l.pool e.fd = some i then
      some (⟨l.worker, e.ev, e.calls⟩, l.outputAt e i)
    else none
  | .health _ _ => none

/-- A connection's own events: those handled for its slot, until that is free again. -/
def ownEvents (i : Nat) (l : EventLoop) (steps : List WorkerStep) : List ConnEvent :=
  (ownRun EventLoop.step (EventLoop.occupied i) (EventLoop.ownEvent i) l steps).map Prod.fst

/-- What is done at them. -/
def ownOutputs (i : Nat) (l : EventLoop) (steps : List WorkerStep) : List Output :=
  (ownRun EventLoop.step (EventLoop.occupied i) (EventLoop.ownEvent i) l steps).map Prod.snd

theorem onEvent_own {l : EventLoop} {e : Event} {i : Nat} {c : ProxyConn} (hother : e.fd ≠ l.listenFd)
    (hslot : proxyGet l.pool e.fd = some i) (hget : l.pool.slots[i]? = some c) :
    (onEvent l e).1.pool.slots[i]? = some (handleConn l.worker c e.ev e.calls).conn ∧
    (onEvent l e).2 = (handleConn l.worker c e.ev e.calls).actions := by
  unfold onEvent
  rw [if_neg hother, hslot]
  dsimp only
  rw [hget]
  refine ⟨?_, rfl⟩
  show (l.pool.slots.modify i _)[i]? = _
  rw [Slots.modify_eq_set hget, List.getElem?_set_self (List.getElem?_eq_some_iff.mp hget).1]

theorem occupied_iff {l : EventLoop} {i : Nat} {c : ProxyConn} (hget : l.pool.slots[i]? = some c) :
    l.occupied i = true ↔ c.isFree = false := by
  simp [EventLoop.occupied, hget]

theorem onEvent_others {l : EventLoop} {e : Event} {i : Nat} {c : ProxyConn}
    (hget : l.pool.slots[i]? = some c) (hopen : c.isFree = false)
    (hown : ¬ (e.fd ≠ l.listenFd ∧ proxyGet l.pool e.fd = some i)) :
    (onEvent l e).1.pool.slots[i]? = some c := by
  have hafter := onEvent_slots l e
  generalize (onEvent l e).1.pool.slots = slots at hafter ⊢
  cases hafter with
  | unchanged => exact hget
  | opened j c' _ _ hget' hfree =>
    have hne : j ≠ i := by
      rintro rfl
      cases hget.symm.trans hget'
      exact Bool.false_ne_true (hopen.symm.trans hfree)
    rwa [List.getElem?_set_ne hne]
  | handled j c' hother hslot _ _ =>
    have hne : j ≠ i := by
      rintro rfl
      exact hown ⟨hother, hslot⟩
    rwa [List.getElem?_set_ne hne]

/-- The loop lets a slot's connection be, but for its own events. -/
theorem slot_alone (i : Nat) : Alone EventLoop.step (EventLoop.occupied i) (EventLoop.ownEvent i)
    ProxyConn.react (fun l c => l.pool.slots[i]? = some c) where
  own_event := by
    intro l c a e o hget hhere hown
    cases a with
    | event ev =>
      rw [EventLoop.ownEvent] at hown
      split at hown
      · rename_i hdispatched
        cases hown
        obtain ⟨hnext, hactions⟩ := onEvent_own hdispatched.1 hdispatched.2 hget
        refine ⟨hnext, ?_⟩
        rw [EventLoop.outputAt, hnext, hactions]
        rfl
      · cases hown
    | health => cases hown
  other := by
    intro l c a hget hhere hown
    cases a with
    | event ev =>
      rw [EventLoop.ownEvent] at hown
      split at hown
      · cases hown
      · rename_i hothers
        exact onEvent_others hget ((occupied_iff hget).mp hhere) hothers
    | health => exact hget

/-! ## Free slots -/

/-- The connection as it is let in. -/
def ProxyConn.entered (k : AcceptCalls) (c : ProxyConn) : ProxyConn :=
  .opened k { c with fd := k.accepted, state := .idle, upstreamFd := -1 }

/-- A connection that is let in here finds the contents of the buffers and nothing else. -/
def ProxyConn.Cleared (c : ProxyConn) : Prop :=
  ∀ k, c.entered k = (ProxyConn.zero.entered k).withBuffers c.reqBuf c.respBuf

/-- A free slot is cleared and no descriptor is found in it. -/
structure FreeCleared (c : ProxyConn) : Prop where
  upstream : c.isFree = true → c.upstreamFd ≤ 0
  cleared : c.isFree = true → c.Cleared

theorem entered_agree {c c' : ProxyConn} (hc : c.Cleared) (hc' : c'.Cleared) (k : AcceptCalls) :
    (c.entered k).Agree (c'.entered k) := by
  rw [hc k, hc' k]
  exact ⟨c'.reqBuf, c'.respBuf, rfl, rfl⟩

theorem freeCleared_proxyFree (c : ProxyConn) : FreeCleared (proxyFree c) :=
  ⟨fun _ => (by decide : (-1 : Int) ≤ 0), fun _ _ => rfl⟩

theorem opened_cleared {c : ProxyConn} (k : AcceptCalls) (hfree : c.isFree = true)
    (hc : FreeCleared c) : FreeCleared (c.entered k) :=
  ⟨fun _ => (by decide : (-1 : Int) ≤ 0), fun _ => hc.cleared hfree⟩

theorem handled_cleared {c : ProxyConn} {fd : Int} (w : Worker) (ev : UInt32) (k : EventCalls)
    (hpos : 0 < fd) (hrecords : c.records fd = true) (hc : FreeCleared c) :
    FreeCleared (handleConn w c ev k).conn := by
  have hopen := open_of_records hpos hrecords hc.upstream
  obtain ⟨c', hfreed⟩ | ⟨hfd, _⟩ := handleConn_leaves w c ev k
  · rw [hfreed]
    exact freeCleared_proxyFree c'
  · have hstill := isFree_of_fd hfd hopen
    exact ⟨fun hfree => absurd (hstill.symm.trans hfree) Bool.false_ne_true,
      fun hfree => absurd (hstill.symm.trans hfree) Bool.false_ne_true⟩

/-- Every free slot of a run is cleared. -/
theorem run_freeCleared {l : EventLoop} (hl : l.Started) {steps : List WorkerStep}
    (hsteps : ∀ a ∈ steps, a.OnPositive) :
    ∀ c ∈ (steps.foldl EventLoop.step l).pool.slots, FreeCleared c :=
  slots_keep opened_cleared handled_cleared steps
    (started_slots hl ⟨fun _ => by decide, fun _ _ => rfl⟩) hsteps

/-! ## Connections let in after different histories -/

theorem admits_slot {l : EventLoop} {e : Event} {i : Nat} (hadmits : l.admits e = some i) :
    ∃ c ∈ l.pool.slots, c.isFree = true ∧
      (onEvent l e).1.pool.slots[i]? = some (c.entered e.calls.accept) ∧
      (onEvent l e).2 = [.accept e.fd] ++ ([.logError 1 (ascii "worker: accepted conn, active=" ++
        ascii (toString (l.worker.activeConns + 1)))] ++ [.epollAdd e.calls.accept.accepted epollIn]) := by
  unfold EventLoop.admits at hadmits
  split at hadmits
  · rename_i hlisten
    rw [slotFor_listen hlisten] at hadmits
    split at hadmits
    · cases hadmits
    rename_i hlet
    obtain ⟨hlet, hopen⟩ := not_or.mp hlet
    obtain ⟨c, hget, _, hfree⟩ := Slots.findIdx?_some hadmits
    unfold onEvent acceptConn proxyAlloc
    rw [if_pos hlisten, if_neg hlet, if_neg hopen, hadmits, hlisten]
    refine ⟨c, List.mem_of_getElem? hget, hfree, ?_, rfl⟩
    have hlt := (List.getElem?_eq_some_iff.mp hget).1
    show ((l.pool.slots.modify i _).modify i _)[i]? = _
    rw [List.modify_modify_eq, Slots.modify_eq_set hget, List.getElem?_set_self hlt]
    rfl
  · cases hadmits

/-- **Whatever the pool has been through.** For every worker as it enters its loop, every two
    runs of events on positive descriptors, every event that lets a connection into the same
    slot after both, and everything that comes then: when the connection's own events are
    the same, with what their calls return and what the worker shares at each, the same
    bytes are prepared, and the same calls and records are made for it; but the records of
    its acceptance and of its end give the number of active connections, which is the
    same where the worker's count is. -/
theorem slot_outputs_same {l : EventLoop} (hl : l.Started) {before before' : List WorkerStep}
    (hbefore : ∀ a ∈ before, a.OnPositive) (hbefore' : ∀ a ∈ before', a.OnPositive) {e : Event}
    {i : Nat} (hadmits : (before.foldl EventLoop.step l).admits e = some i)
    (hadmits' : (before'.foldl EventLoop.step l).admits e = some i) {after after' : List WorkerStep}
    (hown : List.Forall₂ ConnEvent.Same
      (ownEvents i (onEvent (before.foldl EventLoop.step l) e).1 after)
      (ownEvents i (onEvent (before'.foldl EventLoop.step l) e).1 after')) :
    ((before.foldl EventLoop.step l).outputAt e i).Same
      ((before'.foldl EventLoop.step l).outputAt e i) ∧
    List.Forall₂ Output.Same (ownOutputs i (onEvent (before.foldl EventLoop.step l) e).1 after)
      (ownOutputs i (onEvent (before'.foldl EventLoop.step l) e).1 after') := by
  obtain ⟨c, hmem, hfree, hget, hactions⟩ := admits_slot hadmits
  obtain ⟨c', hmem', hfree', hget', hactions'⟩ := admits_slot hadmits'
  have hcleared := (run_freeCleared hl hbefore c hmem).cleared hfree
  have hcleared' := (run_freeCleared hl hbefore' c' hmem').cleared hfree'
  have hagree := entered_agree hcleared hcleared' e.calls.accept
  refine ⟨⟨?_, ?_⟩, ownRun_agree (slot_alone i) react_same hget hget' hagree hown⟩
  · dsimp only [EventLoop.outputAt]
    rw [hget, hget']
    exact hagree.prepared
  · dsimp only [EventLoop.outputAt]
    rw [hactions, hactions']
    have hlabel : (61 : UInt8) ∈ ascii "worker: accepted conn, active=" := by decide +kernel
    have hrecord := sameActions_record hlabel (before.foldl EventLoop.step l).worker.activeConns
      (before'.foldl EventLoop.step l).worker.activeConns 1
      (fun active => ascii (toString (active + 1)))
    exact (sameActions_of_eq rfl).append (hrecord.append (sameActions_of_eq rfl))

/-- A read from the client at `fd` of bytes that are no request. -/
def brokenEvent (fd : Int) : Event :=
  ⟨fd, epollIn, { EventCalls.idle with
    clientRead := sampleRead (ascii "GET /private?key=1 ") (by decide +kernel) }⟩

/-- A client whose bytes stay in the first slot. -/
def brokenSteps : List WorkerStep := [.event (acceptEvent 7), .event (brokenEvent 7)]

theorem ownEvents_single {i : Nat} {l : EventLoop} {e : Event} (hhere : l.occupied i = true)
    (hown : e.fd ≠ l.listenFd ∧ proxyGet l.pool e.fd = some i) :
    ownEvents i l [.event e] = [⟨l.worker, e.ev, e.calls⟩] := by
  simp [ownEvents, ownRun, hhere, EventLoop.ownEvent, hown]

theorem slot_outputs_same_broken :
    (sampleLoop.outputAt (acceptEvent 9) 0).Same
      ((brokenSteps.foldl EventLoop.step sampleLoop).outputAt (acceptEvent 9) 0) ∧
    List.Forall₂ Output.Same
      (ownOutputs 0 (onEvent sampleLoop (acceptEvent 9)).1 [.event (requestEvent 9 8)])
      (ownOutputs 0 (onEvent (brokenSteps.foldl EventLoop.step sampleLoop) (acceptEvent 9)).1
        [.event (requestEvent 9 8)]) := by
  have hpositive : ∀ a ∈ brokenSteps, a.OnPositive := by
    intro a ha
    simp only [brokenSteps, List.mem_cons, List.not_mem_nil, or_false] at ha
    obtain rfl | rfl := ha
    · show (0 : Int) < 5
      decide
    · show (0 : Int) < 7
      decide
  have hworker : (onEvent (brokenSteps.foldl EventLoop.step sampleLoop) (acceptEvent 9)).1.worker =
      (onEvent sampleLoop (acceptEvent 9)).1.worker.counting 1 := by
    decide +kernel
  refine @slot_outputs_same sampleLoop sampleLoop_started [] brokenSteps (fun a ha => by cases ha)
    hpositive (acceptEvent 9) 0 (by decide +kernel) (by decide +kernel) [.event (requestEvent 9 8)]
    [.event (requestEvent 9 8)] ?_
  rw [List.foldl_nil, ownEvents_single (by decide +kernel) (by decide +kernel),
    ownEvents_single (by decide +kernel) (by decide +kernel), hworker]
  exact .cons ⟨⟨1, rfl⟩, rfl, ⟨_, rfl⟩, rfl, rfl⟩ .nil

/-- Another client is still there when the first slot is free again. -/
def crowdedSteps : List WorkerStep :=
  [.event (acceptEvent 7), .event (acceptEvent 8), .event (brokenEvent 7)]

/-- Everything but the count is as it was at first, and the record of the acceptance is
    another. -/
theorem acceptance_logs_others :
    sampleLoop.admits (acceptEvent 9) = some 0 ∧
    (crowdedSteps.foldl EventLoop.step sampleLoop).admits (acceptEvent 9) = some 0 ∧
    (crowdedSteps.foldl EventLoop.step sampleLoop).worker = sampleLoop.worker.counting 1 ∧
    (sampleLoop.outputAt (acceptEvent 9) 0).actions =
      [.accept 5, .logError 1 (ascii "worker: accepted conn, active=1"), .epollAdd 9 epollIn] ∧
    ((crowdedSteps.foldl EventLoop.step sampleLoop).outputAt (acceptEvent 9) 0).actions =
      [.accept 5, .logError 1 (ascii "worker: accepted conn, active=2"), .epollAdd 9 epollIn] ∧
    (sampleLoop.outputAt (acceptEvent 9) 0).actions ≠
      ((crowdedSteps.foldl EventLoop.step sampleLoop).outputAt (acceptEvent 9) 0).actions := by
  decide +kernel

end NexusGateway
