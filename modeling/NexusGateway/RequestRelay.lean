import NexusGateway.ResponseRelay

/- What an upstream is sent of a request.

   A connection that has got its upstream's socket writes the request on the first event
   that lets it, on either descriptor. Any write that takes a byte is the only one: the
   connection goes on to wait for the response, whatever is left. So the upstream has the
   whole request by then exactly when that write takes all of it (`request_sent_iff`);
   before it, the upstream has nothing. -/
namespace NexusGateway
open CString

/-- The connection has its upstream's socket and a request for it. -/
structure ProxyConn.Connects (c : ProxyConn) : Prop where
  state : c.state = .connectingUpstream
  client : 0 < c.fd
  upstream : 0 ≤ c.upstreamFd

/-- What the upstream's socket has taken of the connection's writes. -/
def sentUpstream (c : ProxyConn) (es : List ConnEvent) : Bytes :=
  (runConn c es).1.flatMap (fun p => taken c.upstreamFd p.1.calls.writable.written p.2)

theorem ProxyConn.Connects.not_free {c : ProxyConn} (hc : c.Connects) : c.isFree = false :=
  beq_eq_false_iff_ne.mpr (Int.ne_of_gt hc.client)

/-- What an event does to a connection that has not written its request, `cfd` being its
    upstream's socket. -/
inductive RequestStep (c : ProxyConn) (e : ConnEvent) (h : Handled) : Prop
  | kept (hconn : h.conn = c)
      (htaken : taken c.upstreamFd e.calls.writable.written h.actions = [])
  | closed (hfree : h.conn.isFree = true) (hstate : h.conn.state = .connectingUpstream)
      (htaken : taken c.upstreamFd e.calls.writable.written h.actions = [])
  | wrote (hpos : 0 < e.calls.writable.written)
      (hconn : h.conn = { c with state := .readingUpstream })
      (htaken : taken c.upstreamFd e.calls.writable.written h.actions =
        c.prepared.take e.calls.writable.written.toNat)

theorem taken_write (ufd n : Int) (bytes : Bytes) (rest : List Action) :
    taken ufd n (.write ufd bytes :: rest) = bytes.take n.toNat ++ taken ufd n rest := by
  rw [taken, if_pos rfl]

theorem handleUpstreamWritable_request {c : ProxyConn} (hc : c.Connects) (e : ConnEvent) :
    RequestStep c e (handleUpstreamWritable e.worker c e.calls.writable) := by
  unfold handleUpstreamWritable
  dsimp only
  rw [if_neg (Int.not_lt.mpr hc.upstream)]
  split
  · refine .closed rfl hc.state ?_
    show taken c.upstreamFd _ ([.close c.upstreamFd, .epollDel c.upstreamFd] ++
      (closeClientConn e.worker c).actions) = []
    exact taken_closed e.worker c c.upstreamFd e.calls.writable.written
  · split
    · rename_i hpos
      refine .wrote hpos rfl ?_
      rw [taken_write]
      exact List.append_nil _
    · rename_i hnone
      refine .kept rfl ?_
      rw [taken_write, Int.toNat_of_nonpos (not_lt.mp hnone), List.take_zero]
      rfl

/-- What one event does to a connection that has not written its request. -/
theorem handleConn_request {c : ProxyConn} (hc : c.Connects) (e : ConnEvent) :
    RequestStep c e (handleConn e.worker c e.ev e.calls) := by
  unfold handleConn
  rw [handlerFor_connecting hc.state]
  split_ifs
  · exact handleUpstreamWritable_request hc e
  · exact .kept rfl rfl

theorem sentUpstream_cons {c : ProxyConn} (hc : c.isFree = false) (e : ConnEvent)
    (es : List ConnEvent) :
    sentUpstream c (e :: es) =
      taken c.upstreamFd e.calls.writable.written (handleConn e.worker c e.ev e.calls).actions ++
        (runConn (handleConn e.worker c e.ev e.calls).conn es).1.flatMap
          (fun p => taken c.upstreamFd p.1.calls.writable.written p.2) := by
  rw [sentUpstream, runConn_cons hc]
  rfl

/-! ## Waiting for the response -/

theorem handleConn_awaiting {w : Worker} {c : ProxyConn} (hc : c.state = .readingUpstream)
    (ev : UInt32) (k : EventCalls) : (handleConn w c ev k).conn.state = .readingUpstream := by
  unfold handleConn
  rw [handlerFor_awaiting hc]
  split_ifs
  · show (handleUpstreamReadable w c k.readable).conn.state = _
    unfold handleUpstreamReadable
    dsimp only
    split
    · exact hc
    · split <;> exact hc
  · exact hc

theorem runConn_awaiting (es : List ConnEvent) : ∀ {c : ProxyConn}, c.state = .readingUpstream →
    (runConn c es).2.state = .readingUpstream := by
  induction es with
  | nil => exact fun hc => hc
  | cons e es ih =>
    intro c hc
    rw [runConn]
    split
    · exact hc
    · exact ih (handleConn_awaiting hc e.ev e.calls)

/-! ## The whole request -/

theorem sentUpstream_before (es : List ConnEvent) : ∀ {c : ProxyConn}, c.Connects →
    (runConn c es).2.state = .connectingUpstream → sentUpstream c es = [] := by
  induction es with
  | nil => exact fun _ _ => rfl
  | cons e es ih =>
    intro c hc hbefore
    rw [runConn_cons hc.not_free] at hbefore
    rw [sentUpstream_cons hc.not_free]
    cases handleConn_request hc e with
    | kept hconn htaken =>
      rw [hconn] at hbefore
      rw [htaken, hconn]
      exact ih hc hbefore
    | closed hfree _ htaken =>
      rw [htaken, runConn_free hfree]
      rfl
    | wrote _ hconn =>
      have hreading : (runConn (handleConn e.worker c e.ev e.calls).conn es).2.state =
          .readingUpstream := runConn_awaiting es (by rw [hconn])
      rw [hreading] at hbefore
      cases hbefore

/-- The event on which the connection begins to wait for the response sends what the
    write takes. -/
theorem sentUpstream_enters (es : List ConnEvent) {e : ConnEvent} : ∀ {c : ProxyConn}, c.Connects →
    (runConn c es).2.state = .connectingUpstream →
    (runConn c (es ++ [e])).2.state = .readingUpstream →
    0 < e.calls.writable.written ∧
      sentUpstream c (es ++ [e]) = c.prepared.take e.calls.writable.written.toNat := by
  induction es with
  | nil =>
    intro c hc _ henters
    rw [List.nil_append, runConn_cons hc.not_free] at henters
    rw [List.nil_append, sentUpstream_cons hc.not_free]
    cases handleConn_request hc e with
    | kept hconn =>
      rw [hconn] at henters
      cases hc.state.symm.trans henters
    | closed _ hstate => cases hstate.symm.trans henters
    | wrote hpos _ htaken =>
      rw [htaken]
      exact ⟨hpos, List.append_nil _⟩
  | cons e₀ es ih =>
    intro c hc hbefore henters
    rw [List.cons_append, runConn_cons hc.not_free] at henters
    rw [runConn_cons hc.not_free] at hbefore
    rw [List.cons_append, sentUpstream_cons hc.not_free]
    cases handleConn_request hc e₀ with
    | kept hconn htaken =>
      rw [hconn] at hbefore henters
      rw [htaken, hconn]
      exact ih hc hbefore henters
    | closed hfree hstate =>
      rw [runConn_free hfree] at henters
      cases hstate.symm.trans henters
    | wrote _ hconn =>
      have hreading : (runConn (handleConn e₀.worker c e₀.ev e₀.calls).conn es).2.state =
          .readingUpstream := runConn_awaiting es (by rw [hconn])
      rw [hreading] at hbefore
      cases hbefore

/-- **When the upstream has the whole request.** For every connection that has got its
    upstream's socket, every sequence of events on either descriptor, every worker they
    meet and every result of the writes: while the connection is not waiting for the
    response the upstream has been sent nothing, and by the time it is the upstream
    has the request, every byte once and in order, exactly when the write on that event
    takes all of it. -/
theorem request_sent_iff {c : ProxyConn} (hc : c.Connects) {es : List ConnEvent} {e : ConnEvent}
    (hbefore : (runConn c es).2.state = .connectingUpstream)
    (henters : (runConn c (es ++ [e])).2.state = .readingUpstream) :
    sentUpstream c es = [] ∧
    (sentUpstream c (es ++ [e]) = c.prepared ↔ c.prepared.length ≤ e.calls.writable.written) := by
  refine ⟨sentUpstream_before es hc hbefore, ?_⟩
  obtain ⟨hpos, hsent⟩ := sentUpstream_enters es hc hbefore henters
  rw [hsent, List.take_eq_self_iff]
  omega

/-- A connection as a parsed request leaves it. -/
def connectingConn : ProxyConn := (handleClientRead sampleWorker sampleConn bodyRead).conn

theorem connectingConn_connects : connectingConn.Connects := by
  have hconn : connectingConn.state = .connectingUpstream ∧ 0 < connectingConn.fd ∧
      0 ≤ connectingConn.upstreamFd := by decide +kernel
  exact ⟨hconn.1, hconn.2.1, hconn.2.2⟩

/-- An event on the upstream's socket, and what the write of the request returns. -/
def writableEvent (written : Int) : ConnEvent where
  worker := sampleWorker
  ev := epollOut
  calls := { EventCalls.idle with writable := ⟨0, written⟩ }

/-- The write would block once, and then takes everything. -/
theorem request_sent_iff_second :
    sentUpstream connectingConn [writableEvent (-1)] = [] ∧
    (sentUpstream connectingConn ([writableEvent (-1)] ++ [writableEvent 4096]) =
        connectingConn.prepared ↔
      connectingConn.prepared.length ≤ (writableEvent 4096).calls.writable.written) := by
  have hstates : (runConn connectingConn [writableEvent (-1)]).2.state = .connectingUpstream ∧
      (runConn connectingConn ([writableEvent (-1)] ++ [writableEvent 4096])).2.state =
        .readingUpstream := by decide +kernel
  exact request_sent_iff connectingConn_connects hstates.1 hstates.2

/-- The write takes ten bytes, and the rest is never written. -/
theorem request_cut_short :
    (runConn connectingConn [writableEvent 10]).2.state = .readingUpstream ∧
    sentUpstream connectingConn [writableEvent 10] ≠ connectingConn.prepared := by
  decide +kernel

end NexusGateway
