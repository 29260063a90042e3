import NexusGateway.ForwardedRequest
import NexusGateway.WorkerEvents

/- What a client receives of its response.

   A connection that waits for its upstream gets events in any order: some find nothing
   to read, the others read the response piece by piece until its end. The worker hands
   on the first piece, as far as the client's socket takes it, and closes everything
   (`delivered_first`). So the client has the whole response exactly when the first piece is
   the whole of it and one write hands it on (`response_complete_iff`). -/
namespace NexusGateway
open CString

/-- The handler's read finds something: a piece, the end, or an error. -/
def ConnEvent.reads (e : ConnEvent) : Bool :=
  e.ev &&& epollIn != 0 && decide (e.calls.readable.read ≠ .failed true)

/-- What the client's socket takes of a handler's writes, `n` being what `write` returns. -/
def taken (cfd n : Int) : List Action → Bytes
  | [] => []
  | .write fd bytes :: rest => if fd = cfd then bytes.take n.toNat ++ taken cfd n rest else taken cfd n rest
  | _ :: rest => taken cfd n rest

/-- What the client's socket has taken when a connection's events are over. -/
def delivered (c : ProxyConn) (es : List ConnEvent) : Bytes :=
  (runConn c es).1.flatMap (fun p => taken c.fd p.1.calls.readable.clientWritten p.2)

/-- The reads on the upstream's socket yield these bytes and then their end, cut in any
    way and with any events between that find nothing. -/
inductive Yields : Bytes → List ConnEvent → Prop
  | wait {stream : Bytes} {e : ConnEvent} {es : List ConnEvent} (hwait : e.reads = false)
      (hrest : Yields stream es) : Yields stream (e :: es)
  | piece {bytes stream : Bytes} {e : ConnEvent} {es : List ConnEvent} (hreads : e.reads = true)
      (hne : bytes ≠ []) (hfits : bytes.length ≤ 8191)
      (hread : e.calls.readable.read = .data bytes hne hfits)
      (hrest : Yields stream es) : Yields (bytes ++ stream) (e :: es)
  | finish {e : ConnEvent} (hreads : e.reads = true) (hread : e.calls.readable.read = .eof) :
      Yields [] [e]

/-! ## One event -/

/-- The connection waits for its upstream's response. -/
structure ProxyConn.Waits (c : ProxyConn) : Prop where
  state : c.state = .readingUpstream
  client : 0 < c.fd
  upstream : 0 ≤ c.upstreamFd

theorem ProxyConn.Waits.not_free {c : ProxyConn} (hc : c.Waits) : c.isFree = false :=
  beq_eq_false_iff_ne.mpr (Int.ne_of_gt hc.client)

theorem taken_closed (w : Worker) (c : ProxyConn) (cfd n : Int) :
    taken cfd n (closeClientConn w c).actions = [] := by
  unfold closeClientConn
  dsimp only
  split <;> split <;> rfl

theorem ProxyConn.Waits.handler {c : ProxyConn} (hc : c.Waits) (ev : UInt32) :
    handlerFor c ev = if ev &&& epollIn ≠ 0 then some .upstreamReadable else none :=
  handlerFor_awaiting hc.state ev

theorem handleConn_wait {c : ProxyConn} (hc : c.Waits) {e : ConnEvent} (he : e.reads = false) :
    handleConn e.worker c e.ev e.calls = ⟨e.worker, c, []⟩ := by
  unfold handleConn
  rw [hc.handler]
  by_cases hin : e.ev &&& epollIn ≠ 0
  · have hblock : e.calls.readable.read = .failed true := by
      simpa [ConnEvent.reads, hin] using he
    rw [if_pos hin]
    show handleUpstreamReadable e.worker c e.calls.readable = _
    rw [handleUpstreamReadable, hblock]
    exact if_neg (Int.not_lt.mpr hc.upstream)
  · rw [if_neg hin]

theorem handleConn_reads {c : ProxyConn} (hc : c.Waits) {e : ConnEvent} (he : e.reads = true) :
    handleConn e.worker c e.ev e.calls = handleUpstreamReadable e.worker c e.calls.readable := by
  have hin : e.ev &&& epollIn ≠ 0 := by
    rw [ConnEvent.reads, Bool.and_eq_true] at he
    simpa using he.1
  unfold handleConn
  rw [hc.handler, if_pos hin]

theorem delivered_last {c : ProxyConn} (hc : c.Waits) {e : ConnEvent} (he : e.reads = true)
    (hfree : (handleUpstreamReadable e.worker c e.calls.readable).conn.isFree = true)
    (es : List ConnEvent) :
    delivered c (e :: es) = taken c.fd e.calls.readable.clientWritten
      (handleUpstreamReadable e.worker c e.calls.readable).actions ∧
    (runConn c (e :: es)).2.isFree = true := by
  rw [delivered, runConn_cons hc.not_free, handleConn_reads hc he, runConn_free hfree]
  exact ⟨List.append_nil _, hfree⟩

/-- **The first piece ends the connection**: the client has what its socket took of it. -/
theorem delivered_first {c : ProxyConn} (hc : c.Waits) {e : ConnEvent} (he : e.reads = true)
    {bytes : Bytes} {hne : bytes ≠ []} {hfits : bytes.length ≤ 8191}
    (hread : e.calls.readable.read = .data bytes hne hfits) (es : List ConnEvent) :
    delivered c (e :: es) = bytes.take e.calls.readable.clientWritten.toNat ∧
    (runConn c (e :: es)).2.isFree = true := by
  have hhandle : handleUpstreamReadable e.worker c e.calls.readable =
      (closeClientConn e.worker (c.receiveResponse bytes hfits)).after
        [.write c.fd bytes,
          .logAccessFull ((c.receiveResponse bytes hfits).accessFull e.calls.readable.nowMs),
          .close c.upstreamFd, .epollDel c.upstreamFd] := by
    rw [handleUpstreamReadable, hread]
    dsimp only
    rw [if_neg (Int.not_lt.mpr hc.upstream), response_written]
    rfl
  have hlast := delivered_last hc he (by rw [hhandle]; rfl) es
  rw [hhandle] at hlast
  refine ⟨hlast.1.trans ?_, hlast.2⟩
  show (if c.fd = c.fd then bytes.take e.calls.readable.clientWritten.toNat ++
      taken c.fd e.calls.readable.clientWritten (closeClientConn e.worker _).actions else _) = _
  rw [if_pos rfl, taken_closed, List.append_nil]

theorem delivered_end {c : ProxyConn} (hc : c.Waits) {e : ConnEvent} (he : e.reads = true)
    (hread : e.calls.readable.read = .eof) (es : List ConnEvent) :
    delivered c (e :: es) = [] ∧ (runConn c (e :: es)).2.isFree = true := by
  have hhandle : handleUpstreamReadable e.worker c e.calls.readable =
      (closeClientConn e.worker c).after [.close c.upstreamFd, .epollDel c.upstreamFd] := by
    rw [handleUpstreamReadable, hread]
    exact if_neg (Int.not_lt.mpr hc.upstream)
  have hlast := delivered_last hc he (by rw [hhandle]; rfl) es
  rw [hhandle] at hlast
  exact ⟨hlast.1.trans (taken_closed e.worker c c.fd e.calls.readable.clientWritten), hlast.2⟩

/-! ## The whole response -/

/-- The first read that finds something returns the whole stream, and the client's
    socket takes all of it in the one write. -/
def WholeAtOnce (stream : Bytes) (es : List ConnEvent) : Prop :=
  ∃ e, es.find? ConnEvent.reads = some e ∧ e.calls.readable.read.bytes = stream ∧
    stream.length ≤ e.calls.readable.clientWritten.toNat

theorem wholeAtOnce_wait {e : ConnEvent} (he : e.reads = false) (stream : Bytes) (es : List ConnEvent) :
    WholeAtOnce stream (e :: es) ↔ WholeAtOnce stream es := by
  unfold WholeAtOnce
  rw [List.find?_cons, he]

theorem wholeAtOnce_reads {e : ConnEvent} (he : e.reads = true) (stream : Bytes) (es : List ConnEvent) :
    WholeAtOnce stream (e :: es) ↔ e.calls.readable.read.bytes = stream ∧
      stream.length ≤ e.calls.readable.clientWritten.toNat := by
  unfold WholeAtOnce
  rw [List.find?_cons, he]
  constructor
  · rintro ⟨e', he', hrest⟩
    cases he'
    exact hrest
  · intro hrest
    exact ⟨e, rfl, hrest⟩

theorem take_eq_append_iff (bytes stream : Bytes) (n : Nat) :
    bytes.take n = bytes ++ stream ↔ bytes = bytes ++ stream ∧ (bytes ++ stream).length ≤ n := by
  constructor
  · intro h
    have hlen := congrArg List.length h
    rw [List.length_take, List.length_append] at hlen
    have hnil : stream = [] := List.length_eq_zero_iff.mp (by omega)
    subst hnil
    rw [List.append_nil] at h ⊢
    exact ⟨rfl, List.take_eq_self_iff bytes |>.mp h⟩
  · rintro ⟨hwhole, hn⟩
    rw [← hwhole] at hn ⊢
    exact List.take_of_length_le hn

/-- **When the client has the whole response.** For every connection that waits for its
    upstream, every response, every way it is cut into reads with events between that
    find nothing, every worker those events meet and every result of the writes: the
    connection ends closed, and what the client's socket has taken is the response
    exactly when the first read returns all of it and the client's socket takes all of
    that at once. -/
theorem response_complete_iff {c : ProxyConn} (hc : c.Waits) {stream : Bytes} {es : List ConnEvent}
    (hyields : Yields stream es) :
    (runConn c es).2.isFree = true ∧ (delivered c es = stream ↔ WholeAtOnce stream es) := by
  induction hyields with
  | @wait stream e es hwait hrest ih =>
    rw [delivered, runConn_cons hc.not_free, handleConn_wait hc hwait, wholeAtOnce_wait hwait]
    exact ih
  | @piece bytes stream e es hreads hne hfits hread hrest ih =>
    obtain ⟨htaken, hfree⟩ := delivered_first hc hreads hread es
    have hbytes : e.calls.readable.read.bytes = bytes := by
      rw [hread]
      rfl
    rw [htaken, wholeAtOnce_reads hreads, hbytes]
    exact ⟨hfree, take_eq_append_iff bytes stream _⟩
  | @finish e hreads hread =>
    obtain ⟨htaken, hfree⟩ := delivered_end hc hreads hread []
    have hbytes : e.calls.readable.read.bytes = [] := by
      rw [hread]
      rfl
    rw [htaken, wholeAtOnce_reads hreads, hbytes]
    exact ⟨hfree, ⟨fun _ => ⟨rfl, Nat.zero_le _⟩, fun _ => rfl⟩⟩

/-- A connection that has sent its request. -/
def waitingConn : ProxyConn := { sampleConn with state := .readingUpstream, upstreamFd := 8 }

/-- A read on the upstream's socket, and what the write to the client returns. -/
def responseEvent (read : ReadResult 8191) (written : Int) : ConnEvent where
  worker := sampleWorker
  ev := epollIn
  calls := { EventCalls.idle with readable := ⟨read, written, 2000⟩ }

def responseHead : Bytes := ascii "HTTP/1.1 200 OK\r\nContent-Length: 5\r\n\r\n"

/-- The head of a response in one segment and its body in the next. -/
def twoSegments : List ConnEvent :=
  [responseEvent (.data responseHead (by decide +kernel) (by decide +kernel)) responseHead.length,
    responseEvent (.data (ascii "hello") (by decide +kernel) (by decide +kernel)) 5,
    responseEvent .eof 0]

theorem yields_twoSegments : Yields (responseHead ++ (ascii "hello" ++ [])) twoSegments :=
  .piece (by decide) _ _ rfl (.piece (by decide) _ _ rfl (.finish (by decide) rfl))

theorem response_complete_iff_twoSegments :
    (runConn waitingConn twoSegments).2.isFree = true ∧
    (delivered waitingConn twoSegments = responseHead ++ (ascii "hello" ++ []) ↔
      WholeAtOnce (responseHead ++ (ascii "hello" ++ [])) twoSegments) :=
  response_complete_iff ⟨rfl, by decide, by decide⟩ yields_twoSegments

/-- The body is lost. -/
theorem response_truncated :
    waitingConn.Waits ∧ Yields (responseHead ++ (ascii "hello" ++ [])) twoSegments ∧
    delivered waitingConn twoSegments = responseHead ∧
    delivered waitingConn twoSegments ≠ responseHead ++ (ascii "hello" ++ []) :=
  ⟨⟨rfl, by decide, by decide⟩, yields_twoSegments, by decide +kernel, by decide +kernel⟩

end NexusGateway
