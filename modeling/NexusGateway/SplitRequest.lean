import NexusGateway.EventEffects
import NexusGateway.ForwardedRequest
import NexusGateway.ParserChunks
import NexusGateway.ParserFraming

/- A request that arrives in pieces.

   The parser takes a request in any pieces (`feedChunks_eq_feed`), but
   `handle_client_read` begins a new one at every read and closes the connection unless
   that read alone is a whole request. No proper beginning of a request is one
   (`WholeRequest.prefix_not_done`), so a request cut in two is closed at its first
   piece, whatever a single read would have led to (`split_outcome_iff`). -/
namespace NexusGateway
open CString Incremental

/-- The bytes are one request, whole and with nothing behind it. -/
structure WholeRequest (data : Bytes) : Prop where
  done : (feed httpReqInit data).1.state = .done
  all : (feed httpReqInit data).2 = data.length

theorem WholeRequest.ne_nil {data : Bytes} (h : WholeRequest data) : data ≠ [] := by
  rintro rfl
  exact absurd h.done (by decide)

/-- **No proper beginning of a request is one**: a parser that is done looks at nothing
    more, and would leave the rest. -/
theorem WholeRequest.prefix_not_done {bytes rest : Bytes} (h : WholeRequest (bytes ++ rest))
    (hrest : rest ≠ []) : (feed httpReqInit bytes).1.state ≠ .done := by
  intro hdone
  have happend : feed httpReqInit (bytes ++ rest) =
      ((feed (feed httpReqInit bytes).1 (bytes.drop (feed httpReqInit bytes).2 ++ rest)).1,
        (feed httpReqInit bytes).2 +
          (feed (feed httpReqInit bytes).1 (bytes.drop (feed httpReqInit bytes).2 ++ rest)).2) :=
    Reader.run_append feedReader_resumable feedStep_ok httpReqInit bytes rest httpReqInit_ok
  have hfinal : (feed httpReqInit bytes).1.state.final = true := by
    rw [hdone]
    rfl
  have hall := h.all
  rw [happend, feed_final hfinal, List.length_append] at hall
  have hle := feed_le httpReqInit bytes
  have hpos : 0 < rest.length := List.length_pos_iff.mpr hrest
  dsimp only at hall
  omega

/-- What became of a connection: closed, or in a state, with an upstream and with bytes
    prepared for it. -/
def ProxyConn.outcome (c : ProxyConn) : Option (ConnState × Int × Bytes) :=
  if c.isFree then none else some (c.state, c.upstreamFd, c.prepared)

theorem outcome_free {c : ProxyConn} (h : c.isFree = true) : c.outcome = none := if_pos h

theorem outcome_open {c : ProxyConn} (h : c.isFree = false) : c.outcome ≠ none := by
  rw [ProxyConn.outcome, h]
  exact Option.some_ne_none _

/-- The event's read of the client's socket returns these bytes. -/
structure ConnEvent.ReadsData (e : ConnEvent) (bytes : Bytes) : Prop where
  ready : e.ev &&& epollIn ≠ 0
  data : ∃ hne hfits, e.calls.clientRead.read = .data bytes hne hfits

/-- The request arrives in the reads of these events, cut in any way; the last of them. -/
inductive Arrives : Bytes → List ConnEvent → ConnEvent → Prop
  | whole {data : Bytes} {e : ConnEvent} (hread : e.ReadsData data) : Arrives data [e] e
  | piece {bytes data : Bytes} {e final : ConnEvent} {es : List ConnEvent} (hread : e.ReadsData bytes)
      (hrest : Arrives data es final) : Arrives (bytes ++ data) (e :: es) final

theorem Arrives.ne_nil {data : Bytes} {es : List ConnEvent} {final : ConnEvent}
    (h : Arrives data es final) : data ≠ [] ∧ es ≠ [] := by
  cases h with
  | whole hread =>
    obtain ⟨hne, _, _⟩ := hread.data
    exact ⟨hne, List.cons_ne_nil _ _⟩
  | piece hread hrest =>
    obtain ⟨hne, _, _⟩ := hread.data
    exact ⟨fun h => hne (List.append_eq_nil_iff.mp h).1, List.cons_ne_nil _ _⟩

theorem Arrives.ready {data : Bytes} {es : List ConnEvent} {final : ConnEvent}
    (h : Arrives data es final) : final.ev &&& epollIn ≠ 0 := by
  induction h with
  | whole hread => exact hread.ready
  | piece _ _ ih => exact ih

/-- The same event, with this read of the client's socket. -/
def ConnEvent.reading (e : ConnEvent) (read : ReadResult 4095) : ConnEvent :=
  { e with calls := { e.calls with clientRead := { e.calls.clientRead with read := read } } }

/-! ## One read -/

theorem handleConn_reading {c : ProxyConn} (hc : c.state = .readingReq) {e : ConnEvent}
    (hin : e.ev &&& epollIn ≠ 0) :
    handleConn e.worker c e.ev e.calls = handleClientRead e.worker c e.calls.clientRead := by
  have hh : handlerFor c e.ev = some .clientRead := if_pos ⟨hc, hin⟩
  unfold handleConn
  rw [hh]

theorem runConn_single {c : ProxyConn} (hfree : c.isFree = false) (hc : c.state = .readingReq)
    {e : ConnEvent} (hin : e.ev &&& epollIn ≠ 0) :
    (runConn c [e]).2 = (handleClientRead e.worker c e.calls.clientRead).conn := by
  rw [runConn_cons hfree, handleConn_reading hc hin]
  rfl

theorem runConn_piece {c : ProxyConn} (hfree : c.isFree = false) (hc : c.state = .readingReq)
    {e : ConnEvent} {bytes : Bytes} (hread : e.ReadsData bytes)
    (hpart : (feed httpReqInit bytes).1.state ≠ .done) (es : List ConnEvent) :
    (runConn c (e :: es)).2.isFree = true := by
  obtain ⟨hne, hfits, hdata⟩ := hread.data
  have hclosed : (handleClientRead e.worker c e.calls.clientRead).conn.isFree = true := by
    rw [handleClientRead_data hdata, if_pos hpart]
    rfl
  rw [runConn_cons hfree, handleConn_reading hc hread.ready, runConn_free hclosed]
  exact hclosed

theorem forwarded_receive {w : Worker} {c : ProxyConn} {req : HttpReq} {k : ClientReadCalls}
    {bytes : Bytes} {hfits : bytes.length ≤ 4095} (read : ReadResult 4095) :
    Forwarded w (c.receive bytes hfits k.startMs) req { k with read := read } ↔ Forwarded w c req k :=
  ⟨fun h => ⟨h.unlisted, h.admitted, h.dynamic, h.picked, h.fits, h.connected⟩,
    fun h => ⟨h.unlisted, h.admitted, h.dynamic, h.picked, h.fits, h.connected⟩⟩

theorem handleClientRead_whole {w : Worker} {c : ProxyConn} {k : ClientReadCalls} {data : Bytes}
    (hfree : c.isFree = false) (hne : data ≠ []) (hfits : data.length ≤ 4095)
    (hdone : (feed httpReqInit data).1.state = .done) :
    (handleClientRead w c { k with read := .data data hne hfits }).conn.isFree = true ↔
      ¬ Forwarded w c (feed httpReqInit data).1 k := by
  rw [handleClientRead_data rfl, if_neg (not_not.mpr hdone)]
  obtain ⟨hstopped, w', c', before, he, _⟩ | ⟨hforward, hconn⟩ :=
    (routeRequest_routed w (c.receive data hfits k.startMs) (feed httpReqInit data).1
      { k with read := .data data hne hfits }).closed_or_connected
  · rw [he]
    exact ⟨fun _ h => hstopped ((forwarded_receive _).mpr h), fun _ => rfl⟩
  · refine ⟨fun h => ?_, fun h => absurd ((forwarded_receive _).mp hforward) h⟩
    have hfd : c.fd = 0 := hconn.fd.symm.trans (eq_of_beq h)
    rw [ProxyConn.isFree, hfd] at hfree
    cases hfree

/-! ## The outcome -/

/-- **When the cut makes no difference.** For every connection that is reading its
    request, every whole request of at most 4095 bytes and every way it is cut into
    reads, with any worker and any results of the calls at each: what becomes of the
    connection is what becomes of it when the last event's read returns the whole request
    (the request id's draw being that event's in both) exactly when there is one read
    only, or the request is one that is not forwarded. -/
theorem split_outcome_iff {c : ProxyConn} (hfree : c.isFree = false) (hc : c.state = .readingReq)
    {data : Bytes} (hdata : WholeRequest data) (hfits : data.length ≤ 4095) {es : List ConnEvent}
    {final : ConnEvent} (harrives : Arrives data es final) :
    (runConn c es).2.outcome =
        (runConn c [final.reading (.data data hdata.ne_nil hfits)]).2.outcome ↔
      es = [final] ∨ ¬ Forwarded final.worker c (feed httpReqInit data).1 final.calls.clientRead := by
  have hwhole : (runConn c [final.reading (.data data hdata.ne_nil hfits)]).2 =
      (handleClientRead final.worker c
        { final.calls.clientRead with read := .data data hdata.ne_nil hfits }).conn :=
    runConn_single (e := final.reading _) hfree hc harrives.ready
  cases harrives with
  | whole hread =>
    obtain ⟨_, _, hself⟩ := hread.data
    have hsame : final.reading (.data data hdata.ne_nil hfits) = final := by
      rw [← hself]
      rfl
    rw [hsame]
    exact ⟨fun _ => .inl rfl, fun _ => rfl⟩
  | @piece bytes rest e _ es hread hrest =>
    have hpart := hdata.prefix_not_done hrest.ne_nil.1
    have hclosed := handleClientRead_whole (w := final.worker) (k := final.calls.clientRead) hfree
      hdata.ne_nil hfits hdata.done
    rw [outcome_free (runConn_piece hfree hc hread hpart es), hwhole]
    constructor
    · intro hnone
      refine .inr (fun hforward => ?_)
      have hopen := Bool.eq_false_iff.mpr (fun h => hclosed.mp h hforward)
      exact outcome_open hopen hnone.symm
    · rintro (hone | hstopped)
      · exact absurd (List.cons.inj hone).2 hrest.ne_nil.2
      · exact (outcome_free (hclosed.mpr hstopped)).symm

/-- An event that reads this text from the client's socket. -/
def clientEvent (data : Bytes) (h : data ≠ [] ∧ data.length ≤ 4095) : ConnEvent where
  worker := sampleWorker
  ev := epollIn
  calls := { EventCalls.idle with clientRead := sampleRead data h }

/-- A request cut inside its request line. -/
def twoReads : List ConnEvent :=
  [clientEvent (ascii "GET / HT") (by decide +kernel),
    clientEvent (ascii "TP/1.1\r\nHost: a\r\n\r\n") (by decide +kernel)]

def cutRequest : Bytes := ascii "GET / HT" ++ ascii "TP/1.1\r\nHost: a\r\n\r\n"

theorem wholeRequest_cut : WholeRequest cutRequest := ⟨by decide +kernel, by decide +kernel⟩

theorem arrives_twoReads : Arrives cutRequest twoReads
    (clientEvent (ascii "TP/1.1\r\nHost: a\r\n\r\n") (by decide +kernel)) :=
  .piece ⟨by decide, by decide +kernel, by decide +kernel, rfl⟩
    (.whole ⟨by decide, by decide +kernel, by decide +kernel, rfl⟩)

/-- The whole request in the last of its reads. -/
def oneRead : ConnEvent :=
  (clientEvent (ascii "TP/1.1\r\nHost: a\r\n\r\n") (by decide +kernel)).reading
    (.data cutRequest wholeRequest_cut.ne_nil (by decide +kernel))

theorem split_outcome_iff_twoReads :
    (runConn sampleConn twoReads).2.outcome = (runConn sampleConn [oneRead]).2.outcome ↔
      twoReads = [clientEvent (ascii "TP/1.1\r\nHost: a\r\n\r\n") (by decide +kernel)] ∨
      ¬ Forwarded sampleWorker sampleConn (feed httpReqInit cutRequest).1
        (sampleRead (ascii "TP/1.1\r\nHost: a\r\n\r\n") (by decide +kernel)) :=
  split_outcome_iff rfl rfl wholeRequest_cut (by decide +kernel) arrives_twoReads

/-- In one read the request is on its way to an upstream; in two the client is closed. -/
theorem split_closed :
    WholeRequest cutRequest ∧ (runConn sampleConn [oneRead]).2.state = .connectingUpstream ∧
    (runConn sampleConn [oneRead]).2.upstreamFd = 8 ∧
    (runConn sampleConn twoReads).2.isFree = true ∧
    (runConn sampleConn twoReads).2.outcome ≠ (runConn sampleConn [oneRead]).2.outcome := by
  refine ⟨wholeRequest_cut, by decide +kernel, by decide +kernel, by decide +kernel, ?_⟩
  have hfree : (runConn sampleConn twoReads).2.isFree = true := by decide +kernel
  have hopen : (runConn sampleConn [oneRead]).2.isFree = false := by decide +kernel
  rw [outcome_free hfree]
  exact fun h => outcome_open hopen h.symm

end NexusGateway
