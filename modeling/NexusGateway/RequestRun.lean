import NexusGateway.RequestRouting
import NexusGateway.SplitRequest

/- A request from the read that completes it to the end of its connection.

   Once a request is on its way, the connection waits for the upstream's socket to become
   writable and then for data on it. `connectingEnd` reads off the events, from their bits
   and from what the calls return, how this ends; `connecting_ended` says what is done
   then. With `routeRequest_routed` it gives all the actions made for a request
   (`requestRun`). -/
namespace NexusGateway
open CString

/-- The actions made over the events of a connection, in order. -/
def runActions (c : ProxyConn) (es : List ConnEvent) : List Action :=
  (runConn c es).1.flatMap Prod.snd

theorem runActions_free {c : ProxyConn} (hc : c.isFree = true) (es : List ConnEvent) :
    runActions c es = [] := by
  rw [runActions, runConn_free hc]
  rfl

theorem runActions_cons {c : ProxyConn} (hc : c.isFree = false) (e : ConnEvent)
    (es : List ConnEvent) :
    runActions c (e :: es) = (handleConn e.worker c e.ev e.calls).actions ++
      runActions (handleConn e.worker c e.ev e.calls).conn es := by
  rw [runActions, runConn_cons hc]
  rfl

/-! ## How the upstream's part ends -/

/-- The ends of the upstream's part: a first piece of data, or none. -/
inductive UpstreamEnd where
  | answered (bytes : Bytes) (hne : bytes ≠ []) (hfits : bytes.length ≤ 8191) (nowMs : UInt64)
  | failed

/-- The end of waiting for data, if these events bring it. -/
def readingEnd : List ConnEvent → Option UpstreamEnd
  | [] => none
  | e :: es =>
    if e.ev &&& epollIn = 0 then readingEnd es
    else
      match e.calls.readable.read with
      | .data bytes hne hfits => some (.answered bytes hne hfits e.calls.readable.nowMs)
      | .eof => some .failed
      | .failed true => readingEnd es
      | .failed false => some .failed

/-- The same from the connect on. -/
def connectingEnd : List ConnEvent → Option UpstreamEnd
  | [] => none
  | e :: es =>
    if e.ev &&& epollOut = 0 ∧ e.ev &&& epollIn = 0 then connectingEnd es
    else if e.calls.writable.soError ≠ 0 then some .failed
    else if e.calls.writable.written > 0 then readingEnd es
    else connectingEnd es

/-- An action on the upstream's socket that leaves it open. -/
inductive OnUpstream (ufd : Int) : Action → Prop
  | write (bytes : Bytes) : OnUpstream ufd (.write ufd bytes)
  | epollMod (events : UInt32) : OnUpstream ufd (.epollMod ufd events)

theorem onUpstream_nil (ufd : Int) : ∀ a ∈ ([] : List Action), OnUpstream ufd a :=
  fun _ ha => by cases ha

/-- An action of closing. -/
inductive Closing : Action → Prop
  | close (fd : Int) : Closing (.close fd)
  | epollDel (fd : Int) : Closing (.epollDel fd)
  | logError (level : Nat) (text : Bytes) : Closing (.logError level text)

/-- Nothing but closing is done, and the client's descriptor is closed. -/
structure Closes (fd : Int) (actions : List Action) : Prop where
  closing : ∀ a ∈ actions, Closing a
  client : .close fd ∈ actions

/-- What is done once a request is on its way, up to the end of the upstream's part. -/
inductive Ended (c : ProxyConn) : Option UpstreamEnd → List Action → Prop
  | pending {quiet : List Action} (hquiet : ∀ a ∈ quiet, OnUpstream c.upstreamFd a) :
      Ended c none quiet
  | answered {quiet closing : List Action} {bytes : Bytes} {hne : bytes ≠ []}
      {hfits : bytes.length ≤ 8191} {nowMs : UInt64} (hquiet : ∀ a ∈ quiet, OnUpstream c.upstreamFd a)
      (hcloses : Closes c.fd closing) :
      Ended c (some (.answered bytes hne hfits nowMs))
        (quiet ++ .write c.fd bytes ::
          .logAccessFull ((c.receiveResponse bytes hfits).accessFull nowMs) :: closing)
  | failed {quiet closing : List Action} (hquiet : ∀ a ∈ quiet, OnUpstream c.upstreamFd a)
      (hcloses : Closes c.fd closing) : Ended c (some .failed) (quiet ++ closing)

theorem Ended.failed_first {c : ProxyConn} {closing : List Action} (hcloses : Closes c.fd closing) :
    Ended c (some .failed) closing :=
  @Ended.failed c [] closing (onUpstream_nil c.upstreamFd) hcloses

theorem Ended.after {c : ProxyConn} {o : Option UpstreamEnd} {quiet rest : List Action}
    (h : Ended c o rest) (hquiet : ∀ a ∈ quiet, OnUpstream c.upstreamFd a) :
    Ended c o (quiet ++ rest) := by
  have hboth {more : List Action} (hmore : ∀ a ∈ more, OnUpstream c.upstreamFd a) :
      ∀ a ∈ quiet ++ more, OnUpstream c.upstreamFd a :=
    fun a ha => (List.mem_append.mp ha).elim (hquiet a) (hmore a)
  cases h with
  | pending hmore => exact .pending (hboth hmore)
  | answered hmore hcloses =>
    rw [← List.append_assoc]
    exact .answered (hboth hmore) hcloses
  | failed hmore hcloses =>
    rw [← List.append_assoc]
    exact .failed (hboth hmore) hcloses

theorem Ended.of_state {c : ProxyConn} {s : ConnState} {o : Option UpstreamEnd}
    {actions : List Action} (h : Ended { c with state := s } o actions) : Ended c o actions := by
  cases h with
  | pending hquiet => exact .pending hquiet
  | answered hquiet hcloses => exact .answered hquiet hcloses
  | failed hquiet hcloses => exact .failed hquiet hcloses

/-! ## The handlers -/

theorem closeClientConn_closes (w : Worker) {c : ProxyConn} (hfd : 0 < c.fd) :
    Closes c.fd (closeClientConn w c).actions := by
  unfold closeClientConn
  dsimp only
  rw [if_pos hfd, if_pos hfd]
  refine ⟨fun a ha => ?_, by simp⟩
  obtain ha | ha := List.mem_append.mp ha
  · simp only [List.mem_cons, List.not_mem_nil, or_false] at ha
    obtain rfl | rfl | rfl := ha
    · exact .logError _ _
    · exact .close _
    · exact .epollDel _
  · split at ha
    · simp only [List.mem_cons, List.not_mem_nil, or_false] at ha
      obtain rfl | rfl := ha
      · exact .close _
      · exact .epollDel _
    · cases ha

theorem Closes.after_upstream {fd : Int} {actions : List Action} (h : Closes fd actions) (ufd : Int) :
    Closes fd (.close ufd :: .epollDel ufd :: actions) := by
  refine ⟨fun a ha => ?_, List.mem_cons_of_mem _ (List.mem_cons_of_mem _ h.client)⟩
  obtain rfl | ha := List.mem_cons.mp ha
  · exact .close ufd
  obtain rfl | ha := List.mem_cons.mp ha
  · exact .epollDel ufd
  · exact h.closing a ha

theorem isFree_of_pos {c : ProxyConn} (hfd : 0 < c.fd) : c.isFree = false :=
  beq_eq_false_iff_ne.mpr (Int.ne_of_gt hfd)

/-- How waiting for data ends. -/
theorem reading_ended (es : List ConnEvent) : ∀ {c : ProxyConn}, 0 < c.fd → 0 ≤ c.upstreamFd →
    c.state = .readingUpstream → Ended c (readingEnd es) (runActions c es) := by
  induction es with
  | nil => exact fun _ _ _ => .pending (onUpstream_nil _)
  | cons e es ih =>
    intro c hfd hufd hstate
    have hopen : ¬ c.upstreamFd < 0 := Int.not_lt.mpr hufd
    rw [runActions_cons (isFree_of_pos hfd), readingEnd]
    have hhandler := handlerFor_awaiting hstate e.ev
    by_cases hin : e.ev &&& epollIn = 0
    · rw [if_neg (not_not.mpr hin)] at hhandler
      rw [if_pos hin, handleConn, hhandler]
      exact ih hfd hufd hstate
    rw [if_pos hin] at hhandler
    rw [if_neg hin, handleConn, hhandler]
    dsimp only
    unfold handleUpstreamReadable
    dsimp only
    rw [if_neg hopen]
    cases hread : e.calls.readable.read with
    | data bytes hne hfits =>
      have hcloses := (closeClientConn_closes e.worker
        (c := c.receiveResponse bytes hfits) hfd).after_upstream c.upstreamFd
      rw [runActions_free rfl, List.append_nil]
      dsimp only [Handled.after]
      rw [response_written]
      exact .answered (onUpstream_nil c.upstreamFd) hcloses
    | eof =>
      have hcloses := (closeClientConn_closes e.worker hfd).after_upstream c.upstreamFd
      rw [runActions_free rfl, List.append_nil]
      exact .failed_first hcloses
    | failed wouldBlock =>
      cases wouldBlock with
      | true => exact ih hfd hufd hstate
      | false =>
        rw [runActions_free rfl, List.append_nil]
        refine .failed_first (Closes.after_upstream ⟨?_, by simp⟩ _)
        intro a ha
        simp only [List.mem_cons, List.not_mem_nil, or_false] at ha
        obtain rfl | rfl := ha
        · exact .close c.fd
        · exact .epollDel c.fd

/-- **How the upstream's part ends.** -/
theorem connecting_ended (es : List ConnEvent) : ∀ {c : ProxyConn}, 0 < c.fd → 0 ≤ c.upstreamFd →
    c.state = .connectingUpstream → Ended c (connectingEnd es) (runActions c es) := by
  induction es with
  | nil => exact fun _ _ _ => .pending (onUpstream_nil _)
  | cons e es ih =>
    intro c hfd hufd hstate
    have hopen : ¬ c.upstreamFd < 0 := Int.not_lt.mpr hufd
    have hwrite {bytes : Bytes} : ∀ a ∈ [.write c.upstreamFd bytes], OnUpstream c.upstreamFd a := by
      intro a ha
      rw [List.mem_singleton.mp ha]
      exact .write bytes
    rw [runActions_cons (isFree_of_pos hfd), connectingEnd]
    have hhandler := handlerFor_connecting hstate e.ev
    by_cases hquiet : e.ev &&& epollOut = 0 ∧ e.ev &&& epollIn = 0
    · rw [if_neg (by simp [hquiet])] at hhandler
      rw [if_pos hquiet, handleConn, hhandler]
      exact ih hfd hufd hstate
    rw [if_pos (not_and_or.mp hquiet)] at hhandler
    rw [if_neg hquiet, handleConn, hhandler]
    dsimp only
    unfold handleUpstreamWritable
    dsimp only
    rw [if_neg hopen]
    split
    · have hcloses := (closeClientConn_closes e.worker hfd).after_upstream c.upstreamFd
      rw [runActions_free rfl, List.append_nil]
      exact .failed_first hcloses
    split
    · have hrest := reading_ended es (c := { c with state := .readingUpstream }) hfd hufd rfl
      have hmod : ∀ a ∈ [.epollMod c.upstreamFd epollIn], OnUpstream c.upstreamFd a := by
        intro a ha
        rw [List.mem_singleton.mp ha]
        exact .epollMod epollIn
      exact (hrest.of_state.after hmod).after hwrite
    · exact (ih hfd hufd hstate).after hwrite

/-! ## The whole run -/

/-- All that is done for a request, from the read that completes it on: the events behind
    that read matter only when the request is forwarded. -/
inductive RequestRun (w : Worker) (c : ProxyConn) (req : HttpReq) (k : ClientReadCalls)
    (es : List ConnEvent) : List Action → Prop
  | refused {reply tag : Bytes} {closing : List Action}
      (hrefused : blCheck w.bl c.clientIp.text = true ∨
        (rlCheck w.rl c.clientIp.text k.rlCreatedMs k.rlCheckMs).2 = false)
      (hreply : (reply, tag) ∈ [(forbiddenResponse, ascii "BLOCKED"),
        (tooManyResponse, ascii "RATE_LIMITED")]) (hcloses : Closes c.fd closing) :
      RequestRun w c req k es
        (.write c.fd reply :: .logAccess (accessText tag c req) :: closing)
  | static {closing : List Action} (hunlisted : blCheck w.bl c.clientIp.text = false)
      (hadmitted : (rlCheck w.rl c.clientIp.text k.rlCreatedMs k.rlCheckMs).2 = true)
      (hstatic : startsWith req.path.text (ascii "/static/") = true) (hcloses : Closes c.fd closing) :
      RequestRun w c req k es (.staticServe c.fd (staticRoot w.cfg) (req.path.text.drop 7) ::
        .logAccess (accessText (ascii "STATIC") c req) :: closing)
  | dropped {before closing : List Action} (hdynamic : Dynamic w c req k)
      (hstopped : ¬ Forwarded w c req k)
      (hbefore : before = [] ∨ ∃ host port, before = [.connectUpstream host port])
      (hcloses : Closes c.fd closing) : RequestRun w c req k es (before ++ closing)
  | forwarded {c' : ProxyConn} {host : CharArray 64} {port : Int32} {rest : List Action}
      (hforwarded : Forwarded w c req k) (hconn : OnItsWay w c req k c')
      (hended : Ended c' (connectingEnd es) rest) :
      RequestRun w c req k es (.connectUpstream host port ::
        .epollAdd k.upstreamFd (epollOut ||| epollIn) :: .epollMod c.fd epollIn :: rest)

/-- **What is done for a request.** -/
theorem requestRun {c : ProxyConn} (hfd : 0 < c.fd) (hstate : c.state = .readingReq)
    {e : ConnEvent} {bytes : Bytes} (hread : e.ReadsData bytes)
    (hdone : (feed httpReqInit bytes).1.state = .done) (es : List ConnEvent) :
    RequestRun e.worker c (feed httpReqInit bytes).1 e.calls.clientRead es
      (runActions c (e :: es)) := by
  obtain ⟨hne, hfits, hdata⟩ := hread.data
  have hrouted := handleClientRead_routed e.worker c hdata hdone
  rw [runActions_cons (isFree_of_pos hfd), handleConn_reading hstate hread.ready]
  generalize handleClientRead e.worker c e.calls.clientRead = handled at hrouted ⊢
  have hclosed (w' : Worker) (c' : ProxyConn) (before : List Action) :
      ((closeClientConn w' c').after before).actions ++
          runActions ((closeClientConn w' c').after before).conn es =
        before ++ (closeClientConn w' c').actions := by
    rw [runActions_free rfl, List.append_nil]
    rfl
  cases hrouted with
  | blocked hlisted =>
    rw [hclosed]
    exact .refused (.inl hlisted) List.mem_cons_self (closeClientConn_closes _ hfd)
  | limited _ hunlisted hrefused =>
    rw [hclosed]
    refine .refused (.inr hrefused) ?_ (closeClientConn_closes _ hfd)
    exact List.mem_cons_of_mem _ List.mem_cons_self
  | static _ hunlisted hadmitted hstatic =>
    rw [hclosed]
    exact .static hunlisted hadmitted hstatic (closeClientConn_closes _ hfd)
  | @dropped w' c' before _ hdynamic hstopped hsame hbefore =>
    rw [hclosed]
    have hfd' : c'.fd = c.fd := hsame.fd
    refine .dropped ⟨hdynamic.unlisted, hdynamic.admitted, hdynamic.dynamic⟩
      (fun h => hstopped ?_) (hbefore.imp_right And.right) (hfd' ▸ closeClientConn_closes _ (hfd' ▸ hfd))
    exact ⟨h.unlisted, h.admitted, h.dynamic, h.picked, h.fits, h.connected⟩
  | @forwarded w' c' host port _ hforwarded hconn =>
    have hfd' : c'.fd = c.fd := hconn.fd
    have hufd : 0 ≤ c'.upstreamFd := hconn.upstreamFd ▸ hforwarded.connected
    have hnoted : (c.receive bytes hfits e.calls.clientRead.startMs).reqId = c.reqId := rfl
    have hreqId := saveReqId_reqId hnoted
      (workerRewrite e.worker c (feed httpReqInit bytes).1 e.calls.clientRead.draw)
    rw [hfd']
    refine .forwarded ?_ ?_ (connecting_ended es (hfd' ▸ hfd) hufd hconn.state)
    · exact ⟨hforwarded.unlisted, hforwarded.admitted, hforwarded.dynamic, hforwarded.picked,
        hforwarded.fits, hforwarded.connected⟩
    · exact ⟨hfd', hconn.upstreamFd, hconn.state, hconn.clientIp, hconn.method, hconn.path,
        hconn.version, hconn.reqId.trans hreqId⟩

/-- The read of a request without headers. -/
def plainEvent : ConnEvent := clientEvent plainRequest plainRequest_fits

theorem plainEvent_reads : plainEvent.ReadsData plainRequest :=
  ⟨by decide, plainRequest_fits.1, plainRequest_fits.2, rfl⟩

theorem plainRequest_done : (feed httpReqInit plainRequest).1.state = .done := by decide +kernel

/-- Events on the upstream's socket: it is connected, and then data comes. -/
def upstreamEvents : List ConnEvent :=
  [⟨sampleWorker, epollOut, { EventCalls.idle with writable := ⟨0, 80⟩ }⟩,
    ⟨sampleWorker, epollIn, { EventCalls.idle with
      readable := ⟨.data (ascii "HTTP/1.1 204 No Content\r\n\r\n") (by decide +kernel)
        (by decide +kernel), 27, 1200⟩ }⟩]

end NexusGateway
