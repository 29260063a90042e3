import NexusGateway.Lib.Traces
import NexusGateway.RequestRun
import NexusGateway.StaticFile

/- Whether a client gets a response before its connection is closed (`worker.c`).

   `requestRun` gives all that is done for a request. A request that is refused, served
   from files, or answered by its upstream is responded to; a path with two dots, and
   whatever fails between the choice of a node and the upstream's first data, closes the
   client's descriptor and writes nothing (`responds_first_iff`). -/
namespace NexusGateway
open CString Traces

/-- A response is written to the client: bytes on its descriptor, or the head of a file. -/
def Responds (fd : Int) (k : StaticCalls) : Action → Prop
  | .write fd' bytes => fd' = fd ∧ bytes ≠ []
  | .staticServe fd' root path => fd' = fd ∧ (staticServe root path k).head ≠ []
  | _ => False

/-- Whenever the client's descriptor is closed, a response has been written before. -/
def RespondsFirst (fd : Int) (k : StaticCalls) (actions : List Action) : Prop :=
  EachAfter (Responds fd k) (fun a => a = .close fd) actions

/-- The request is on a way that ends in a response. -/
def Answerable (w : Worker) (c : ProxyConn) (req : HttpReq) (k : ClientReadCalls)
    (es : List ConnEvent) : Prop :=
  blCheck w.bl c.clientIp.text = true ∨
  (rlCheck w.rl c.clientIp.text k.rlCreatedMs k.rlCheckMs).2 = false ∨
  (startsWith req.path.text (ascii "/static/") = true ∧
    strstr (req.path.text.drop 7) (ascii "..") = false) ∨
  (Forwarded w c req k ∧ connectingEnd es ≠ some .failed)

/-! ## What responds -/

theorem staticHead_ne_nil (path : Bytes) (size : Nat) : staticHead path size ≠ [] := by
  have hstart : ascii "HTTP/1.1 200 OK\r\nContent-Type: " ≠ [] := by decide +kernel
  unfold staticHead
  simp [hstart]

theorem staticServe_head (root path : Bytes) (k : StaticCalls) :
    (staticServe root path k).head ≠ [] ↔ strstr path (ascii "..") = false := by
  have hmissing : notFoundResponse ≠ [] := by decide +kernel
  unfold staticServe
  split
  · rename_i hdots
    rw [hdots]
    simp
  · rename_i hdots
    dsimp only
    refine iff_of_true ?_ (Bool.eq_false_iff.mpr hdots)
    cases k.file with
    | none => exact hmissing
    | some data => exact staticHead_ne_nil path data.length

theorem Closing.not_responds {fd : Int} {k : StaticCalls} {a : Action} (h : Closing a) :
    ¬ Responds fd k a := by
  cases h <;> exact not_false

theorem OnUpstream.aside {fd ufd : Int} {k : StaticCalls} {a : Action} (h : OnUpstream ufd a)
    (hother : ufd ≠ fd) : ¬ Responds fd k a ∧ a ≠ .close fd := by
  cases h with
  | write bytes => exact ⟨fun hwrite => hother hwrite.1, by simp⟩
  | epollMod events => exact ⟨not_false, by simp⟩

theorem Closes.not_respondsFirst {fd : Int} {k : StaticCalls} {before closing : List Action}
    (h : Closes fd closing) (hbefore : ∀ a ∈ before, ¬ Responds fd k a) :
    ¬ RespondsFirst fd k (before ++ closing) := by
  refine not_eachAfter (List.mem_append_right before h.client) rfl fun a ha => ?_
  obtain ha | ha := List.mem_append.mp ha
  · exact hbefore a ha
  · exact (h.closing a ha).not_responds

/-- The upstream's part ends in a response unless it fails. -/
theorem Ended.respondsFirst_iff {c : ProxyConn} {o : Option UpstreamEnd} {actions : List Action}
    (h : Ended c o actions) (hother : c.upstreamFd ≠ c.fd) (k : StaticCalls) :
    RespondsFirst c.fd k actions ↔ o ≠ some .failed := by
  cases h with
  | pending hquiet =>
    refine iff_of_true (eachAfter_of_none fun a ha => ?_) (by simp)
    exact ((hquiet a ha).aside (k := k) hother).2
  | @answered quiet closing bytes hne hfits nowMs hquiet hcloses =>
    refine iff_of_true (EachAfter.after ?_ fun a ha => ?_) (by simp)
    · exact eachAfter_cons ⟨rfl, hne⟩ (by simp) _
    · exact ((hquiet a ha).aside (k := k) hother).2
  | failed hquiet hcloses =>
    refine iff_of_false (hcloses.not_respondsFirst fun a ha => ?_) (by simp)
    exact ((hquiet a ha).aside hother).1

/-! ## The request -/

/-- **When a client is responded to before it is closed.** For every connection that is
    reading its request, every read that makes a whole request, every worker and result of
    the calls, and every events after it: exactly when the client is blocked or
    over its rate, or the file's path has no two dots, or the request is forwarded and
    neither the connect nor the upstream's socket fails before there is data. -/
theorem responds_first_iff {c : ProxyConn} (hfd : 0 < c.fd) (hstate : c.state = .readingReq)
    {e : ConnEvent} {bytes : Bytes} (hread : e.ReadsData bytes)
    (hdone : (feed httpReqInit bytes).1.state = .done)
    (hother : e.calls.clientRead.upstreamFd ≠ c.fd) (es : List ConnEvent) (k : StaticCalls) :
    RespondsFirst c.fd k (runActions c (e :: es)) ↔
      Answerable e.worker c (feed httpReqInit bytes).1 e.calls.clientRead es := by
  have hrun := requestRun hfd hstate hread hdone es
  generalize runActions c (e :: es) = actions at hrun ⊢
  cases hrun with
  | @refused reply tag closing hrefused hreply hcloses =>
    have hne : reply ≠ [] := by
      simp only [List.mem_cons, Prod.mk.injEq, List.not_mem_nil, or_false] at hreply
      obtain ⟨rfl, _⟩ | ⟨rfl, _⟩ := hreply <;> decide +kernel
    refine iff_of_true (eachAfter_cons ⟨rfl, hne⟩ (by simp) _) ?_
    exact hrefused.imp_right .inl
  | static hunlisted hadmitted hstatic hcloses =>
    have hwhen : Answerable e.worker c (feed httpReqInit bytes).1 e.calls.clientRead es ↔
        strstr ((feed httpReqInit bytes).1.path.text.drop 7) (ascii "..") = false := by
      have hno : ¬ Forwarded e.worker c (feed httpReqInit bytes).1 e.calls.clientRead :=
        fun h => Bool.false_ne_true (h.dynamic.symm.trans hstatic)
      simp [Answerable, hunlisted, hadmitted, hstatic, hno]
    rw [hwhen, ← staticServe_head (staticRoot e.worker.cfg) _ k]
    constructor
    · intro hfirst
      by_contra hhead
      have hnone : ∀ a ∈ [.staticServe c.fd (staticRoot e.worker.cfg)
          ((feed httpReqInit bytes).1.path.text.drop 7),
          .logAccess (accessText (ascii "STATIC") c (feed httpReqInit bytes).1)],
          ¬ Responds c.fd k a := by
        intro a ha
        simp only [List.mem_cons, List.not_mem_nil, or_false] at ha
        obtain rfl | rfl := ha
        · exact fun h => h.2 hhead
        · exact not_false
      exact hcloses.not_respondsFirst hnone hfirst
    · intro hhead
      exact eachAfter_cons ⟨rfl, hhead⟩ (by simp) _
  | dropped hdynamic hstopped hbefore hcloses =>
    refine iff_of_false (hcloses.not_respondsFirst fun a ha => ?_) ?_
    · obtain rfl | ⟨host, port, rfl⟩ := hbefore
      · cases ha
      · rw [List.mem_singleton.mp ha]
        exact not_false
    · simp [Answerable, hdynamic.unlisted, hdynamic.admitted, hdynamic.dynamic, hstopped]
  | @forwarded c' host port rest hforwarded hconn hended =>
    have hwhen : Answerable e.worker c (feed httpReqInit bytes).1 e.calls.clientRead es ↔
        connectingEnd es ≠ some .failed := by
      have hdynamic := hforwarded.isDynamic
      simp [Answerable, hdynamic.unlisted, hdynamic.admitted, hdynamic.dynamic, hforwarded]
    have hother' : c'.upstreamFd ≠ c'.fd := by rwa [hconn.upstreamFd, hconn.fd]
    have hconnect : ∀ a ∈ [.connectUpstream host port,
        .epollAdd e.calls.clientRead.upstreamFd (epollOut ||| epollIn), .epollMod c.fd epollIn],
        ¬ Responds c.fd k a ∧ a ≠ .close c.fd := by
      intro a ha
      simp only [List.mem_cons, List.not_mem_nil, or_false] at ha
      obtain rfl | rfl | rfl := ha <;> exact ⟨not_false, by simp⟩
    rw [hwhen, ← hended.respondsFirst_iff hother' k, hconn.fd]
    exact eachAfter_append_iff (fun a ha => (hconnect a ha).1) (fun a ha => (hconnect a ha).2)

/-! ## A request without an upstream -/

theorem responds_first_iff_sample :
    RespondsFirst 7 ⟨none, []⟩ (runActions sampleConn (plainEvent :: upstreamEvents)) ↔
      Answerable sampleWorker sampleConn (feed httpReqInit plainRequest).1
        (sampleRead plainRequest plainRequest_fits) upstreamEvents :=
  responds_first_iff (c := sampleConn) (by decide) rfl plainEvent_reads plainRequest_done (by decide)
    upstreamEvents ⟨none, []⟩

/-- The same request when the only node is down. -/
def downEvent : ConnEvent where
  worker := { sampleWorker with upstream := setHealthy sampleWorker.upstream 0 false }
  ev := epollIn
  calls := { EventCalls.idle with clientRead := sampleRead plainRequest plainRequest_fits }

/-- The client is closed, and nothing has been written to it. -/
theorem closed_without_response :
    (feed httpReqInit plainRequest).1.state = .done ∧
    ∀ k, ¬ RespondsFirst 7 k (runActions sampleConn [downEvent]) := by
  have hactions : runActions sampleConn [downEvent] =
      [.logError 1 (ascii "worker: closed conn, active=0"), .close 7, .epollDel 7] := by
    decide +kernel
  refine ⟨plainRequest_done, fun k => ?_⟩
  rw [hactions]
  refine not_eachAfter (List.mem_cons_of_mem _ List.mem_cons_self) rfl fun a ha => ?_
  simp only [List.mem_cons, List.not_mem_nil, or_false] at ha
  obtain rfl | rfl | rfl := ha <;> exact not_false

end NexusGateway
