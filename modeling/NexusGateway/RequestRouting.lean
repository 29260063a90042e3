import NexusGateway.Worker

/- How a parsed request ends, and what is done for it on the way.

   `routeRequest_routed` sums up `routeRequest` by its five ends: blocked, refused by the
   limiter, served from files, dropped, forwarded. Each comes with the tests that lead to
   it and with all the actions made. `handleClientRead_ends` says the same of the read that
   brings the request. -/
namespace NexusGateway
open CString

/-- The root of the static files. -/
def staticRoot (cfg : Config) : Bytes :=
  (configGet cfg (ascii "upstream.static") (ascii "root")).getD (ascii "/var/www/html")

/-- A parsed request is forwarded: it passes every check in front of that. -/
structure Forwarded (w : Worker) (c : ProxyConn) (req : HttpReq) (k : ClientReadCalls) : Prop where
  unlisted : blCheck w.bl c.clientIp.text = false
  admitted : (rlCheck w.rl c.clientIp.text k.rlCreatedMs k.rlCheckMs).2 = true
  dynamic : startsWith req.path.text (ascii "/static/") = false
  picked : (upstreamPick w.upstream).2 ≠ none
  fits : serialized (workerRewrite w c req k.draw) k.serializedReq.bytes ≠ none
  connected : 0 ≤ k.upstreamFd

/-- The request is on none of the ways that end before an upstream is looked for. -/
structure Dynamic (w : Worker) (c : ProxyConn) (req : HttpReq) (k : ClientReadCalls) : Prop where
  unlisted : blCheck w.bl c.clientIp.text = false
  admitted : (rlCheck w.rl c.clientIp.text k.rlCreatedMs k.rlCheckMs).2 = true
  dynamic : startsWith req.path.text (ascii "/static/") = false

theorem Forwarded.isDynamic {w : Worker} {c : ProxyConn} {req : HttpReq} {k : ClientReadCalls}
    (h : Forwarded w c req k) : Dynamic w c req k :=
  ⟨h.unlisted, h.admitted, h.dynamic⟩

/-- A connection that is given up keeps its descriptors and its state. -/
structure GivenUp (c c' : ProxyConn) : Prop where
  fd : c'.fd = c.fd
  upstreamFd : c'.upstreamFd = c.upstreamFd
  state : c'.state = c.state

/-- A connection whose request is on its way to an upstream. -/
structure OnItsWay (w : Worker) (c : ProxyConn) (req : HttpReq) (k : ClientReadCalls)
    (c' : ProxyConn) : Prop where
  fd : c'.fd = c.fd
  upstreamFd : c'.upstreamFd = k.upstreamFd
  state : c'.state = .connectingUpstream
  clientIp : c'.clientIp = c.clientIp
  method : c'.method = .snprintf size16_pos req.method.text
  path : c'.path = .snprintf size1024_pos req.path.text
  version : c'.version = .snprintf size16_pos req.version.text
  reqId : c'.reqId = (c.saveReqId (workerRewrite w c req k.draw)).reqId

/-- The ends of a parsed request. -/
inductive Routed (w : Worker) (c : ProxyConn) (req : HttpReq) (k : ClientReadCalls) : Handled → Prop
  | blocked (hlisted : blCheck w.bl c.clientIp.text = true) :
      Routed w c req k ((closeClientConn w (c.saveRequest req)).after
        [.write c.fd forbiddenResponse, .logAccess (accessText (ascii "BLOCKED") c req)])
  | limited {w' : Worker} (hactive : w'.activeConns = w.activeConns)
      (hunlisted : blCheck w.bl c.clientIp.text = false)
      (hrefused : (rlCheck w.rl c.clientIp.text k.rlCreatedMs k.rlCheckMs).2 = false) :
      Routed w c req k ((closeClientConn w' (c.saveRequest req)).after
        [.write c.fd tooManyResponse, .logAccess (accessText (ascii "RATE_LIMITED") c req)])
  | static {w' : Worker} (hactive : w'.activeConns = w.activeConns)
      (hunlisted : blCheck w.bl c.clientIp.text = false)
      (hadmitted : (rlCheck w.rl c.clientIp.text k.rlCreatedMs k.rlCheckMs).2 = true)
      (hstatic : startsWith req.path.text (ascii "/static/") = true) :
      Routed w c req k ((closeClientConn w' (c.saveRequest req)).after
        [.staticServe c.fd (staticRoot w.cfg) (req.path.text.drop 7),
          .logAccess (accessText (ascii "STATIC") c req)])
  | dropped {w' : Worker} {c' : ProxyConn} {before : List Action}
      (hactive : w'.activeConns = w.activeConns) (hdynamic : Dynamic w c req k)
      (hstopped : ¬ Forwarded w c req k) (hconn : GivenUp c c')
      (hbefore : before = [] ∨
        (k.upstreamFd < 0 ∧ ∃ host port, before = [.connectUpstream host port])) :
      Routed w c req k ((closeClientConn w' c').after before)
  | forwarded {w' : Worker} {c' : ProxyConn} {host : CharArray 64} {port : Int32}
      (hactive : w'.activeConns = w.activeConns) (hforwarded : Forwarded w c req k)
      (hconn : OnItsWay w c req k c') :
      Routed w c req k ⟨w', c', [.connectUpstream host port,
        .epollAdd k.upstreamFd (epollOut ||| epollIn), .epollMod c'.fd epollIn]⟩

theorem saveReqId_keeps (c : ProxyConn) (req : HttpReq) :
    (c.saveReqId req).fd = c.fd ∧ (c.saveReqId req).upstreamFd = c.upstreamFd := by
  unfold ProxyConn.saveReqId
  split <;> exact ⟨rfl, rfl⟩

theorem Routed.dropped_at_once {w w' : Worker} {c c' : ProxyConn} {req : HttpReq}
    {k : ClientReadCalls} (hactive : w'.activeConns = w.activeConns) (hdynamic : Dynamic w c req k)
    (hstopped : ¬ Forwarded w c req k) (hconn : GivenUp c c') :
    Routed w c req k (closeClientConn w' c') :=
  @Routed.dropped w c req k w' c' [] hactive hdynamic hstopped hconn (.inl rfl)

theorem saveReqId_reqId {c c' : ProxyConn} (h : c'.reqId = c.reqId) (req : HttpReq) :
    (c'.saveReqId req).reqId = (c.saveReqId req).reqId := by
  unfold ProxyConn.saveReqId
  split
  · exact h
  · rfl

theorem saveReqId_fields (c : ProxyConn) (req : HttpReq) :
    (c.saveReqId req).clientIp = c.clientIp ∧ (c.saveReqId req).method = c.method ∧
    (c.saveReqId req).path = c.path ∧ (c.saveReqId req).version = c.version := by
  unfold ProxyConn.saveReqId
  split <;> exact ⟨rfl, rfl, rfl, rfl⟩

/-- **How a parsed request ends.** -/
theorem routeRequest_routed (w : Worker) (c : ProxyConn) (req : HttpReq) (k : ClientReadCalls) :
    Routed w c req k (routeRequest w c req k) := by
  unfold routeRequest
  dsimp only
  split
  · rename_i hlisted
    exact .blocked hlisted
  rename_i hlist
  have hunlisted : blCheck w.bl c.clientIp.text = false := Bool.eq_false_iff.mpr hlist
  split
  · rename_i hrefused
    exact .limited rfl hunlisted ((Bool.not_eq_true' _).mp hrefused)
  rename_i hadmit
  have hadmitted : (rlCheck w.rl c.clientIp.text k.rlCreatedMs k.rlCheckMs).2 = true :=
    Bool.eq_true_of_not_eq_false fun h => hadmit ((Bool.not_eq_true' _).mpr h)
  split
  · rename_i hstatic
    exact .static rfl hunlisted hadmitted hstatic
  rename_i hnostatic
  have hdynamic : Dynamic w c req k := ⟨hunlisted, hadmitted, Bool.eq_false_iff.mpr hnostatic⟩
  split
  · rename_i hnone
    exact .dropped_at_once rfl hdynamic (fun h => h.picked hnone) ⟨rfl, rfl, rfl⟩
  rename_i node hpicked
  unfold forwardRequest
  dsimp only
  split
  · rename_i hlong
    exact .dropped_at_once rfl hdynamic (fun h => h.fits hlong) ⟨rfl, rfl, rfl⟩
  rename_i text htext
  obtain ⟨hfd, hufd⟩ := saveReqId_keeps ((c.saveRequest req).prepare text (serialized_fits htext))
    (workerRewrite w c req k.draw)
  have hstate := (saveReqId_prepared ((c.saveRequest req).prepare text (serialized_fits htext))
    (workerRewrite w c req k.draw)).2
  have hnoted : ((c.saveRequest req).prepare text (serialized_fits htext)).reqId = c.reqId := rfl
  have hreqId := saveReqId_reqId hnoted (workerRewrite w c req k.draw)
  obtain ⟨hip, hmethod, hpath, hversion⟩ :=
    saveReqId_fields ((c.saveRequest req).prepare text (serialized_fits htext))
      (workerRewrite w c req k.draw)
  unfold connectUpstream
  dsimp only
  split
  · rename_i hfailed
    exact .dropped rfl hdynamic (fun h => absurd h.connected (Int.not_le.mpr hfailed))
      ⟨hfd, hufd, hstate⟩ (.inr ⟨hfailed, node.host, node.port, rfl⟩)
  · rename_i hconnected
    have hforwarded : Forwarded w c req k := by
      refine ⟨hunlisted, hadmitted, hdynamic.dynamic, ?_, ?_, Int.not_lt.mp hconnected⟩
      · rw [hpicked]
        exact Option.some_ne_none node
      · intro hnone
        exact Option.some_ne_none text (htext.symm.trans hnone)
    have hway : OnItsWay w c req k
        { ((c.saveRequest req).prepare text (serialized_fits htext)).saveReqId
            (workerRewrite w c req k.draw) with
          upstreamFd := k.upstreamFd
          state := .connectingUpstream } :=
      ⟨hfd, rfl, rfl, hip, hmethod, hpath, hversion, hreqId⟩
    exact .forwarded rfl hforwarded hway

theorem handleClientRead_routed (w : Worker) (c : ProxyConn) {k : ClientReadCalls} {bytes : Bytes}
    {hne : bytes ≠ []} {hfits : bytes.length ≤ 4095} (hread : k.read = .data bytes hne hfits)
    (hdone : (feed httpReqInit bytes).1.state = .done) :
    Routed w (c.receive bytes hfits k.startMs) (feed httpReqInit bytes).1 k
      (handleClientRead w c k) := by
  rw [handleClientRead_data hread, if_neg (not_not.mpr hdone)]
  exact routeRequest_routed w (c.receive bytes hfits k.startMs) _ k

/-- **How a read ends**: what is not a whole request is closed at once, a whole one is routed. -/
theorem handleClientRead_ends (w : Worker) (c : ProxyConn) (k : ClientReadCalls) :
    (∃ c', c'.fd = c.fd ∧ c'.upstreamFd = c.upstreamFd ∧
      handleClientRead w c k = closeClientConn w c') ∨
    ∃ bytes hfits, (feed httpReqInit bytes).1.state = .done ∧
      Routed w (c.receive bytes hfits k.startMs) (feed httpReqInit bytes).1 k
        (handleClientRead w c k) := by
  cases hread : k.read with
  | data bytes hne hfits =>
    by_cases hdone : (feed httpReqInit bytes).1.state = .done
    · exact .inr ⟨bytes, hfits, hdone, handleClientRead_routed w c hread hdone⟩
    · rw [handleClientRead_data hread, if_pos hdone]
      exact .inl ⟨c.receive bytes hfits k.startMs, rfl, rfl, rfl⟩
  | eof =>
    unfold handleClientRead
    rw [hread]
    exact .inl ⟨c, rfl, rfl, rfl⟩
  | failed =>
    unfold handleClientRead
    rw [hread]
    exact .inl ⟨c, rfl, rfl, rfl⟩

end NexusGateway
