import NexusGateway.Admission
import NexusGateway.HttpRewrite
import NexusGateway.HttpSerialize
import NexusGateway.Upstream

/- The worker's handling of a client's request (`worker.c`).

   A handler is a function of the worker's shared state, of the connection and of
   what its system calls return; it gives both back with the calls and log records
   it makes, in order. `handle_client_read` reads once, parses what it has read, and
   either closes the connection or prepares the rewritten request for an upstream.

   `handleClientRead_spec`: what is prepared for the upstream when it does. -/
namespace NexusGateway
open CString

/-- `conn_state_t`. -/
inductive ConnState where
  | idle
  | readingReq
  | connectingUpstream
  | writingUpstream
  | readingUpstream
  | writingClient
  | closing
  deriving DecidableEq, Repr

/-- `proxy_conn_t`. -/
structure ProxyConn where
  fd : Int
  state : ConnState
  upstreamFd : Int
  reqBuf : Buffer 4096
  reqLen : Nat
  respBuf : Buffer 8192
  respLen : Nat
  clientIp : IpText
  clientPort : UInt16
  reqId : CharArray 16
  startMs : UInt64
  method : CharArray 16
  path : CharArray 1024
  version : CharArray 16
  statusCode : Int
  deriving DecidableEq, Repr

/-- What the handlers of a worker share. -/
structure Worker where
  cfg : Config
  upstream : Upstream
  activeConns : Int
  rl : RateLimiter
  bl : Blacklist
  deriving DecidableEq, Repr

def epollIn : UInt32 := 1
def epollOut : UInt32 := 4

/-- What `nexus_log_access_full` is called with. -/
structure AccessFull where
  clientIp : IpText
  clientPort : UInt16
  method : CharArray 16
  path : CharArray 1024
  version : CharArray 16
  statusCode : Int
  bytesSent : Nat
  userAgent : Bytes
  reqId : CharArray 16
  upstreamAddr : Bytes
  durationMs : UInt64
  deriving DecidableEq, Repr

/-- A call or a log record of a handler. A record is its text without the time and
    the line end that the logger puts around it. -/
inductive Action where
  | accept (listenFd : Int)
  | write (fd : Int) (bytes : Bytes)
  | close (fd : Int)
  | epollAdd (fd : Int) (events : UInt32)
  | epollMod (fd : Int) (events : UInt32)
  | epollDel (fd : Int)
  | logError (level : Nat) (text : Bytes)
  | logAccess (text : Bytes)
  | logAccessFull (record : AccessFull)
  | staticServe (fd : Int) (root path : Bytes)
  | connectUpstream (host : CharArray 64) (port : Int32)
  deriving DecidableEq, Repr

/-- What a handler leaves. -/
structure Handled where
  worker : Worker
  conn : ProxyConn
  actions : List Action
  deriving DecidableEq, Repr

/-- The same, with actions made before. -/
def Handled.after (before : List Action) (h : Handled) : Handled :=
  { h with actions := before ++ h.actions }

/-- What `read` returns of at most `cap` bytes. -/
inductive ReadResult (cap : Nat) where
  | data (bytes : Bytes) (nonempty : bytes ≠ []) (fits : bytes.length ≤ cap)
  | eof
  | failed (wouldBlock : Bool)
  deriving DecidableEq, Repr

/-- The bytes read. -/
def ReadResult.bytes {cap : Nat} : ReadResult cap → Bytes
  | .data bytes _ _ => bytes
  | _ => []

/-- `proxy_free`. -/
def proxyFree (c : ProxyConn) : ProxyConn :=
  { c with
    fd := 0
    upstreamFd := -1
    reqLen := 0
    respLen := 0
    clientIp := .empty
    clientPort := 0
    reqId := .zero size16_pos
    startMs := 0
    method := .zero size16_pos
    path := .zero size1024_pos
    version := .zero size16_pos
    statusCode := 0 }

/-- `close_client_conn`. -/
def closeClientConn (w : Worker) (c : ProxyConn) : Handled :=
  -- the record is written before the descriptor is closed, with the count after it
  let active := if c.fd > 0 then w.activeConns - 1 else w.activeConns
  let text := ascii "worker: closed conn, active=" ++ ascii (toString active)
  let client := if c.fd > 0 then [.logError 1 text, .close c.fd, .epollDel c.fd] else []
  let upstream := if c.upstreamFd > 0 then [.close c.upstreamFd, .epollDel c.upstreamFd] else []
  ⟨{ w with activeConns := active }, proxyFree c, client ++ upstream⟩

/-! ## `handle_client_read` -/

/-- What the calls of one `handle_client_read` return: the read, the clock at the
    start and in the rate limiter, the request id's draw, what stands in the local
    buffer, and the upstream descriptor. -/
structure ClientReadCalls where
  read : ReadResult 4095
  startMs : UInt64
  rlCreatedMs : UInt64
  rlCheckMs : UInt64
  draw : IdDraw
  serializedReq : Buffer 4096
  upstreamFd : Int

def forbiddenResponse : Bytes := ascii "HTTP/1.1 403 Forbidden\r\nContent-Length: 0\r\n\r\n"

def tooManyResponse : Bytes := ascii "HTTP/1.1 429 Too Many Requests\r\nContent-Length: 0\r\n\r\n"

/-- `"<tag> %s %s %s"` of the address, the method and the path. -/
def accessText (tag : Bytes) (c : ProxyConn) (req : HttpReq) : Bytes :=
  tag ++ sp :: (c.clientIp.text ++ sp :: (req.method.text ++ sp :: req.path.text))

/-- The connection once `bytes` have been read into its buffer. -/
def ProxyConn.receive (c : ProxyConn) (bytes : Bytes) (h : bytes.length ≤ 4095) (now : UInt64) :
    ProxyConn :=
  { c with
    reqBuf := c.reqBuf.store (bytes ++ [0]) (by
      rw [List.length_append, List.length_singleton]; omega)
    reqLen := bytes.length
    startMs := now }

/-- The request line noted for the log. -/
def ProxyConn.saveRequest (c : ProxyConn) (req : HttpReq) : ProxyConn :=
  { c with
    method := .snprintf size16_pos req.method.text
    path := .snprintf size1024_pos req.path.text
    version := .snprintf size16_pos req.version.text }

/-- The serialised request copied back into the buffer. -/
def ProxyConn.prepare (c : ProxyConn) (text : Bytes) (h : text.length ≤ 4096) : ProxyConn :=
  { c with reqBuf := c.reqBuf.store text h, reqLen := text.length }

/-- The request id noted for the log, if it is found. -/
def ProxyConn.saveReqId (c : ProxyConn) (req : HttpReq) : ProxyConn :=
  match headersGet req.headers xGatewayReqId with
  | none => c
  | some reqId => { c with reqId := .snprintf size16_pos reqId }

/-- The connection to the upstream, once the request is prepared. -/
def connectUpstream (w : Worker) (c : ProxyConn) (node : UpstreamNode) (ufd : Int) : Handled :=
  let connect := .connectUpstream node.host node.port
  if ufd < 0 then (closeClientConn w c).after [connect]
  else
    ⟨w, { c with upstreamFd := ufd, state := .connectingUpstream },
      [connect, .epollAdd ufd (epollOut ||| epollIn), .epollMod c.fd epollIn]⟩

/-- The worker's call of `nexus_http_rewrite_request`. -/
def workerRewrite (w : Worker) (c : ProxyConn) (req : HttpReq) (draw : IdDraw) : HttpReq :=
  httpRewriteRequest req (some c.clientIp.text) (some (ascii "1.0.0")) (some w.cfg) draw

theorem serialized_fits {req : HttpReq} {buf : Buffer 4096} {text : Bytes}
    (h : serialized req buf.bytes = some text) : text.length ≤ 4096 := by
  have hbuf := buf.length_eq
  have := serialized_length (by omega) h
  omega

/-- The forwarding: rewrite, serialise, copy back, note the request id, connect. -/
def forwardRequest (w : Worker) (c : ProxyConn) (req : HttpReq) (node : UpstreamNode)
    (k : ClientReadCalls) : Handled :=
  let req := workerRewrite w c req k.draw
  match h : serialized req k.serializedReq.bytes with
  -- the text does not fit the local buffer
  | none => closeClientConn w c
  | some text =>
    connectUpstream w ((c.prepare text (serialized_fits h)).saveReqId req) node k.upstreamFd

theorem forwardRequest_none {w : Worker} {c : ProxyConn} {req : HttpReq} {node : UpstreamNode}
    {k : ClientReadCalls}
    (h : serialized (workerRewrite w c req k.draw) k.serializedReq.bytes = none) :
    forwardRequest w c req node k = closeClientConn w c := by
  unfold forwardRequest
  dsimp only
  split
  · rfl
  · rename_i text htext
    rw [h] at htext
    cases htext

theorem forwardRequest_some {w : Worker} {c : ProxyConn} {req : HttpReq} {node : UpstreamNode}
    {k : ClientReadCalls} {text : Bytes}
    (h : serialized (workerRewrite w c req k.draw) k.serializedReq.bytes = some text) :
    forwardRequest w c req node k = connectUpstream w
      ((c.prepare text (serialized_fits h)).saveReqId (workerRewrite w c req k.draw)) node
      k.upstreamFd := by
  unfold forwardRequest
  dsimp only
  split
  · rename_i hnone
    rw [h] at hnone
    cases hnone
  · rename_i text' htext
    cases h.symm.trans htext
    rfl

/-- The routing of a parsed request: refused, served from files, or forwarded. -/
def routeRequest (w : Worker) (c : ProxyConn) (req : HttpReq) (k : ClientReadCalls) : Handled :=
  let c := c.saveRequest req
  if blCheck w.bl c.clientIp.text then
    (closeClientConn w c).after
      [.write c.fd forbiddenResponse, .logAccess (accessText (ascii "BLOCKED") c req)]
  else
    let admitted := rlCheck w.rl c.clientIp.text k.rlCreatedMs k.rlCheckMs
    let w := { w with rl := admitted.1 }
    if !admitted.2 then
      (closeClientConn w c).after
        [.write c.fd tooManyResponse, .logAccess (accessText (ascii "RATE_LIMITED") c req)]
    else if startsWith req.path.text (ascii "/static/") then
      let root := (configGet w.cfg (ascii "upstream.static") (ascii "root")).getD
        (ascii "/var/www/html")
      (closeClientConn w c).after
        [.staticServe c.fd root (req.path.text.drop 7),
          .logAccess (accessText (ascii "STATIC") c req)]
    else
      let picked := upstreamPick w.upstream
      let w := { w with upstream := picked.1 }
      match picked.2 with
      -- no healthy node: the client is closed without a response
      | none => closeClientConn w c
      | some node => forwardRequest w c req node k

/-- `handle_client_read`. -/
def handleClientRead (w : Worker) (c : ProxyConn) (k : ClientReadCalls) : Handled :=
  match k.read with
  | .eof => closeClientConn w c
  | .failed _ => closeClientConn w c
  | .data bytes _ hfits =>
    let c := c.receive bytes hfits k.startMs
    -- the parser is fresh at every read: a request that comes in two is closed
    let req := (feed httpReqInit (c.reqBuf.bytes.take c.reqLen)).1
    if req.state ≠ .done then closeClientConn w c
    else routeRequest w c req k

/-! ## What is prepared for the upstream -/

/-- What stands in `req_buf[0..req_len)`. -/
def ProxyConn.prepared (c : ProxyConn) : Bytes := c.reqBuf.bytes.take c.reqLen

/-- The state a request that is forwarded leaves the connection in. -/
def Handled.Forwards (h : Handled) : Prop := h.conn.state = .connectingUpstream

instance (h : Handled) : Decidable h.Forwards := inferInstanceAs (Decidable (_ = _))

theorem closed_not_forwards {w : Worker} {c : ProxyConn} (hc : c.state = .readingReq)
    (before : List Action) : ¬ ((closeClientConn w c).after before).Forwards := by
  show ¬ c.state = .connectingUpstream
  rw [hc]
  decide

@[simp] theorem prepared_receive (c : ProxyConn) (bytes : Bytes) (h : bytes.length ≤ 4095)
    (now : UInt64) : (c.receive bytes h now).prepared = bytes :=
  Buffer.take_store c.reqBuf (by rw [List.length_append, List.length_singleton]; omega)

@[simp] theorem prepared_prepare (c : ProxyConn) (text : Bytes) (h : text.length ≤ 4096) :
    (c.prepare text h).prepared = text := by
  have hle : (text ++ []).length ≤ 4096 := by rwa [List.append_nil]
  simpa [ProxyConn.prepared, ProxyConn.prepare] using Buffer.take_store c.reqBuf hle

@[simp] theorem saveReqId_prepared (c : ProxyConn) (req : HttpReq) :
    (c.saveReqId req).prepared = c.prepared ∧ (c.saveReqId req).state = c.state := by
  unfold ProxyConn.saveReqId
  split <;> exact ⟨rfl, rfl⟩

theorem connectUpstream_spec {w : Worker} {c : ProxyConn} {node : UpstreamNode} {ufd : Int}
    (hc : c.state = .readingReq) (hf : (connectUpstream w c node ufd).Forwards) :
    (connectUpstream w c node ufd).conn.prepared = c.prepared := by
  unfold connectUpstream at hf ⊢
  dsimp only at hf ⊢
  split at hf
  · exact absurd hf (closed_not_forwards hc _)
  · rename_i hufd
    rw [if_neg hufd]
    rfl

theorem forwardRequest_spec {w : Worker} {c : ProxyConn} {req : HttpReq} {node : UpstreamNode}
    {k : ClientReadCalls} (hc : c.state = .readingReq) (hf : (forwardRequest w c req node k).Forwards) :
    serialized (workerRewrite w c req k.draw) k.serializedReq.bytes =
      some (forwardRequest w c req node k).conn.prepared := by
  cases htext : serialized (workerRewrite w c req k.draw) k.serializedReq.bytes with
  | none =>
    rw [forwardRequest_none htext] at hf
    exact absurd hf (closed_not_forwards hc [])
  | some text =>
    rw [forwardRequest_some htext] at hf ⊢
    have hsave := saveReqId_prepared (c.prepare text (serialized_fits htext))
      (workerRewrite w c req k.draw)
    have hprep := connectUpstream_spec (hsave.2.trans hc) hf
    rw [hsave.1, prepared_prepare] at hprep
    rw [hprep]

theorem routeRequest_spec {w : Worker} {c : ProxyConn} {req : HttpReq} {k : ClientReadCalls}
    (hc : c.state = .readingReq) (hf : (routeRequest w c req k).Forwards) :
    serialized (workerRewrite w c req k.draw) k.serializedReq.bytes =
      some (routeRequest w c req k).conn.prepared := by
  have hsave : (c.saveRequest req).state = .readingReq := hc
  unfold routeRequest at hf ⊢
  dsimp only at hf ⊢
  -- every branch in front of the forwarding closes the connection
  split at hf
  · exact absurd hf (closed_not_forwards hsave _)
  rename_i hblock
  rw [if_neg hblock]
  split at hf
  · exact absurd hf (closed_not_forwards hsave _)
  rename_i hrate
  rw [if_neg hrate]
  split at hf
  · exact absurd hf (closed_not_forwards hsave _)
  rename_i hstatic
  rw [if_neg hstatic]
  split at hf
  · exact absurd hf (closed_not_forwards hsave [])
  · exact forwardRequest_spec hsave hf

theorem handleClientRead_data {w : Worker} {c : ProxyConn} {k : ClientReadCalls} {bytes : Bytes}
    {hne : bytes ≠ []} {hfits : bytes.length ≤ 4095} (hread : k.read = .data bytes hne hfits) :
    handleClientRead w c k =
      if (feed httpReqInit bytes).1.state ≠ .done then
        closeClientConn w (c.receive bytes hfits k.startMs)
      else routeRequest w (c.receive bytes hfits k.startMs) (feed httpReqInit bytes).1 k := by
  have hdata : (c.receive bytes hfits k.startMs).reqBuf.bytes.take
      (c.receive bytes hfits k.startMs).reqLen = bytes :=
    prepared_receive c bytes hfits k.startMs
  unfold handleClientRead
  rw [hread]
  dsimp only
  rw [hdata]

/-- **What is prepared when a request is forwarded**: what was read is a whole
    request, and it has been rewritten, serialised and copied back. -/
theorem handleClientRead_spec {w : Worker} {c : ProxyConn} {k : ClientReadCalls}
    (hc : c.state = .readingReq) (hf : (handleClientRead w c k).Forwards) :
    (feed httpReqInit k.read.bytes).1.state = .done ∧
    serialized (workerRewrite w c (feed httpReqInit k.read.bytes).1 k.draw) k.serializedReq.bytes =
      some (handleClientRead w c k).conn.prepared := by
  cases hread : k.read with
  | data bytes hne hfits =>
    rw [handleClientRead_data hread] at hf ⊢
    split at hf
    · exact absurd hf (closed_not_forwards (by exact hc) [])
    · rename_i hdone
      rw [if_neg hdone]
      refine ⟨not_not.mp hdone, ?_⟩
      exact routeRequest_spec (c := c.receive bytes hfits k.startMs) hc hf
  | eof =>
    unfold handleClientRead at hf
    rw [hread] at hf
    exact absurd hf (closed_not_forwards hc [])
  | failed =>
    unfold handleClientRead at hf
    rw [hread] at hf
    exact absurd hf (closed_not_forwards hc [])

end NexusGateway
