import NexusGateway.ContentLength
import NexusGateway.ForwardedHeaders
import NexusGateway.Worker

/- What `handle_client_read` forwards of a request.

   1. `forwarded_text`: the bytes prepared are those of the rewritten request,
      whatever the state the worker and the connection were in.
   2. `forwarded_body_iff`: the body follows the head exactly when there is none: the
      parser does not keep it and the serialiser writes the head alone. -/
namespace NexusGateway
open CString Lines

/-- **The bytes prepared for the upstream.** -/
theorem forwarded_text {w : Worker} {c : ProxyConn} {k : ClientReadCalls}
    (hc : c.state = .readingReq) (hf : (handleClientRead w c k).Forwards) :
    (feed httpReqInit k.read.bytes).1.state = .done ∧
    (handleClientRead w c k).conn.prepared =
      serialText (rewritten k.read.bytes c.clientIp (some w.cfg) k.draw) := by
  obtain ⟨hd, hs⟩ := handleClientRead_spec hc hf
  exact ⟨hd, ((serialized_rewritten hd c.clientIp (some w.cfg) k.draw).mp hs).1⟩

/-! ## The body -/

theorem bodyTaken_eq_nil {data : Bytes} (hd : (feed httpReqInit data).1.state = .done) :
    bodyTaken httpReqInit data = [] ↔ ¬ 0 < bodyLength (feed httpReqInit data).1.headers := by
  have hlen : (bodyTaken httpReqInit data).length =
      bodyCount (bodyLength (feed httpReqInit data).1.headers) :=
    body_run httpReqInit data httpReqInit_ok hd
  rw [← bodyCount_eq_zero, ← hlen, List.length_eq_zero_iff]

/-- **When the body is forwarded.** For every worker, every connection that is reading
    its request and every result of the calls that ends in a forwarded request: the
    bytes prepared are the rewritten head followed by the body bytes the parser
    counted exactly when there is no body. -/
theorem forwarded_body_iff {w : Worker} {c : ProxyConn} {k : ClientReadCalls}
    (hc : c.state = .readingReq) (hf : (handleClientRead w c k).Forwards) :
    (handleClientRead w c k).conn.prepared =
        serialText (rewritten k.read.bytes c.clientIp (some w.cfg) k.draw) ++
          bodyTaken httpReqInit k.read.bytes ↔
      ¬ 0 < bodyLength (feed httpReqInit k.read.bytes).1.headers := by
  obtain ⟨hd, htext⟩ := forwarded_text hc hf
  rw [htext, ← bodyTaken_eq_nil hd]
  exact List.self_eq_append_right

def sampleWorker : Worker where
  cfg := sampleConfig
  upstream := (upstreamAddNode upstreamInit (ascii "127.0.0.1") 19998 1).1
  activeConns := 1
  rl := rlInit 100
  bl := blInit

/-- A connection just accepted. -/
def sampleConn : ProxyConn where
  fd := 7
  state := .readingReq
  upstreamFd := -1
  reqBuf := .zero 4096
  reqLen := 0
  respBuf := .zero 8192
  respLen := 0
  clientIp := sampleIp
  clientPort := 50000
  reqId := .zero size16_pos
  startMs := 0
  method := .zero size16_pos
  path := .zero size1024_pos
  version := .zero size16_pos
  statusCode := 0

/-- A read of this text, and an upstream that is there. -/
def sampleRead (data : Bytes) (h : data ≠ [] ∧ data.length ≤ 4095) : ClientReadCalls where
  read := .data data h.1 h.2
  startMs := 1000
  rlCreatedMs := 1000
  rlCheckMs := 1000
  draw := sampleDraw
  serializedReq := .zero 4096
  upstreamFd := 8

/-- A request without headers. -/
def plainRequest : Bytes := ascii "GET / HTTP/1.1\r\n\r\n"

theorem plainRequest_fits : plainRequest ≠ [] ∧ plainRequest.length ≤ 4095 := by decide +kernel

/-- A request with a body of five bytes. -/
def bodyRequest : Bytes := ascii "POST / HTTP/1.1\r\nHost: a\r\nContent-Length: 5\r\n\r\nabcde"

def bodyRead : ClientReadCalls := sampleRead bodyRequest (by decide +kernel)

theorem forwarded_body_iff_sample :
    (handleClientRead sampleWorker sampleConn bodyRead).conn.prepared =
        serialText (rewritten bodyRequest sampleIp (some sampleConfig) sampleDraw) ++
          bodyTaken httpReqInit bodyRequest ↔
      ¬ 0 < bodyLength (feed httpReqInit bodyRequest).1.headers :=
  forwarded_body_iff (w := sampleWorker) (c := sampleConn) (k := bodyRead) rfl (by decide +kernel)

theorem body_dropped :
    (handleClientRead sampleWorker sampleConn bodyRead).Forwards ∧
    bodyTaken httpReqInit bodyRequest = ascii "abcde" ∧
    (handleClientRead sampleWorker sampleConn bodyRead).conn.prepared ≠
      serialText (rewritten bodyRequest sampleIp (some sampleConfig) sampleDraw) ++
        bodyTaken httpReqInit bodyRequest := by
  decide +kernel

end NexusGateway
