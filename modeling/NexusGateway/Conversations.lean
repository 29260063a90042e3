import NexusGateway.TrafficOrigin
import NexusGateway.AccessLog
import NexusGateway.Lib.Sessions

/- What a worker does for its clients, one after the other, and what access.log says of it.

   A slot of the pool has one connection after the other. `EventLoop.marks` is what an event
   does that the client of a slot can see, with what is read for him and what is written to
   access.log: he is let in, his whole request is read, his upstream's socket is read, an answer
   is handed to write or a file served, a record is written, his descriptor is closed. In every
   run the marks of each slot are whole conversations, and behind them the one that has begun
   with the client who is there (`conversations_logged`). So a client gets at most one answer,
   a relayed one is what was read of his upstream, each answer has its one record, with what
   that client asked and how many bytes were handed to write, and behind it he is closed, once.

   A handler's calls are one step: nothing else in the worker opens or closes a descriptor
   between them. -/
namespace NexusGateway
open CString Runs Sessions

/-! ## Conversations -/

/-- The client of a connection. -/
structure Peer where
  fd : Int
  ip : IpText
  port : UInt16
  deriving DecidableEq, Repr

/-- What is noted of a request. -/
structure RequestLine where
  method : CharArray 16
  path : CharArray 1024
  version : CharArray 16
  deriving DecidableEq, Repr

def ProxyConn.peer (c : ProxyConn) : Peer := ⟨c.fd, c.clientIp, c.clientPort⟩

def ProxyConn.line (c : ProxyConn) : RequestLine := ⟨c.method, c.path, c.version⟩

def HttpReq.line (req : HttpReq) : RequestLine := ⟨req.method, req.path, req.version⟩

/-- What is done for a client, and for the log. -/
inductive Mark where
  | letIn (peer : Peer)
  | asked (line : RequestLine)
  | replied (bytes : Bytes)
  | answered (bytes : Bytes)
  | served (root path : Bytes)
  | recorded (text : Bytes)
  | recordedFull (record : AccessFull)
  | closed
  deriving DecidableEq, Repr

/-- A record of access.log. -/
def Action.record : Action → Option Mark
  | .logAccess text => some (.recorded text)
  | .logAccessFull record => some (.recordedFull record)
  | _ => none

/-- What an action is for the client of the connection, and for the log. -/
def Action.mark (c : ProxyConn) : Action → Option Mark
  | .write fd bytes => if fd = c.fd then some (.answered bytes) else none
  | .staticServe fd root path => if fd = c.fd then some (.served root path) else none
  | .close fd => if fd = c.fd then some .closed else none
  | a => a.record

/-- `"<tag> %s %s %s"` of the address, the method and the path. -/
def requestRecord (tag : Bytes) (peer : Peer) (line : RequestLine) : Bytes :=
  tag ++ sp :: (peer.ip.text ++ sp :: (line.method.text ++ sp :: line.path.text))

/-- The record says who asked what and how many bytes were handed to write for him. -/
structure AccessFull.Tells (record : AccessFull) (peer : Peer) (line : RequestLine) (bytes : Bytes) :
    Prop where
  clientIp : record.clientIp = peer.ip
  clientPort : record.clientPort = peer.port
  line : (⟨record.method, record.path, record.version⟩ : RequestLine) = line
  statusCode : record.statusCode = 200
  bytesSent : record.bytesSent = bytes.length

/-- All that is done for a client, from his accept to the close. -/
inductive Conversation : List Mark → Prop
  | unread (peer : Peer) : Conversation [.letIn peer, .closed]
  | unanswered (peer : Peer) (line : RequestLine) : Conversation [.letIn peer, .asked line, .closed]
  | forbidden (peer : Peer) (line : RequestLine) :
      Conversation [.letIn peer, .asked line, .answered forbiddenResponse,
        .recorded (requestRecord (ascii "BLOCKED") peer line), .closed]
  | tooMany (peer : Peer) (line : RequestLine) :
      Conversation [.letIn peer, .asked line, .answered tooManyResponse,
        .recorded (requestRecord (ascii "RATE_LIMITED") peer line), .closed]
  | file (peer : Peer) (line : RequestLine) (root : Bytes)
      (hstatic : startsWith line.path.text (ascii "/static/") = true) :
      Conversation [.letIn peer, .asked line, .served root (line.path.text.drop 7),
        .recorded (requestRecord (ascii "STATIC") peer line), .closed]
  | relayed (peer : Peer) (line : RequestLine) {bytes : Bytes} (hne : bytes ≠ [])
      {record : AccessFull} (htells : record.Tells peer line bytes) :
      Conversation [.letIn peer, .asked line, .replied bytes, .answered bytes,
        .recordedFull record, .closed]

/-- As far as it has come. -/
def ProxyConn.begun (c : ProxyConn) : List Mark :=
  .letIn c.peer :: if c.state = .readingReq then [] else [.asked c.line]

/-- The client in a slot. -/
def ProxyConn.guest (c : ProxyConn) : Option ProxyConn := if 0 < c.fd then some c else none

def LoopWorld.guest (i : Nat) (s : LoopWorld) : Option ProxyConn := (s.slot i).bind ProxyConn.guest

/-- The request that an event brings of the connection, if it is whole. -/
def Event.asks (e : Event) (c : ProxyConn) : List Mark :=
  if handlerFor c e.ev = some .clientRead ∧ e.request.state = .done then [.asked e.request.line] else []

/-- What an event brings of the response to the connection: what its upstream's socket is read. -/
def Event.replies (e : Event) (c : ProxyConn) : List Mark :=
  if handlerFor c e.ev = some .upstreamReadable ∧ 0 ≤ c.upstreamFd ∧ e.calls.readable.read.bytes ≠ [] then
    [.replied e.calls.readable.read.bytes]
  else []

/-- What an event does for the client in a slot, and for the log. -/
def EventLoop.marks (l : EventLoop) (i : Nat) (e : Event) : List Mark :=
  if l.slotFor e = some i then
    if e.fd = l.listenFd then
      [.letIn ⟨e.calls.accept.accepted, e.calls.accept.clientIp, e.calls.accept.clientPort⟩]
    else
      match l.pool.slots[i]? with
      | none => []
      | some c => e.asks c ++ e.replies c ++ (onEvent l e).2.filterMap (Action.mark c)
  else []

/-- The same of a step of the worker. -/
def LoopWorld.marks (i : Nat) (s : LoopWorld) : WorkerStep → List Mark
  | .event e => s.loop.marks i e
  | .health _ _ => []

/-! ## The handlers -/

theorem guest_of_pos {c : ProxyConn} (h : 0 < c.fd) : c.guest = some c := if_pos h

theorem guest_of_zero {c : ProxyConn} (h : c.fd = 0) : c.guest = none := if_neg (by omega)

theorem mark_write {c : ProxyConn} {fd : Int} (h : fd = c.fd) (bytes : Bytes) :
    (Action.write fd bytes).mark c = some (.answered bytes) := if_pos h

theorem mark_serve {c : ProxyConn} {fd : Int} (h : fd = c.fd) (root path : Bytes) :
    (Action.staticServe fd root path).mark c = some (.served root path) := if_pos h

theorem close_marks (w : Worker) {c c' : ProxyConn} (hclient : 0 < c.fd) (hfd : c'.fd = c.fd)
    (hufd : c'.upstreamFd ≠ c.fd) :
    (closeClientConn w c').actions.filterMap (Action.mark c) = [.closed] := by
  unfold closeClientConn
  dsimp only
  rw [hfd, if_pos hclient, if_pos hclient]
  split
  · simp [List.filterMap_cons, Action.mark, Action.record, hufd]
  · simp [List.filterMap_cons, Action.mark, Action.record]

theorem after_marks (w : Worker) {c c' : ProxyConn} (hclient : 0 < c.fd) (hfd : c'.fd = c.fd)
    (hufd : c'.upstreamFd ≠ c.fd) (before : List Action) :
    ((closeClientConn w c').after before).actions.filterMap (Action.mark c) =
      before.filterMap (Action.mark c) ++ [.closed] := by
  rw [Handled.after, List.filterMap_append, close_marks w hclient hfd hufd]

theorem unread_leaves {w : Worker} {c c' : ProxyConn} (hclient : 0 < c.fd)
    (hstate : c.state = .readingReq) (hfd : c'.fd = c.fd) (hufd : c'.upstreamFd ≠ c.fd) :
    Turn ProxyConn.begun Conversation (some c) (closeClientConn w c').conn.guest
      ((closeClientConn w c').actions.filterMap (Action.mark c)) := by
  have hgone : (closeClientConn w c').conn.guest = none := guest_of_zero (closed_fd w c' [])
  rw [close_marks w hclient hfd hufd, hgone]
  refine .leaves ?_
  rw [ProxyConn.begun, if_pos hstate]
  exact .unread c.peer

theorem asked_leaves {c c' : ProxyConn} (hstate : c.state ≠ .readingReq) (hclosed : c'.fd = 0)
    {given : List Mark} (hrest : Conversation (.letIn c.peer :: .asked c.line :: given)) :
    Turn ProxyConn.begun Conversation (some c) c'.guest given := by
  rw [guest_of_zero hclosed]
  refine .leaves ?_
  rw [ProxyConn.begun, if_neg hstate]
  exact hrest

theorem routeRequest_port {w : Worker} {c : ProxyConn} {req : HttpReq} {k : ClientReadCalls}
    (hfd : (routeRequest w c req k).conn.fd ≠ 0) :
    (routeRequest w c req k).conn.clientPort = c.clientPort := by
  have hnoted (c : ProxyConn) (req : HttpReq) : (c.saveReqId req).clientPort = c.clientPort := by
    unfold ProxyConn.saveReqId
    split <;> rfl
  unfold routeRequest at hfd ⊢
  dsimp only at hfd ⊢
  split at hfd
  · exact absurd (closed_fd _ _ _) hfd
  rename_i hunlisted
  rw [if_neg hunlisted]
  split at hfd
  · exact absurd (closed_fd _ _ _) hfd
  rename_i hadmitted
  rw [if_neg hadmitted]
  split at hfd
  · exact absurd (closed_fd _ _ _) hfd
  rename_i hdynamic
  rw [if_neg hdynamic]
  split at hfd
  · exact absurd (closed_fd _ _ []) hfd
  rename_i node hpicked
  cases htext : serialized (workerRewrite _ (c.saveRequest req) req k.draw) k.serializedReq.bytes with
  | none =>
    rw [forwardRequest_none htext] at hfd
    exact absurd (closed_fd _ _ []) hfd
  | some text =>
    rw [forwardRequest_some htext] at hfd ⊢
    unfold connectUpstream at hfd ⊢
    dsimp only at hfd ⊢
    split at hfd
    · exact absurd (closed_fd _ _ _) hfd
    · rename_i hconnected
      rw [if_neg hconnected]
      exact hnoted _ _

theorem OnItsWay.line_eq {w : Worker} {c c' : ProxyConn} {req : HttpReq} {k : ClientReadCalls}
    (h : OnItsWay w c req k c') : c'.line = req.line := by
  rw [ProxyConn.line, h.method, h.path, h.version, HttpReq.line]
  congr 1 <;> exact CharArray.ext (snprintf_text _ _)

theorem answered_leaves {w : Worker} {c c' : ProxyConn} (hclient : 0 < c.fd)
    (hstate : c.state = .readingReq) (hfd : c'.fd = c.fd) (hufd : c'.upstreamFd ≠ c.fd)
    {line : RequestLine} {said : Action} {answer : Mark} (hsaid : said.mark c = some answer)
    {text : Bytes} (hwhole : Conversation [.letIn c.peer, .asked line, answer, .recorded text, .closed]) :
    Turn ProxyConn.begun Conversation (some c)
      ((closeClientConn w c').after [said, .logAccess text]).conn.guest
      ([.asked line] ++
        ((closeClientConn w c').after [said, .logAccess text]).actions.filterMap (Action.mark c)) := by
  have hrecorded : (Action.logAccess text).mark c = some (.recorded text) := rfl
  rw [after_marks w hclient hfd hufd, guest_of_zero (closed_fd w c' _),
    List.filterMap_cons_some hsaid, List.filterMap_cons_some hrecorded, List.filterMap_nil]
  refine .leaves ?_
  rw [ProxyConn.begun, if_pos hstate]
  exact hwhole

theorem routed_turn {w : Worker} {c c' : ProxyConn} {req : HttpReq} {k : ClientReadCalls}
    {h : Handled} (hclient : 0 < c.fd) (hstate : c.state = .readingReq) (hufd : c.upstreamFd ≠ c.fd)
    (hread : c'.peer = c.peer) (hkept : c'.upstreamFd = c.upstreamFd) (hrouted : Routed w c' req k h)
    (hport : h.conn.fd ≠ 0 → h.conn.clientPort = c.clientPort) :
    Turn ProxyConn.begun Conversation (some c) h.conn.guest
      ([.asked req.line] ++ h.actions.filterMap (Action.mark c)) := by
  have hfd : c'.fd = c.fd := congrArg Peer.fd hread
  have hip : c'.clientIp = c.clientIp := congrArg Peer.ip hread
  have htext (tag : Bytes) : accessText tag c' req = requestRecord tag c.peer req.line := by
    rw [accessText, hip]
    rfl
  have hufd' : c'.upstreamFd ≠ c.fd := by rwa [hkept]
  cases hrouted with
  | blocked =>
    refine answered_leaves hclient hstate hfd hufd' (mark_write hfd _) ?_
    rw [htext]
    exact .forbidden c.peer req.line
  | limited =>
    refine answered_leaves hclient hstate hfd hufd' (mark_write hfd _) ?_
    rw [htext]
    exact .tooMany c.peer req.line
  | static _ _ _ hstatic =>
    refine answered_leaves hclient hstate hfd hufd' (mark_serve hfd _ _) ?_
    rw [htext]
    exact .file c.peer req.line (staticRoot w.cfg) hstatic
  | @dropped w' c'' before _ _ _ hgiven hbefore =>
    have hquiet : before.filterMap (Action.mark c) = [] := by
      obtain rfl | ⟨_, host, port, rfl⟩ := hbefore <;> rfl
    rw [after_marks w' hclient (hgiven.fd.trans hfd) (by rw [hgiven.upstreamFd]; exact hufd'),
      hquiet, guest_of_zero (closed_fd w' c'' before)]
    refine .leaves ?_
    rw [ProxyConn.begun, if_pos hstate]
    exact .unanswered c.peer req.line
  | @forwarded w' c'' host port _ _ hway =>
    have hfd'' : c''.fd = c.fd := hway.fd.trans hfd
    have hpeer : c''.peer = c.peer := by
      rw [ProxyConn.peer, hfd'', hway.clientIp.trans hip, hport (by rw [hfd'']; omega)]
      rfl
    rw [guest_of_pos (by rw [hfd'']; exact hclient)]
    refine .stays ?_
    rw [ProxyConn.begun, ProxyConn.begun, hpeer, hway.state, hway.line_eq, if_pos hstate]
    rfl

theorem clientRead_turn {w : Worker} {c : ProxyConn} {e : Event} (hclient : 0 < c.fd)
    (hufd : c.upstreamFd ≠ c.fd) (hh : handlerFor c e.ev = some .clientRead) :
    Turn ProxyConn.begun Conversation (some c) (handleClientRead w c e.calls.clientRead).conn.guest
      (e.asks c ++ (handleClientRead w c e.calls.clientRead).actions.filterMap (Action.mark c)) := by
  have hstate : c.state = .readingReq := handlerFor_state hh
  have hunasked (hpart : e.request.state ≠ .done) : e.asks c = [] := if_neg fun h => hpart h.2
  have hempty (hnone : e.calls.clientRead.read.bytes = []) : e.asks c = [] := by
    apply hunasked
    rw [Event.request, hnone]
    decide
  cases hread : e.calls.clientRead.read with
  | eof =>
    rw [hempty (by rw [hread]; rfl), handleClientRead, hread]
    exact unread_leaves hclient hstate rfl hufd
  | failed wouldBlock =>
    rw [hempty (by rw [hread]; rfl), handleClientRead, hread]
    exact unread_leaves hclient hstate rfl hufd
  | data bytes hne hfits =>
    have hrequest : e.request = (feed httpReqInit bytes).1 := by
      rw [Event.request, hread]
      rfl
    by_cases hdone : (feed httpReqInit bytes).1.state = .done
    · have hasks : e.asks c = [.asked (feed httpReqInit bytes).1.line] := by
        rw [← hrequest]
        exact if_pos ⟨hh, by rw [hrequest]; exact hdone⟩
      rw [hasks]
      have hrouted := handleClientRead_routed w c hread hdone
      refine routed_turn hclient hstate hufd ?_ ?_ hrouted ?_
      · rfl
      · rfl
      · rw [handleClientRead_data hread, if_neg (not_not.mpr hdone)]
        exact routeRequest_port
    · rw [hunasked (by rw [hrequest]; exact hdone), handleClientRead_data hread, if_pos hdone]
      exact unread_leaves hclient hstate rfl hufd

theorem upstream_unmarked {c : ProxyConn} (hufd : c.upstreamFd ≠ c.fd) :
    [Action.close c.upstreamFd, .epollDel c.upstreamFd].filterMap (Action.mark c) = [] := by
  have hclose : (Action.close c.upstreamFd).mark c = none := if_neg hufd
  rw [List.filterMap_cons_none hclose]
  rfl

theorem upstreamWritable_turn {w : Worker} {c : ProxyConn} {k : UpstreamWritableCalls}
    (hclient : 0 < c.fd) (hufd : c.upstreamFd ≠ c.fd) (hstate : c.state = .connectingUpstream) :
    Turn ProxyConn.begun Conversation (some c) (handleUpstreamWritable w c k).conn.guest
      ((handleUpstreamWritable w c k).actions.filterMap (Action.mark c)) := by
  have hasked : c.state ≠ .readingReq := by rw [hstate]; decide
  have hwrite : (Action.write c.upstreamFd (c.reqBuf.bytes.take c.reqLen)).mark c = none :=
    if_neg hufd
  unfold handleUpstreamWritable
  dsimp only
  split
  · rw [guest_of_pos hclient]
    exact .quiet _
  split
  · rw [after_marks w hclient rfl hufd, upstream_unmarked hufd]
    exact asked_leaves hasked (closed_fd w c _) (.unanswered c.peer c.line)
  split
  · rw [List.filterMap_cons_none hwrite, guest_of_pos (show 0 < ({ c with state := .readingUpstream }
      : ProxyConn).fd from hclient)]
    refine .stays ?_
    rw [ProxyConn.begun, ProxyConn.begun, if_neg hasked]
    rfl
  · rw [List.filterMap_cons_none hwrite, guest_of_pos hclient]
    exact .quiet _

theorem upstreamReadable_turn {w : Worker} {c : ProxyConn} {e : Event} (hclient : 0 < c.fd)
    (hufd : c.upstreamFd ≠ c.fd) (hh : handlerFor c e.ev = some .upstreamReadable) :
    Turn ProxyConn.begun Conversation (some c) (handleUpstreamReadable w c e.calls.readable).conn.guest
      (e.replies c ++
        (handleUpstreamReadable w c e.calls.readable).actions.filterMap (Action.mark c)) := by
  have hasked : c.state ≠ .readingReq := by rw [handlerFor_state hh]; decide
  have hsilent (hnone : e.calls.readable.read.bytes = []) : e.replies c = [] :=
    if_neg fun h => h.2.2 hnone
  unfold handleUpstreamReadable
  dsimp only
  by_cases hopen : c.upstreamFd < 0
  · have hunread : e.replies c = [] := if_neg fun h => absurd h.2.1 (by omega)
    rw [if_pos hopen, hunread, guest_of_pos hclient]
    exact .quiet _
  rw [if_neg hopen]
  cases hread : e.calls.readable.read with
  | data bytes hne hfits =>
    have hreplies : e.replies c = [.replied bytes] := by
      have hbytes : e.calls.readable.read.bytes = bytes := by rw [hread]; rfl
      rw [Event.replies, hbytes]
      exact if_pos ⟨hh, by omega, hne⟩
    have hfd : (c.receiveResponse bytes hfits).fd = c.fd := rfl
    have htells : ((c.receiveResponse bytes hfits).accessFull e.calls.readable.nowMs).Tells
        c.peer c.line bytes := ⟨rfl, rfl, rfl, rfl, rfl⟩
    have hrecord (r : AccessFull) : (Action.logAccessFull r).mark c = some (.recordedFull r) := rfl
    dsimp only
    rw [hreplies, response_written, after_marks w hclient hfd hufd,
      List.filterMap_cons_some (mark_write hfd bytes), List.filterMap_cons_some (hrecord _),
      upstream_unmarked hufd]
    exact asked_leaves hasked (closed_fd w _ _) (.relayed c.peer c.line hne htells)
  | eof =>
    dsimp only
    rw [hsilent (by rw [hread]; rfl), after_marks w hclient rfl hufd, upstream_unmarked hufd]
    exact asked_leaves hasked (closed_fd w c _) (.unanswered c.peer c.line)
  | failed wouldBlock =>
    rw [hsilent (by rw [hread]; rfl)]
    cases wouldBlock with
    | true =>
      rw [guest_of_pos hclient]
      exact .quiet _
    | false =>
      have hclosed : (Action.close c.fd).mark c = some .closed := if_pos rfl
      have hmarks : [Action.close c.upstreamFd, .epollDel c.upstreamFd, .close c.fd,
          .epollDel c.fd].filterMap (Action.mark c) = [.closed] := by
        calc _ = [Action.close c.upstreamFd, .epollDel c.upstreamFd].filterMap (Action.mark c) ++
              [Action.close c.fd, .epollDel c.fd].filterMap (Action.mark c) := List.filterMap_append
          _ = [.closed] := by
              rw [upstream_unmarked hufd, List.filterMap_cons_some hclosed]
              rfl
      dsimp only
      rw [hmarks]
      exact asked_leaves hasked rfl (.unanswered c.peer c.line)

/-! ## One step -/

theorem upstream_apart {s : LoopWorld} (h : LoopInv s) {i : Nat} {c : ProxyConn}
    (hget : s.slot i = some c) (hclient : 0 < c.fd) : c.upstreamFd ≠ c.fd := by
  intro hsame
  have hmem : c.descriptors.Sublist s.loop.pool.recorded := by
    rw [Pool.recorded, List.flatMap_def]
    exact List.sublist_flatten_of_mem (List.mem_map_of_mem (List.mem_of_getElem? hget))
  have hcount := (hmem.count_le c.fd).trans (h.once c.fd)
  rw [count_descriptors, hsame, if_pos ⟨hclient, rfl⟩] at hcount
  omega

theorem handled_turn {w : Worker} {c : ProxyConn} {e : Event} (hclient : 0 < c.fd)
    (hufd : c.upstreamFd ≠ c.fd) :
    Turn ProxyConn.begun Conversation (some c) (handleConn w c e.ev e.calls).conn.guest
      (e.asks c ++ e.replies c ++ (handleConn w c e.ev e.calls).actions.filterMap (Action.mark c)) := by
  have hunasked (h : handlerFor c e.ev ≠ some .clientRead) : e.asks c = [] :=
    if_neg fun hasks => h hasks.1
  have hunreplied (h : handlerFor c e.ev ≠ some .upstreamReadable) : e.replies c = [] :=
    if_neg fun hreplies => h hreplies.1
  unfold handleConn
  cases hh : handlerFor c e.ev with
  | none =>
    rw [hunasked (by rw [hh]; decide), hunreplied (by rw [hh]; decide), guest_of_pos hclient]
    exact .quiet _
  | some handler =>
    cases handler with
    | clientRead =>
      rw [hunreplied (by rw [hh]; decide), List.append_nil]
      exact clientRead_turn hclient hufd hh
    | upstreamWritable =>
      rw [hunasked (by rw [hh]; decide), hunreplied (by rw [hh]; decide)]
      exact upstreamWritable_turn hclient hufd (handlerFor_state hh)
    | upstreamReadable =>
      rw [hunasked (by rw [hh]; decide), List.nil_append]
      exact upstreamReadable_turn hclient hufd hh

theorem acceptConn_slot {l : EventLoop} {e : Event} (hlisten : e.fd = l.listenFd) (i : Nat) :
    (l.slotFor e = some i ∧
      ∃ c, l.pool.slots[i]? = some c ∧ c.isFree = true ∧
        (acceptConn l e.calls.accept).1.pool.slots[i]? = some (.opened e.calls.accept
          { c with fd := e.calls.accept.accepted, state := .idle, upstreamFd := -1 })) ∨
      (l.slotFor e ≠ some i ∧
        (acceptConn l e.calls.accept).1.pool.slots[i]? = l.pool.slots[i]?) := by
  have hfor := slotFor_listen hlisten
  unfold acceptConn proxyAlloc
  split
  · rename_i hrefuses
    rw [if_pos (.inl hrefuses)] at hfor
    rw [hfor]
    exact .inr ⟨nofun, rfl⟩
  rename_i hlet
  split
  · rename_i hfailed
    rw [if_pos (.inr hfailed)] at hfor
    rw [hfor]
    exact .inr ⟨nofun, rfl⟩
  rename_i hopen
  rw [if_neg (not_or.mpr ⟨hlet, hopen⟩)] at hfor
  rw [hfor]
  cases hslot : l.pool.slots.findIdx? ProxyConn.isFree with
  | none => exact .inr ⟨nofun, rfl⟩
  | some j =>
    obtain ⟨c, hget, _, hfree⟩ := Slots.findIdx?_some hslot
    by_cases hij : j = i
    · subst hij
      refine .inl ⟨rfl, c, hget, hfree, ?_⟩
      show ((l.pool.slots.modify j _).modify j _)[j]? = _
      rw [List.getElem?_modify_eq, List.getElem?_modify_eq, hget]
      rfl
    · refine .inr ⟨fun h => hij (Option.some.inj h), ?_⟩
      show ((l.pool.slots.modify j _).modify j _)[i]? = _
      rw [List.getElem?_modify_ne _ _ hij, List.getElem?_modify_ne _ _ hij]

theorem handled_slot {l : EventLoop} {e : Event} (hother : e.fd ≠ l.listenFd) (i : Nat) :
    (l.slotFor e = some i ∧ ∃ c, l.pool.slots[i]? = some c ∧ c.records e.fd = true ∧
      (onEvent l e).1.pool.slots[i]? = some (handleConn l.worker c e.ev e.calls).conn ∧
      (onEvent l e).2 = (handleConn l.worker c e.ev e.calls).actions) ∨
      (l.slotFor e ≠ some i ∧ (onEvent l e).1.pool.slots[i]? = l.pool.slots[i]?) := by
  unfold onEvent EventLoop.slotFor
  rw [if_neg hother, if_neg hother]
  cases hslot : proxyGet l.pool e.fd with
  | none => exact .inr ⟨nofun, rfl⟩
  | some j =>
    obtain ⟨c, hget, _, hrecords⟩ := Slots.findIdx?_some hslot
    dsimp only
    rw [hget]
    by_cases hij : j = i
    · subst hij
      refine .inl ⟨rfl, c, hget, hrecords, ?_, rfl⟩
      show (l.pool.slots.modify j _)[j]? = _
      rw [List.getElem?_modify_eq, hget]
      rfl
    · refine .inr ⟨fun h => hij (Option.some.inj h), ?_⟩
      show (l.pool.slots.modify j _)[i]? = _
      rw [List.getElem?_modify_ne _ _ hij]

theorem accepted_pos {l : EventLoop} {e : Event} (hlisten : e.fd = l.listenFd) {i : Nat}
    (hslot : l.slotFor e = some i) (hops : PositiveOps (e.ops (onEvent l e).2)) :
    0 < e.calls.accept.accepted := by
  have hstep := onEvent_step l e
  generalize (onEvent l e).1 = l', e.ops (onEvent l e).2 = ops at hops hstep
  cases hstep with
  | still hnone => cases hnone.symm.trans hslot
  | forgot hnone => cases hnone.symm.trans hslot
  | admitted => exact hops _ List.mem_cons_self
  | handled _ _ _ hother => exact absurd hlisten hother

/-- What one step does for the client in a slot. -/
theorem slot_turn {s s' : LoopWorld} {a : WorkerStep} (h : LoopInv s) (hstep : s.step a = some s')
    (i : Nat) : Turn ProxyConn.begun Conversation (s.guest i) (s'.guest i) (s.marks i a) := by
  cases a with
  | health node healthy =>
    cases hstep
    exact .quiet _
  | event e =>
    obtain ⟨hpos, hops, hloop, _⟩ := worldStep_some hstep
    have hafter : s'.guest i = ((onEvent s.loop e).1.pool.slots[i]?).bind ProxyConn.guest := by
      rw [LoopWorld.guest, LoopWorld.slot, hloop]
    have hbefore : s.guest i = (s.loop.pool.slots[i]?).bind ProxyConn.guest := rfl
    show Turn _ _ _ _ (s.loop.marks i e)
    unfold EventLoop.marks
    by_cases hlisten : e.fd = s.loop.listenFd
    · have hevent : onEvent s.loop e = acceptConn s.loop e.calls.accept := if_pos hlisten
      obtain ⟨hslot, c, hget, hfree, hset⟩ | ⟨hslot, hsame⟩ := acceptConn_slot hlisten i
      · have hempty : c.guest = none := guest_of_zero (beq_iff_eq.mp hfree)
        have hclient := accepted_pos hlisten hslot hops
        rw [if_pos hslot, if_pos hlisten, hafter, hevent, hset, hbefore, hget, Option.bind_some,
          Option.bind_some, hempty, guest_of_pos hclient]
        exact .comes _
      · rw [if_neg hslot, hafter, hevent, hsame]
        exact .quiet _
    · obtain ⟨hslot, c, hget, hrecords, hset, hactions⟩ | ⟨hslot, hsame⟩ := handled_slot hlisten i
      · have hclient := client_of_records (h.slots c (List.mem_of_getElem? hget)) hpos hrecords
        rw [if_pos hslot, if_neg hlisten, hget, hafter, hset, hactions, hbefore, hget,
          Option.bind_some, Option.bind_some, guest_of_pos hclient]
        exact handled_turn hclient (upstream_apart h hget hclient)
      · rw [if_neg hslot, hafter, hsame]
        exact .quiet _

/-! ## Runs -/

theorem nobody_at_start {s₀ : LoopWorld} (h₀ : s₀.Started) (i : Nat) : s₀.guest i = none := by
  rw [LoopWorld.guest, LoopWorld.slot, h₀.loop.pool]
  cases hget : poolInit.slots[i]? with
  | none => rfl
  | some c =>
    rw [List.eq_of_mem_replicate (List.mem_of_getElem? hget)]
    rfl

theorem accept_unrecorded (l : EventLoop) (k : AcceptCalls) :
    (acceptConn l k).2.filterMap Action.record = [] := by
  unfold acceptConn
  split
  · rfl
  split
  · rfl
  split <;> rfl

/-- What a run has done for the clients of a slot. -/
theorem slot_logged {s₀ s : LoopWorld} (h₀ : s₀.Started) {steps : List WorkerStep}
    (hrun : run LoopWorld.step s₀ steps = some s) (i : Nat) :
    Logged ProxyConn.begun Conversation (s.guest i)
      (outputs LoopWorld.step (LoopWorld.marks i) s₀ steps) :=
  outputs_logged (started_inv h₀) (nobody_at_start h₀ i)
    (fun hinv htaken => ⟨step_inv hinv htaken, slot_turn hinv htaken i⟩) steps hrun

theorem record_marked (c : ProxyConn) {a : Action} {m : Mark} (h : a.record = some m) :
    a.mark c = some m := by
  cases a with
  | logAccess text => exact h
  | logAccessFull record => exact h
  | _ => cases h

theorem recorded_for_slot {l : EventLoop} {e : Event} {m : Mark}
    (hm : m ∈ (onEvent l e).2.filterMap Action.record) : ∃ i, m ∈ l.marks i e := by
  by_cases hlisten : e.fd = l.listenFd
  · rw [show onEvent l e = acceptConn l e.calls.accept from if_pos hlisten, accept_unrecorded] at hm
    cases hm
  cases hslot : l.slotFor e with
  | none =>
    have hnone : (onEvent l e).2 = [] := by
      rw [slotFor_conn hlisten] at hslot
      rw [onEvent, if_neg hlisten, hslot]
    rw [hnone] at hm
    cases hm
  | some i =>
    refine ⟨i, ?_⟩
    obtain ⟨_, c, hget, _⟩ | ⟨hother, _⟩ := handled_slot hlisten i
    · obtain ⟨a, ha, hrecord⟩ := List.mem_filterMap.mp hm
      rw [EventLoop.marks, if_pos hslot, if_neg hlisten, hget]
      exact List.mem_append_right _ (List.mem_filterMap.mpr ⟨a, ha, record_marked c hrecord⟩)
    · exact absurd hslot hother

/-- **Conversations and their records.** For every run of a worker from the entry of its loop,
    whatever its system calls return, and every slot of its pool: what is done for the
    clients of the slot, with what is read of their upstreams and what is written to
    access.log for them, is a sequence of whole conversations, and behind them what has begun
    with the client who is there. Every record of access.log is part of the conversation of
    some slot. -/
theorem conversations_logged {s₀ s : LoopWorld} (h₀ : s₀.Started) {steps : List WorkerStep}
    (hrun : run LoopWorld.step s₀ steps = some s) :
    (∀ i, Logged ProxyConn.begun Conversation (s.guest i)
      (outputs LoopWorld.step (LoopWorld.marks i) s₀ steps)) ∧
    ∀ e, ∀ m ∈ (onEvent s.loop e).2.filterMap Action.record, ∃ i, m ∈ s.marks i (.event e) :=
  ⟨slot_logged h₀ hrun, fun _ _ hm => recorded_for_slot hm⟩

/-- One client after the other in the first slot: the first is answered by his upstream, the
    second has just been let in. -/
def twoClients : List WorkerStep :=
  answeredSteps ++ [.event (upstreamEvent 8 responseRead), .event (acceptEvent 7)]

theorem conversations_logged_twice : ∃ s, run LoopWorld.step sampleWorld twoClients = some s ∧
    (outputs LoopWorld.step (LoopWorld.marks 0) sampleWorld twoClients).length = 7 ∧
    Logged ProxyConn.begun Conversation (s.guest 0)
      (outputs LoopWorld.step (LoopWorld.marks 0) sampleWorld twoClients) := by
  have hruns : (run LoopWorld.step sampleWorld twoClients).isSome = true := by decide +kernel
  obtain ⟨s, hs⟩ := Option.isSome_iff_exists.mp hruns
  exact ⟨s, hs, by decide +kernel, (conversations_logged sampleWorld_started hs).1 0⟩

end NexusGateway
