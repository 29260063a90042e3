import NexusGateway.ActiveCount
import NexusGateway.ForwardedIds
import NexusGateway.Generations
import NexusGateway.RequestRouting

/- Whether request ids are unique (`generate_req_id` of `http_rewrite.c`).

   An id is the clock, cut to 32 bits, and two numbers of `rand`, in base 36; nothing of
   the clock's low half or of the 32 bits drawn is lost (`generateReqId_eq_iff`). Nobody
   seeds `rand`, and the master draws nothing, so every worker draws the same numbers in
   the same order, whenever it was forked. What an upstream reads under `X-Gateway-Req-Id`
   of the requests forwarded in a run is the id drawn, a custom header's value or that of a
   header that looks like this one (`SentRequest.sources`), and no two requests carry one id
   exactly when these do not meet (`ids_distinct_iff`). The ids of two workers' first requests
   do, if they are drawn at clocks that agree in their low 32 bits. -/
namespace NexusGateway
open CString

/-! ## The ids -/

/-- The 32 bits that are drawn. -/
def IdDraw.word (d : IdDraw) : UInt32 := (d.high <<< 16) ||| d.low

theorem IdDraw.id_toNat (d : IdDraw) :
    d.id.toNat = d.timestamp.toNat % 2 ^ 32 * 2 ^ 32 + d.word.toNat := by
  have hword : d.word.toNat < 2 ^ 32 := d.word.toNat_lt
  have hhigh : (d.timestamp <<< 32).toNat = (d.timestamp.toNat % 2 ^ 32) <<< 32 := by
    rw [UInt64.toNat_shiftLeft, Nat.shiftLeft_eq, Nat.shiftLeft_eq]
    exact Nat.mul_mod_mul_right (2 ^ 32) d.timestamp.toNat (2 ^ 32)
  rw [IdDraw.id, UInt64.toNat_or, hhigh, UInt32.toNat_toUInt64]
  show _ ||| d.word.toNat = _
  rw [← Nat.shiftLeft_add_eq_or_of_lt hword, Nat.shiftLeft_eq]

/-- **When two draws give one id.** -/
theorem generateReqId_eq_iff (d d' : IdDraw) :
    generateReqId d 16 = generateReqId d' 16 ↔
      d.timestamp.toNat % 2 ^ 32 = d'.timestamp.toNat % 2 ^ 32 ∧ d.word = d'.word := by
  have hid : generateReqId d 16 = generateReqId d' 16 ↔ d.id.toNat = d'.id.toNat := by
    constructor
    · intro h
      rw [generateReqId_eq, generateReqId_eq] at h
      rw [← base36Value_numeral d.id.toNat, h, base36Value_numeral]
    · intro h
      rw [generateReqId, generateReqId, UInt64.toNat_inj.mp h]
  have hword := d.word.toNat_lt
  have hword' := d'.word.toNat_lt
  rw [hid, d.id_toNat, d'.id_toNat, ← UInt32.toNat_inj]
  omega

/-! ## The draws of a run -/

/-- A draw: the number of ids that the process had drawn before, and the clock. -/
structure Draw where
  number : Nat
  timestamp : UInt64
  deriving DecidableEq, Repr

/-- What is drawn, where `rand` gives the numbers of the generator in the order in which
    a process draws them, from the state it is in when a program starts. -/
def Draw.read (rand : Nat → UInt32) (d : Draw) : IdDraw :=
  ⟨d.timestamp, rand (2 * d.number), rand (2 * d.number + 1)⟩

/-- The request read comes as far as an id: it is rewritten. -/
def takesId (w : Worker) (c : ProxyConn) (k : ClientReadCalls) : Bool :=
  match k.read with
  | .data bytes _ _ =>
    let req := (feed httpReqInit bytes).1
    decide (req.state = .done) && !blCheck w.bl c.clientIp.text &&
      (rlCheck w.rl c.clientIp.text k.rlCreatedMs k.rlCheckMs).2 &&
      !startsWith req.path.text (ascii "/static/") && (upstreamPick w.upstream).2.isSome
  | _ => false

theorem takesId_of_forwards {w : Worker} {c : ProxyConn} {k : ClientReadCalls}
    (hc : c.state = .readingReq) (h : (handleClientRead w c k).Forwards) : takesId w c k = true := by
  have hdone := (handleClientRead_spec hc h).1
  cases hread : k.read with
  | data bytes hne hfits =>
    rw [hread] at hdone
    change (feed httpReqInit bytes).1.state = .done at hdone
    have hend := handleClientRead_routed w c hread hdone
    generalize handleClientRead w c k = handled at h hend
    have hreading : c.state ≠ .connectingUpstream := by
      rw [hc]
      decide
    cases hend with
    | blocked => exact absurd h hreading
    | limited => exact absurd h hreading
    | static => exact absurd h hreading
    | dropped _ _ _ hconn => exact absurd (hconn.state.symm.trans h) hreading
    | forwarded _ hforwarded =>
      have hlisted : blCheck w.bl c.clientIp.text = false := hforwarded.unlisted
      have hadmitted : (rlCheck w.rl c.clientIp.text k.rlCreatedMs k.rlCheckMs).2 = true :=
        hforwarded.admitted
      simp [takesId, hread, hdone, hlisted, hadmitted, hforwarded.dynamic,
        Option.isSome_iff_ne_none, hforwarded.picked]
  | eof =>
    rw [hread] at hdone
    exact absurd hdone (by decide)
  | failed wouldBlock =>
    rw [hread] at hdone
    change (feed httpReqInit []).1.state = .done at hdone
    exact absurd hdone (by decide)

/-- The connection whose request an event reads. -/
def EventLoop.reads (l : EventLoop) (e : Event) : Option ProxyConn :=
  ((proxyGet l.pool e.fd).bind (fun i => l.pool.slots[i]?)).filter fun c =>
    decide (handlerFor c e.ev = some .clientRead)

theorem reads_state {l : EventLoop} {e : Event} {c : ProxyConn} (h : l.reads e = some c) :
    c.state = .readingReq := by
  obtain ⟨_, hhandler⟩ := Option.filter_eq_some_iff.mp h
  exact handlerFor_state (of_decide_eq_true hhandler)

/-- A forwarded request: what was read of it, its client and the worker's configuration, the
    draw for it, and the bytes prepared for the upstream. -/
structure SentRequest where
  read : Bytes
  ip : IpText
  cfg : Config
  draw : Draw
  text : Bytes

/-- What reading from a client forwards. -/
def sentRequests (w : Worker) (c : ProxyConn) (k : ClientReadCalls) (draw : Draw) : List SentRequest :=
  let handled := handleClientRead w c k
  if handled.Forwards then [⟨k.read.bytes, c.clientIp, w.cfg, draw, handled.conn.prepared⟩] else []

/-- All processes, with the clock, the ids that each has drawn since it was forked, and the
    requests forwarded. -/
structure IdSystem where
  system : System
  clock : UInt64
  drawn : Int → Nat
  sent : List SentRequest

/-- A step of any process. An id is drawn at a clock that has not gone back, and with the
    numbers that come next in the worker. -/
def IdSystem.step (rand : Nat → UInt32) (s : IdSystem) (a : SystemStep) : Option IdSystem :=
  (s.system.step a).bind fun system =>
    -- a process that is forked has the generator of the master, which draws nothing
    let drawn := fun pid => if (s.system.procs pid).isSome then s.drawn pid else 0
    let moved := { s with system := system, drawn := drawn }
    match a with
    | .worker pid (.event e) =>
      match ((s.system.procs pid).bind (fun p => p.pc.loop)).bind
          (fun l => (l.reads e).map (fun c => (l.worker, c))) with
      | none => some moved
      | some (w, c) =>
        let k := e.calls.clientRead
        let draw : Draw := ⟨s.drawn pid, k.draw.timestamp⟩
        let moved := { moved with sent := s.sent ++ sentRequests w c k draw }
        if takesId w c k then
          if s.clock ≤ draw.timestamp ∧ k.draw = draw.read rand then
            some { moved with
              clock := draw.timestamp, drawn := Function.update drawn pid (s.drawn pid + 1) }
          else none
        else some moved
    | _ => some moved

/-- The gateway when the master starts. -/
def idInit (cfg : Config) (online : Int32) : IdSystem where
  system := systemInit cfg online
  clock := 0
  drawn := fun _ => 0
  sent := []

/-! ## What the requests forwarded carry -/

/-- Two draws give one id: their clocks agree in the low 32 bits, and the same word is drawn. -/
def SameId (rand : Nat → UInt32) (a b : Draw) : Prop :=
  a.timestamp.toNat % 2 ^ 32 = b.timestamp.toNat % 2 ^ 32 ∧ (a.read rand).word = (b.read rand).word

/-- The text is the clock's low 32 bits and the word drawn, in base 36. -/
def Draw.Spells (rand : Nat → UInt32) (d : Draw) (text : Bytes) : Prop :=
  text = base36Numeral (d.timestamp.toNat % 2 ^ 32 * 2 ^ 32 + (d.read rand).word.toNat)

theorem spells_iff (rand : Nat → UInt32) (d : Draw) (text : Bytes) :
    d.Spells rand text ↔ text = generateReqId (d.read rand) 16 := by
  rw [generateReqId_eq, IdDraw.id_toNat]
  exact Iff.rfl

/-- What a request id comes from: a draw, or a text of the configuration or the client. -/
inductive IdSource where
  | drawn (d : Draw)
  | written (text : Bytes)
  deriving DecidableEq

def IdSource.reqId (rand : Nat → UInt32) : IdSource → Bytes
  | .drawn d => generateReqId (d.read rand) 16
  | .written text => text

/-- Two of them give one id. -/
def IdSource.Meets (rand : Nat → UInt32) : IdSource → IdSource → Prop
  | .drawn a, .drawn b => SameId rand a b
  | .drawn a, .written text => a.Spells rand text
  | .written text, .drawn b => b.Spells rand text
  | .written text, .written text' => text = text'

theorem IdSource.meets_iff (rand : Nat → UInt32) (a b : IdSource) :
    a.Meets rand b ↔ a.reqId rand = b.reqId rand := by
  cases a with
  | drawn d =>
    cases b with
    | drawn d' => exact (generateReqId_eq_iff (d.read rand) (d'.read rand)).symm
    | written text => exact (spells_iff rand d text).trans eq_comm
  | written text =>
    cases b with
    | drawn d => exact spells_iff rand d text
    | written => exact Iff.rfl

/-- What the request ids of a forwarded request come from: the client's headers that only look
    like `X-Gateway-Req-Id`, and the last header set under this name, if it finds a place: a
    custom one, or that of the id drawn. -/
def SentRequest.sources (rand : Nat → UInt32) (f : SentRequest) : List IdSource :=
  let req := (feed httpReqInit f.read).1
  (mimickedReqIds req).map .written ++
    if reqIdPlaced req f.ip (some f.cfg) (f.draw.read rand) then
      [match customReqId (some f.cfg) with
        | none => .drawn f.draw
        | some (_, s) => .written (newHeader s.1 s.2).valueRead]
    else []

/-- The request ids that an upstream reads of it. -/
def SentRequest.reqIds (f : SentRequest) : List Bytes := valuesRead xGatewayReqId f.text

/-- No request id is read of two requests. -/
def DistinctIds (sent : List SentRequest) : Prop :=
  sent.Pairwise fun a b => ∀ x ∈ a.reqIds, ∀ y ∈ b.reqIds, x ≠ y

instance (sent : List SentRequest) : Decidable (DistinctIds sent) :=
  inferInstanceAs (Decidable (sent.Pairwise _))

/-- The ids read of each request are those of its sources. -/
def IdSystem.Logged (rand : Nat → UInt32) (s : IdSystem) : Prop :=
  ∀ f ∈ s.sent, f.reqIds = (f.sources rand).map (IdSource.reqId rand)

/-- The ids read of a request that is forwarded are those of its sources: an id was drawn
    for it. -/
theorem sentBy_logged {rand : Nat → UInt32} {w : Worker} {c : ProxyConn} {k : ClientReadCalls}
    {draw : Draw} (hc : c.state = .readingReq)
    (hdraw : takesId w c k = true → k.draw = draw.read rand) :
    ∀ f ∈ sentRequests w c k draw, f.reqIds = (f.sources rand).map (IdSource.reqId rand) := by
  intro f hf
  unfold sentRequests at hf
  dsimp only at hf
  split at hf
  · rename_i hforwards
    obtain rfl := List.mem_singleton.mp hf
    obtain ⟨hdone, htext⟩ := forwarded_text hc hforwards
    rw [SentRequest.reqIds, SentRequest.sources, htext, valuesRead_forwarded hdone,
      hdraw (takesId_of_forwards hc hforwards), List.map_append, List.map_map]
    congr 1
    · exact (List.map_id' _).symm
    · split
      · cases customReqId (some w.cfg) <;> rfl
      · rfl
  · cases hf

theorem logged_step {rand : Nat → UInt32} {s s' : IdSystem} {a : SystemStep} (h : s.Logged rand)
    (hstep : s.step rand a = some s') : s'.Logged rand := by
  obtain ⟨system, _, hnext⟩ := Option.bind_eq_some_iff.mp hstep
  dsimp only at hnext
  split at hnext
  · split at hnext
    · cases hnext
      exact h
    · rename_i hreads
      obtain ⟨l, _, hmap⟩ := Option.bind_eq_some_iff.mp hreads
      obtain ⟨c, hc, heq⟩ := Option.map_eq_some_iff.mp hmap
      cases heq
      have hstate := reads_state hc
      split at hnext
      · split at hnext
        · rename_i hdraw
          cases hnext
          exact List.forall_mem_append.mpr ⟨h, sentBy_logged hstate fun _ => hdraw.2⟩
        · cases hnext
      · rename_i hno
        cases hnext
        exact List.forall_mem_append.mpr ⟨h, sentBy_logged hstate fun htakes => absurd htakes hno⟩
  · cases hnext
    exact h

/-- **When request ids are unique.** For every sequence of numbers that the generator gives
    and every run of the master, its workers and the signals sent to it, in any order and
    with any events: no id is read under `X-Gateway-Req-Id` of two forwarded requests
    exactly when no source of the one's ids meets one of the other's. -/
theorem ids_distinct_iff (rand : Nat → UInt32) (cfg : Config) (online : Int32)
    {steps : List SystemStep} {s : IdSystem}
    (hrun : Runs.run (IdSystem.step rand) (idInit cfg online) steps = some s) :
    DistinctIds s.sent ↔
      s.sent.Pairwise fun a b => ∀ x ∈ a.sources rand, ∀ y ∈ b.sources rand, ¬ x.Meets rand y := by
  have hstart : (idInit cfg online).Logged rand := nofun
  have hlogged : s.Logged rand := Runs.run_keeps logged_step steps hstart hrun
  refine List.Pairwise.iff_of_mem fun {a b} ha hb => ?_
  rw [hlogged a ha, hlogged b hb]
  simp only [List.forall_mem_map, IdSource.meets_iff, ne_eq]

/-- The first numbers of the C library's generator. -/
def firstRands (n : Nat) : UInt32 := [1804289383, 846930886, 1681692777, 1714636915].getD n 0

/-- A client's request, read at this clock as a process's request of this number. -/
def drawingEvent (number : Nat) (timestamp : UInt64) : Event :=
  ⟨7, epollIn, { EventCalls.idle with
    clientRead := { sampleRead plainRequest plainRequest_fits with
      draw := (⟨number, timestamp⟩ : Draw).read firstRands } }⟩

/-- Two workers are forked, and each lets a client in and forwards its request, the second
    one at the clock `later`. -/
def twinSteps (later : UInt64) : List SystemStep :=
  [.master ⟨none, 100, 0⟩, .master ⟨none, 101, 0⟩,
    .worker 100 (.enter idleWorker 5), .worker 101 (.enter idleWorker 5),
    .worker 100 .loadShutting, .worker 100 (.accept (acceptEvent 7)),
    .worker 101 .loadShutting, .worker 101 (.accept (acceptEvent 7)),
    .worker 100 (.event (drawingEvent 0 5000)), .worker 101 (.event (drawingEvent 0 later))]

theorem ids_distinct_iff_twins : ∃ s,
    Runs.run (IdSystem.step firstRands) (idInit sampleConfig 2) (twinSteps 5001) = some s ∧
    s.sent.length = 2 ∧ DistinctIds s.sent ∧
    (DistinctIds s.sent ↔ s.sent.Pairwise fun a b =>
      ∀ x ∈ a.sources firstRands, ∀ y ∈ b.sources firstRands, ¬ x.Meets firstRands y) := by
  have hrun : (Runs.run (IdSystem.step firstRands) (idInit sampleConfig 2) (twinSteps 5001)).map
      (fun s => (s.sent.length, decide (DistinctIds s.sent))) = some (2, true) := by
    decide +kernel
  obtain ⟨s, hs, hstate⟩ := Option.map_eq_some_iff.mp hrun
  obtain ⟨hlen, hdistinct⟩ := Prod.mk.inj hstate
  exact ⟨s, hs, hlen, of_decide_eq_true hdistinct, ids_distinct_iff firstRands sampleConfig 2 hs⟩

/-- In the same millisecond one id is read of both requests. -/
theorem twins_share_id : ∃ s,
    Runs.run (IdSystem.step firstRands) (idInit sampleConfig 2) (twinSteps 5000) = some s ∧
    s.sent.map SentRequest.reqIds = [[ascii "7m2bosm9y"], [ascii "7m2bosm9y"]] ∧ ¬ DistinctIds s.sent := by
  have hrun : (Runs.run (IdSystem.step firstRands) (idInit sampleConfig 2) (twinSteps 5000)).map
      (fun s => (s.sent.map SentRequest.reqIds, decide (DistinctIds s.sent))) =
        some ([[ascii "7m2bosm9y"], [ascii "7m2bosm9y"]], false) := by
    decide +kernel
  obtain ⟨s, hs, hstate⟩ := Option.map_eq_some_iff.mp hrun
  obtain ⟨hids, hdistinct⟩ := Prod.mk.inj hstate
  exact ⟨s, hs, hids, of_decide_eq_false hdistinct⟩

end NexusGateway
