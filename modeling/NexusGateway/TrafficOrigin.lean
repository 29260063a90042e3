import NexusGateway.EventBatch
import NexusGateway.Lib.History

/- Where everything comes from that a worker writes.

   What a connection is in its slot goes back to events of the run: it was let in
   (`LetIn`), its client sent a whole request that passed every check (`Asked`), and that
   request was written to its upstream (`Sent`), each while the slot held the same
   connection. So of any run each write and each file served has its origin
   (`traffic_origin`): a refusal to a client that was to be refused, the serialised request
   of the connection's own client to its own upstream, or what that upstream sent to that
   client. A handler's calls are one step here: nothing else opens or closes a descriptor
   between them. Where something does, a number closed twice may be another's by then
   (`DescriptorOwnership`). -/
namespace NexusGateway
open CString Runs

/-! ## The origin of a connection -/

/-- What stands in a slot. -/
def LoopWorld.slot (i : Nat) (s : LoopWorld) : Option ProxyConn := s.loop.pool.slots[i]?

/-- The event runs this handler of the slot's connection. -/
structure RunsHandler (s : LoopWorld) (e : Event) (i : Nat) (c : ProxyConn) (h : Handler) : Prop where
  other : e.fd ≠ s.loop.listenFd
  found : proxyGet s.loop.pool e.fd = some i
  here : s.slot i = some c
  handler : handlerFor c e.ev = some h

/-- The step lets the connection in, from this address. -/
def LetsIn (c : ProxyConn) (s : LoopWorld) : WorkerStep → Prop
  | .event e => e.fd = s.loop.listenFd ∧ s.loop.refuses e.calls.accept = false ∧
      c.fd = e.calls.accept.accepted ∧ c.clientIp = e.calls.accept.clientIp
  | .health _ _ => False

/-- The connection has been in the slot since it was let in. -/
def LetIn (s₀ : LoopWorld) (steps : List WorkerStep) (i : Nat) (c : ProxyConn) : Prop :=
  Since LoopWorld.step (LoopWorld.slot i) (fun _ s a => LetsIn c s a) s₀ steps c

/-- What was read from the client of `c₀` is a whole request that passed every check, and `c`
    holds it rewritten and serialised. -/
structure Requests (w : Worker) (c₀ : ProxyConn) (k : ClientReadCalls) (c : ProxyConn) : Prop where
  fd : c.fd = c₀.fd
  clientIp : c.clientIp = c₀.clientIp
  upstreamFd : c.upstreamFd = k.upstreamFd
  whole : (feed httpReqInit k.read.bytes).1.state = .done
  forwarded : Forwarded w c₀ (feed httpReqInit k.read.bytes).1 k
  prepared : serialized (workerRewrite w c₀ (feed httpReqInit k.read.bytes).1 k.draw)
    k.serializedReq.bytes = some c.prepared

/-- The connection is as the read of its client's request has left it. -/
def Asked (s₀ : LoopWorld) (steps : List WorkerStep) (i : Nat) (c : ProxyConn) : Prop :=
  Since LoopWorld.step (LoopWorld.slot i) (fun before s a => ∃ e c₀, a = .event e ∧
    RunsHandler s e i c₀ .clientRead ∧ LetIn s₀ before i c₀ ∧
    Requests s.loop.worker c₀ e.calls.clientRead c) s₀ steps c

/-- The connection is as the write of its request to its upstream has left it. -/
def Sent (s₀ : LoopWorld) (steps : List WorkerStep) (i : Nat) (c : ProxyConn) : Prop :=
  Since LoopWorld.step (LoopWorld.slot i) (fun before s a => ∃ e c₁, a = .event e ∧
    RunsHandler s e i c₁ .upstreamWritable ∧ Asked s₀ before i c₁ ∧
    0 < e.calls.writable.written ∧ c = { c₁ with state := .readingUpstream }) s₀ steps c

/-! ## One step -/

/-- What put a connection into its slot, or left it there. -/
inductive SlotCause (s : LoopWorld) (a : WorkerStep) (i : Nat) (c : ProxyConn) : Prop
  | kept (hhere : s.slot i = some c)
  | letIn (hlets : LetsIn c s a) (hstate : c.state = .readingReq)
  | requested {e : Event} {c₀ : ProxyConn} (he : a = .event e)
      (hruns : RunsHandler s e i c₀ .clientRead) (hstate : c.state = .connectingUpstream)
      (hrequests : Requests s.loop.worker c₀ e.calls.clientRead c)
  | sent {e : Event} {c₁ : ProxyConn} (he : a = .event e)
      (hruns : RunsHandler s e i c₁ .upstreamWritable) (hwritten : 0 < e.calls.writable.written)
      (hconn : c = { c₁ with state := .readingUpstream })

theorem closed_fd (w : Worker) (c : ProxyConn) (before : List Action) :
    ((closeClientConn w c).after before).conn.fd = 0 := rfl

theorem handleClientRead_requests {w : Worker} {c : ProxyConn} {k : ClientReadCalls}
    (hstate : c.state = .readingReq) (hfd : (handleClientRead w c k).conn.fd ≠ 0) :
    (handleClientRead w c k).conn.state = .connectingUpstream ∧
      Requests w c k (handleClientRead w c k).conn := by
  have hspec := handleClientRead_spec (w := w) (k := k) hstate
  cases hread : k.read with
  | data bytes hne hfits =>
    by_cases hdone : (feed httpReqInit bytes).1.state = .done
    · have hrouted := handleClientRead_routed w c hread hdone
      generalize handleClientRead w c k = handled at hfd hspec hrouted ⊢
      cases hrouted with
      | blocked => exact absurd (closed_fd _ _ _) hfd
      | limited => exact absurd (closed_fd _ _ _) hfd
      | static => exact absurd (closed_fd _ _ _) hfd
      | dropped => exact absurd (closed_fd _ _ _) hfd
      | forwarded hactive hforwarded hconn =>
        obtain ⟨_, hprepared⟩ := hspec hconn.state
        rw [hread] at hprepared
        refine ⟨hconn.state, hconn.fd, hconn.clientIp, hconn.upstreamFd, ?_, ?_, ?_⟩
        · rw [hread]
          exact hdone
        · rw [hread]
          exact ⟨hforwarded.unlisted, hforwarded.admitted, hforwarded.dynamic, hforwarded.picked,
            hforwarded.fits, hforwarded.connected⟩
        · rw [hread]
          exact hprepared
    · rw [handleClientRead_data hread, if_pos hdone] at hfd
      exact absurd rfl hfd
  | eof =>
    rw [handleClientRead, hread] at hfd
    exact absurd rfl hfd
  | failed =>
    rw [handleClientRead, hread] at hfd
    exact absurd rfl hfd

/-- A handler of the upstream's socket that leaves a connection there has left it as it was,
    or has written its request. -/
theorem handleUpstreamWritable_sent {w : Worker} {c : ProxyConn} {k : UpstreamWritableCalls}
    (hfd : (handleUpstreamWritable w c k).conn.fd ≠ 0) :
    (handleUpstreamWritable w c k).conn = c ∨
      (0 < k.written ∧ (handleUpstreamWritable w c k).conn = { c with state := .readingUpstream }) := by
  unfold handleUpstreamWritable at hfd ⊢
  dsimp only at hfd ⊢
  split at hfd
  · rename_i hclosed
    rw [if_pos hclosed]
    exact .inl rfl
  rename_i hopen
  rw [if_neg hopen]
  split at hfd
  · exact absurd (closed_fd _ _ _) hfd
  rename_i herr
  rw [if_neg herr]
  split
  · rename_i hwritten
    exact .inr ⟨hwritten, rfl⟩
  · exact .inl rfl

theorem handleUpstreamReadable_kept {w : Worker} {c : ProxyConn} {k : UpstreamReadableCalls}
    (hfd : (handleUpstreamReadable w c k).conn.fd ≠ 0) :
    (handleUpstreamReadable w c k).conn = c := by
  unfold handleUpstreamReadable at hfd ⊢
  dsimp only at hfd ⊢
  split at hfd
  · rename_i hclosed
    rw [if_pos hclosed]
  rename_i hopen
  rw [if_neg hopen]
  cases hread : k.read with
  | data bytes hne hfits =>
    rw [hread] at hfd
    exact absurd (closed_fd _ _ _) hfd
  | eof =>
    rw [hread] at hfd
    exact absurd (closed_fd _ _ _) hfd
  | failed wouldBlock =>
    cases wouldBlock with
    | true => rfl
    | false =>
      rw [hread] at hfd
      exact absurd rfl hfd

theorem client_of_records {c : ProxyConn} (hc : SlotOk c) {fd : Int} (hfd : 0 < fd)
    (hrecords : c.records fd = true) : 0 < c.fd := by
  have hnonneg := hc.fd_nonneg
  have hfree := hc.free
  simp only [ProxyConn.records, Bool.or_eq_true, beq_iff_eq] at hrecords
  by_contra hno
  have := hfree (by omega)
  omega

theorem handled_cause {s : LoopWorld} {e : Event} {i : Nat} {c₀ : ProxyConn}
    (hother : e.fd ≠ s.loop.listenFd) (hslot : proxyGet s.loop.pool e.fd = some i)
    (hget : s.slot i = some c₀)
    (hclient : 0 < (handleConn s.loop.worker c₀ e.ev e.calls).conn.fd) :
    SlotCause s (.event e) i (handleConn s.loop.worker c₀ e.ev e.calls).conn := by
  have hne := hclient.ne'
  unfold handleConn at hclient hne ⊢
  cases hh : handlerFor c₀ e.ev with
  | none => exact .kept hget
  | some h =>
    rw [hh] at hne
    cases h with
    | clientRead =>
      obtain ⟨hstate, hrequests⟩ := handleClientRead_requests (handlerFor_state hh) hne
      exact .requested rfl ⟨hother, hslot, hget, hh⟩ hstate hrequests
    | upstreamWritable =>
      obtain hkept | ⟨hwritten, hsent⟩ := handleUpstreamWritable_sent hne
      · apply SlotCause.kept
        dsimp only
        rw [hkept]
        exact hget
      · exact .sent rfl ⟨hother, hslot, hget, hh⟩ hwritten hsent
    | upstreamReadable =>
      apply SlotCause.kept
      dsimp only
      rw [handleUpstreamReadable_kept hne]
      exact hget

/-- What a step does to the connection that stands in a slot after it. -/
theorem slot_cause {s s' : LoopWorld} {a : WorkerStep} (hstep : s.step a = some s') {i : Nat}
    {c : ProxyConn} (hget : s'.slot i = some c) (hclient : 0 < c.fd) : SlotCause s a i c := by
  cases a with
  | health node healthy =>
    cases hstep
    exact .kept hget
  | event e =>
    obtain ⟨_, _, hloop, _⟩ := worldStep_some hstep
    rw [LoopWorld.slot, hloop] at hget
    by_cases hrefused : e.fd = s.loop.listenFd ∧ s.loop.refuses e.calls.accept = true
    · rw [onEvent_refused hrefused.1 hrefused.2] at hget
      exact .kept hget
    have hslots := onEvent_slots s.loop e
    generalize (onEvent s.loop e).1.pool.slots = slots at hget hslots
    cases hslots with
    | unchanged => exact .kept hget
    | opened j c₀ hlisten hslot hget₀ hfree =>
      rw [List.getElem?_set] at hget
      split at hget
      · split at hget
        · cases hget
          have hlets : s.loop.refuses e.calls.accept = false :=
            Bool.eq_false_iff.mpr fun h => hrefused ⟨hlisten, h⟩
          exact .letIn ⟨hlisten, hlets, rfl, rfl⟩ rfl
        · cases hget
      · exact .kept hget
    | handled j c₀ hother hslot hget₀ hrecords =>
      rw [List.getElem?_set] at hget
      split at hget
      · rename_i hij
        subst hij
        split at hget
        · cases hget
          exact handled_cause hother hslot hget₀ hclient
        · cases hget
      · exact .kept hget

/-! ## Runs -/

/-- What stands in the slots of a state that a run reaches comes from the run. -/
structure Origins (s₀ : LoopWorld) (steps : List WorkerStep) (s : LoopWorld) : Prop where
  world : LoopInv s
  letIn : ∀ {i c}, s.slot i = some c → 0 < c.fd → c.state = .readingReq → LetIn s₀ steps i c
  asked : ∀ {i c}, s.slot i = some c → 0 < c.fd → c.state = .connectingUpstream → Asked s₀ steps i c
  sent : ∀ {i c}, s.slot i = some c → 0 < c.fd → c.state = .readingUpstream → Sent s₀ steps i c

theorem origins_nil {s₀ : LoopWorld} (h : s₀.Started) : Origins s₀ [] s₀ := by
  have hfree {i : Nat} {c : ProxyConn} (hget : s₀.slot i = some c) (hfd : 0 < c.fd) : False := by
    rw [LoopWorld.slot, h.loop.pool] at hget
    rw [List.eq_of_mem_replicate (List.mem_of_getElem? hget)] at hfd
    exact absurd hfd (by decide)
  exact ⟨started_inv h, fun hget hfd => (hfree hget hfd).elim, fun hget hfd => (hfree hget hfd).elim,
    fun hget hfd => (hfree hget hfd).elim⟩

theorem RunsHandler.client {s : LoopWorld} {e : Event} {i : Nat} {c : ProxyConn} {h : Handler}
    (hruns : RunsHandler s e i c h) (hinv : LoopInv s) (hfd : 0 < e.fd) : 0 < c.fd := by
  obtain ⟨c', hget, _, hrecords⟩ := Slots.findIdx?_some hruns.found
  cases hruns.here.symm.trans hget
  exact client_of_records (hinv.slots c (List.mem_of_getElem? hget)) hfd hrecords

/-- One more step. -/
theorem origins_step {s₀ : LoopWorld} {steps : List WorkerStep} {s s' : LoopWorld} {a : WorkerStep}
    (hrun : run LoopWorld.step s₀ steps = some s) (h : Origins s₀ steps s)
    (hstep : s.step a = some s') : Origins s₀ (steps ++ [a]) s' := by
  have hrun' : run LoopWorld.step s₀ (steps ++ [a]) = some s' := by
    rw [run_append, hrun, Option.bind_some, run, hstep]
    rfl
  refine ⟨step_inv h.world hstep, fun {i c} hget hfd hstate => ?_, fun {i c} hget hfd hstate => ?_,
    fun {i c} hget hfd hstate => ?_⟩
  · cases slot_cause hstep hget hfd with
    | kept hhere => exact (h.letIn hhere hfd hstate).later hrun' hget
    | letIn hlets => exact Since.now hrun hlets hstep hget
    | requested he hruns hother => cases hstate.symm.trans hother
    | sent he hruns hwritten hconn =>
      rw [hconn] at hstate
      cases hstate
  · cases slot_cause hstep hget hfd with
    | kept hhere => exact (h.asked hhere hfd hstate).later hrun' hget
    | letIn hlets hother => cases hstate.symm.trans hother
    | requested he hruns hnow hrequests =>
      subst he
      obtain ⟨hpos, _⟩ := worldStep_some hstep
      have hletIn := h.letIn hruns.here (hruns.client h.world hpos) (handlerFor_state hruns.handler)
      exact Since.now hrun ⟨_, _, rfl, hruns, hletIn, hrequests⟩ hstep hget
    | sent he hruns hwritten hconn =>
      rw [hconn] at hstate
      cases hstate
  · cases slot_cause hstep hget hfd with
    | kept hhere => exact (h.sent hhere hfd hstate).later hrun' hget
    | letIn hlets hother => cases hstate.symm.trans hother
    | requested he hruns hother => cases hstate.symm.trans hother
    | sent he hruns hwritten hconn =>
      subst he
      obtain ⟨hpos, _⟩ := worldStep_some hstep
      have hasked := h.asked hruns.here (hruns.client h.world hpos) (handlerFor_state hruns.handler)
      exact Since.now hrun ⟨_, _, rfl, hruns, hasked, hwritten, hconn⟩ hstep hget

theorem origins_run {s₀ s : LoopWorld} (h₀ : s₀.Started) {steps : List WorkerStep}
    (hrun : run LoopWorld.step s₀ steps = some s) : Origins s₀ steps s :=
  run_snoc_induction (P := Origins s₀) (origins_nil h₀)
    (fun hrun h hstep => origins_step hrun h hstep) steps hrun

/-! ## What is written -/

/-- The action writes to a descriptor, or has a file written to it. -/
def Action.Speaks : Action → Prop
  | .write _ _ => True
  | .staticServe _ _ _ => True
  | _ => False

/-- The request read at an event. -/
def Event.request (e : Event) : HttpReq := (feed httpReqInit e.calls.clientRead.read.bytes).1

/-- A whole request is read from the client of a connection that was let in. -/
structure ReadFrom (s₀ : LoopWorld) (steps : List WorkerStep) (s : LoopWorld) (e : Event) (i : Nat)
    (c : ProxyConn) : Prop where
  runs : RunsHandler s e i c .clientRead
  letIn : LetIn s₀ steps i c
  whole : e.request.state = .done

/-- The limiter's verdict on the client at an event. -/
def Event.admitted (s : LoopWorld) (e : Event) (c : ProxyConn) : Bool :=
  (rlCheck s.loop.worker.rl c.clientIp.text e.calls.clientRead.rlCreatedMs
    e.calls.clientRead.rlCheckMs).2

/-- What a worker says at an event, with what it says it for. -/
inductive Spoken (s₀ : LoopWorld) (steps : List WorkerStep) (s : LoopWorld) (e : Event) (i : Nat)
    (c : ProxyConn) : Action → Prop
  | forbidden (hread : ReadFrom s₀ steps s e i c)
      (hlisted : blCheck s.loop.worker.bl c.clientIp.text = true) :
      Spoken s₀ steps s e i c (.write c.fd forbiddenResponse)
  | tooMany (hread : ReadFrom s₀ steps s e i c)
      (hunlisted : blCheck s.loop.worker.bl c.clientIp.text = false)
      (hrefused : e.admitted s c = false) : Spoken s₀ steps s e i c (.write c.fd tooManyResponse)
  | file (hread : ReadFrom s₀ steps s e i c)
      (hunlisted : blCheck s.loop.worker.bl c.clientIp.text = false)
      (hadmitted : e.admitted s c = true)
      (hstatic : startsWith e.request.path.text (ascii "/static/") = true) :
      Spoken s₀ steps s e i c
        (.staticServe c.fd (staticRoot s.loop.worker.cfg) (e.request.path.text.drop 7))
  | request (hruns : RunsHandler s e i c .upstreamWritable) (hasked : Asked s₀ steps i c) :
      Spoken s₀ steps s e i c (.write c.upstreamFd c.prepared)
  | response (hruns : RunsHandler s e i c .upstreamReadable) (hsent : Sent s₀ steps i c)
      (hne : e.calls.readable.read.bytes ≠ []) :
      Spoken s₀ steps s e i c (.write c.fd e.calls.readable.read.bytes)

theorem close_silent (w : Worker) (c : ProxyConn) {a : Action}
    (ha : a ∈ (closeClientConn w c).actions) : ¬ a.Speaks := by
  simp only [closeClientConn, List.mem_append] at ha
  rcases ha with ha | ha <;> split at ha <;>
    simp only [List.mem_cons, List.not_mem_nil, or_false] at ha
  · rcases ha with rfl | rfl | rfl <;> exact id
  · rcases ha with rfl | rfl <;> exact id

theorem said_before {w : Worker} {c : ProxyConn} {before : List Action} {a : Action}
    (ha : a ∈ ((closeClientConn w c).after before).actions) (hspeaks : a.Speaks) : a ∈ before := by
  rcases List.mem_append.mp ha with ha | ha
  · exact ha
  · exact absurd hspeaks (close_silent _ _ ha)

theorem clientRead_said {s₀ s : LoopWorld} {steps : List WorkerStep} {e : Event} {i : Nat}
    {c : ProxyConn} (hruns : RunsHandler s e i c .clientRead) (hletIn : LetIn s₀ steps i c) {a : Action}
    (ha : a ∈ (handleClientRead s.loop.worker c e.calls.clientRead).actions) (hspeaks : a.Speaks) :
    Spoken s₀ steps s e i c a := by
  cases hread : e.calls.clientRead.read with
  | data bytes hne hfits =>
    by_cases hdone : (feed httpReqInit bytes).1.state = .done
    · have hrouted := handleClientRead_routed s.loop.worker c hread hdone
      have hrequest : e.request = (feed httpReqInit bytes).1 := by rw [Event.request, hread]; rfl
      have hfrom : ReadFrom s₀ steps s e i c := ⟨hruns, hletIn, by rw [hrequest]; exact hdone⟩
      rw [← hrequest] at hrouted
      generalize handleClientRead s.loop.worker c e.calls.clientRead = handled at ha hrouted
      cases hrouted with
      | blocked hlisted =>
        have hbefore := said_before ha hspeaks
        simp only [List.mem_cons, List.not_mem_nil, or_false] at hbefore
        rcases hbefore with rfl | rfl
        · exact .forbidden hfrom hlisted
        · exact hspeaks.elim
      | limited _ hunlisted hrefused =>
        have hbefore := said_before ha hspeaks
        simp only [List.mem_cons, List.not_mem_nil, or_false] at hbefore
        rcases hbefore with rfl | rfl
        · exact .tooMany hfrom hunlisted hrefused
        · exact hspeaks.elim
      | static _ hunlisted hadmitted hstatic =>
        have hbefore := said_before ha hspeaks
        simp only [List.mem_cons, List.not_mem_nil, or_false] at hbefore
        rcases hbefore with rfl | rfl
        · exact .file hfrom hunlisted hadmitted hstatic
        · exact hspeaks.elim
      | dropped _ _ _ _ hnothing =>
        have hbefore := said_before ha hspeaks
        rcases hnothing with rfl | ⟨_, host, port, rfl⟩
        · cases hbefore
        · cases List.mem_singleton.mp hbefore
          exact hspeaks.elim
      | forwarded =>
        simp only [List.mem_cons, List.not_mem_nil, or_false] at ha
        rcases ha with rfl | rfl | rfl <;> exact hspeaks.elim
    · rw [handleClientRead_data hread, if_pos hdone] at ha
      exact absurd hspeaks (close_silent _ _ ha)
  | eof =>
    rw [handleClientRead, hread] at ha
    exact absurd hspeaks (close_silent _ _ ha)
  | failed =>
    rw [handleClientRead, hread] at ha
    exact absurd hspeaks (close_silent _ _ ha)

theorem upstreamWritable_said {w : Worker} {c : ProxyConn} {k : UpstreamWritableCalls} {a : Action}
    (ha : a ∈ (handleUpstreamWritable w c k).actions) (hspeaks : a.Speaks) :
    a = .write c.upstreamFd c.prepared := by
  unfold handleUpstreamWritable at ha
  dsimp only at ha
  split at ha
  · cases ha
  split at ha
  · have hbefore := said_before ha hspeaks
    simp only [List.mem_cons, List.not_mem_nil, or_false] at hbefore
    rcases hbefore with rfl | rfl <;> exact hspeaks.elim
  split at ha
  · simp only [List.mem_cons, List.not_mem_nil, or_false] at ha
    rcases ha with rfl | rfl
    · rfl
    · exact hspeaks.elim
  · exact List.mem_singleton.mp ha

theorem upstreamReadable_said {w : Worker} {c : ProxyConn} {k : UpstreamReadableCalls} {a : Action}
    (ha : a ∈ (handleUpstreamReadable w c k).actions) (hspeaks : a.Speaks) :
    a = .write c.fd k.read.bytes ∧ k.read.bytes ≠ [] := by
  unfold handleUpstreamReadable at ha
  dsimp only at ha
  split at ha
  · cases ha
  cases hread : k.read with
  | data bytes hne hfits =>
    rw [hread] at ha
    have hbefore := said_before ha hspeaks
    simp only [List.mem_cons, List.not_mem_nil, or_false] at hbefore
    rcases hbefore with rfl | rfl | rfl | rfl
    · rw [response_written]
      exact ⟨rfl, hne⟩
    · exact hspeaks.elim
    · exact hspeaks.elim
    · exact hspeaks.elim
  | eof =>
    rw [hread] at ha
    have hbefore := said_before ha hspeaks
    simp only [List.mem_cons, List.not_mem_nil, or_false] at hbefore
    rcases hbefore with rfl | rfl <;> exact hspeaks.elim
  | failed wouldBlock =>
    rw [hread] at ha
    cases wouldBlock with
    | true => cases ha
    | false =>
      simp only [List.mem_cons, List.not_mem_nil, or_false] at ha
      rcases ha with rfl | rfl | rfl | rfl <;> exact hspeaks.elim

theorem accept_silent {l : EventLoop} {k : AcceptCalls} {a : Action} (ha : a ∈ (acceptConn l k).2) :
    ¬ a.Speaks := by
  unfold acceptConn at ha
  split at ha
  · cases ha
  split at ha
  · cases List.mem_singleton.mp ha
    exact id
  split at ha
  · cases List.mem_singleton.mp ha
    exact id
  · simp only [List.mem_cons, List.not_mem_nil, or_false] at ha
    rcases ha with rfl | rfl | rfl <;> exact id

/-- **Everything written has its origin.** For every run of a worker from the entry of its loop,
    whatever its system calls return, and every further event: each write and each file
    served is one of five. A client whose whole request was read gets a refusal, as the
    blacklist or the limiter says, or a file, or what its own upstream has sent; an upstream
    gets the request of its own client, which passed every check, was rewritten and
    serialised. In each case the connection has been in its slot, unchanged, since the event
    that it goes back to, and that event since the one before, back to the accept. -/
theorem traffic_origin {s₀ s s' : LoopWorld} (h₀ : s₀.Started) {steps : List WorkerStep}
    (hrun : run LoopWorld.step s₀ steps = some s) {e : Event} (hstep : s.step (.event e) = some s')
    {a : Action} (ha : a ∈ (onEvent s.loop e).2) (hspeaks : a.Speaks) :
    ∃ i c, 0 < c.fd ∧ Spoken s₀ steps s e i c a := by
  have horigins := origins_run h₀ hrun
  obtain ⟨hpos, _⟩ := worldStep_some hstep
  unfold onEvent at ha
  split at ha
  · exact absurd hspeaks (accept_silent ha)
  rename_i hother
  cases hslot : proxyGet s.loop.pool e.fd with
  | none =>
    rw [hslot] at ha
    cases ha
  | some i =>
    obtain ⟨c, hget, _, hrecords⟩ := Slots.findIdx?_some hslot
    have hclient := client_of_records (horigins.world.slots c (List.mem_of_getElem? hget)) hpos hrecords
    refine ⟨i, c, hclient, ?_⟩
    rw [hslot] at ha
    dsimp only at ha
    rw [hget] at ha
    dsimp only at ha
    unfold handleConn at ha
    cases hh : handlerFor c e.ev with
    | none =>
      rw [hh] at ha
      cases ha
    | some h =>
      rw [hh] at ha
      have hruns : RunsHandler s e i c h := ⟨hother, hslot, hget, hh⟩
      have hstate := handlerFor_state hh
      cases h with
      | clientRead => exact clientRead_said hruns (horigins.letIn hget hclient hstate) ha hspeaks
      | upstreamWritable =>
        rw [upstreamWritable_said ha hspeaks]
        exact .request hruns (horigins.asked hget hclient hstate)
      | upstreamReadable =>
        obtain ⟨hwrite, hne⟩ := upstreamReadable_said ha hspeaks
        rw [hwrite]
        exact .response hruns (horigins.sent hget hclient hstate) hne

/-- A request was let in and sent; now its upstream answers. -/
def answeredSteps : List WorkerStep :=
  [.event (acceptEvent 7), .event (requestEvent 7 8), .event (sentEvent 8)]

theorem traffic_origin_answered : ∃ s s', run LoopWorld.step sampleWorld answeredSteps = some s ∧
    s.step (.event (upstreamEvent 8 responseRead)) = some s' ∧
    .write 7 responseRead.bytes ∈ (onEvent s.loop (upstreamEvent 8 responseRead)).2 ∧
    ∃ i c, 0 < c.fd ∧ Spoken sampleWorld answeredSteps s (upstreamEvent 8 responseRead) i c
      (.write 7 responseRead.bytes) := by
  have hall : (run LoopWorld.step sampleWorld answeredSteps).map (fun s =>
      ((s.step (.event (upstreamEvent 8 responseRead))).isSome,
        decide (.write 7 responseRead.bytes ∈ (onEvent s.loop (upstreamEvent 8 responseRead)).2))) =
      some (true, true) := by decide +kernel
  obtain ⟨s, hs, hnext⟩ := Option.map_eq_some_iff.mp hall
  obtain ⟨hsome, hmem⟩ := Prod.mk.inj hnext
  obtain ⟨s', hs'⟩ := Option.isSome_iff_exists.mp hsome
  have hwritten := of_decide_eq_true hmem
  exact ⟨s, s', hs, hs', hwritten, traffic_origin sampleWorld_started hs hs' hwritten trivial⟩

end NexusGateway
