import NexusGateway.EventEffects
import NexusGateway.ForwardedRequest

/- The count of active connections.

   `g_active_conns` follows the slots that hold a client's descriptor, but for two
   events: a failed read of the upstream's socket frees the slot without counting it,
   and a descriptor 0 is counted though its slot stays free (`Miscounts`).
   `active_count_iff`: the count is right in every state of a run exactly when the run
   has neither. -/
namespace NexusGateway
open CString

/-- The slots that hold a client's descriptor. -/
def Pool.clients (pool : Pool) : Nat := pool.slots.countP (fun c => decide (0 < c.fd))

/-- The count of active connections is the number of those slots. -/
def CountsRight (l : EventLoop) : Prop := l.worker.activeConns = l.pool.clients

instance (l : EventLoop) : Decidable (CountsRight l) := inferInstanceAs (Decidable (_ = _))

/-- The event accepts descriptor 0, or meets a client whose upstream's read fails. -/
def Miscounts (l : EventLoop) (e : Event) : Prop :=
  ∃ i c, l.slotFor e = some i ∧ l.pool.slots[i]? = some c ∧
    ((e.fd = l.listenFd ∧ e.calls.accept.accepted = 0) ∨
      (e.fd ≠ l.listenFd ∧ ReadFails c e.ev e.calls ∧ 0 ≤ c.upstreamFd ∧ 0 < c.fd))

/-- How many clients a slot holds. -/
def ProxyConn.client (c : ProxyConn) : Nat := if 0 < c.fd then 1 else 0

theorem clients_set {pool pool' : Pool} {i : Nat} {c c' : ProxyConn} (hget : pool.slots[i]? = some c)
    (hpool : pool'.slots = pool.slots.set i c') :
    pool'.clients + c.client = pool.clients + c'.client := by
  have hcount := Slots.countP_modify (p := fun c : ProxyConn => decide (0 < c.fd))
    (f := fun _ => c') hget
  rw [Slots.modify_eq_set hget] at hcount
  simp only [decide_eq_true_eq] at hcount
  rw [Pool.clients, hpool]
  exact hcount

theorem afterClose_eq (c : ProxyConn) (active : Int) : afterClose c active = active - c.client := by
  unfold afterClose ProxyConn.client
  split <;> simp

theorem client_of_fd {c c' : ProxyConn} (h : c'.fd = c.fd) : c'.client = c.client := by
  rw [ProxyConn.client, ProxyConn.client, h]

theorem client_zero {c : ProxyConn} (h : c.fd = 0) : c.client = 0 := by
  rw [ProxyConn.client, h]
  rfl

/-- What a handler does to the count. It follows the slot, unless a client's upstream
    has failed. -/
theorem slotStep_active {c c' : ProxyConn} {active active' : Int} {ev : UInt32} {k : EventCalls}
    {ops : List Descriptors.Op} (h : SlotStep c active ev k c' active' ops) :
    active' + c.client = active + c'.client ↔ ¬ (ReadFails c ev k ∧ 0 ≤ c.upstreamFd ∧ 0 < c.fd) := by
  cases h with
  | kept hquiet =>
    refine ⟨fun _ hfails => ?_, fun _ => rfl⟩
    have := hquiet hfails.1
    have := hfails.2.1
    omega
  | connected hhandler hopen hfd hufd hstate =>
    rw [client_of_fd hfd]
    refine ⟨fun _ hfails => ?_, fun _ => rfl⟩
    rw [ReadFails, hhandler] at hfails
    cases hfails.1.1
  | sent hhandler hfd hufd hstate =>
    rw [client_of_fd hfd]
    refine ⟨fun _ hfails => ?_, fun _ => rfl⟩
    rw [ReadFails, hhandler] at hfails
    cases hfails.1.1
  | released hhandler hfd hufd =>
    rw [afterClose_eq, client_zero hfd]
    refine ⟨fun _ hfails => ?_, fun _ => by simp⟩
    rw [ReadFails, hhandler] at hfails
    cases hfails.1.1
  | releasedTwice htwice hopen hfd hufd =>
    rw [afterClose_eq, client_zero hfd]
    refine ⟨fun _ hfails => ?_, fun _ => by simp⟩
    obtain ⟨hhandler, _⟩ | ⟨_, hread⟩ := htwice
    · rw [ReadFails, hhandler] at hfails
      cases hfails.1.1
    · exact hread false hfails.1.2
  | dropped hfails hopen hfd hufd =>
    rw [client_zero hfd, ProxyConn.client]
    by_cases hpos : 0 < c.fd
    · rw [if_pos hpos]
      exact ⟨fun h => by simp at h, fun h => absurd ⟨hfails, hopen, hpos⟩ h⟩
    · rw [if_neg hpos]
      exact ⟨fun _ h => hpos h.2.2, fun _ => rfl⟩

/-- The slot of the event decides what `Miscounts` says. -/
theorem miscounts_iff {l : EventLoop} {e : Event} {i : Nat} {c : ProxyConn}
    (hslot : l.slotFor e = some i) (hget : l.pool.slots[i]? = some c) :
    Miscounts l e ↔ (e.fd = l.listenFd ∧ e.calls.accept.accepted = 0) ∨
      (e.fd ≠ l.listenFd ∧ ReadFails c e.ev e.calls ∧ 0 ≤ c.upstreamFd ∧ 0 < c.fd) := by
  constructor
  · rintro ⟨j, c', hj, hc', h⟩
    rw [hslot] at hj
    cases hj
    rw [hget] at hc'
    cases hc'
    exact h
  · intro h
    exact ⟨i, c, hslot, hget, h⟩

theorem not_miscounts {l : EventLoop} {e : Event} (hslot : l.slotFor e = none) : ¬ Miscounts l e := by
  rintro ⟨i, c, hi, _⟩
  rw [hslot] at hi
  cases hi

/-- An event keeps the count right exactly when it is not one of the two. -/
theorem loopStep_counts {l l' : EventLoop} {e : Event} {ops : List Descriptors.Op}
    (hstep : LoopStep l e l' ops) (h : CountsRight l) : CountsRight l' ↔ ¬ Miscounts l e := by
  cases hstep with
  | still hslot => exact ⟨fun _ => not_miscounts hslot, fun _ => h⟩
  | forgot hslot => exact ⟨fun _ => not_miscounts hslot, fun _ => h⟩
  | admitted i c c' hlisten hslot hget hfree hopen hfd hufd hstate hpool hlistenFd hactive =>
    have hclients := clients_set hget hpool
    rw [client_zero hfree] at hclients
    rw [miscounts_iff hslot hget]
    unfold CountsRight at h ⊢
    rw [hactive, h]
    by_cases hzero : e.calls.accept.accepted = 0
    · rw [client_zero (hfd.trans hzero)] at hclients
      exact ⟨fun hc => by omega, fun hn => absurd (.inl ⟨hlisten, hzero⟩) hn⟩
    · have hone : c'.client = 1 := if_pos (by omega)
      rw [hone] at hclients
      refine ⟨fun _ hm => ?_, fun _ => by omega⟩
      obtain ⟨_, hz⟩ | ⟨hother, _⟩ := hm
      · exact hzero hz
      · exact hother hlisten
  | handled i c c' hother hslot hget hpool hlistenFd hslotStep =>
    have hclients := clients_set hget hpool
    have hactive := slotStep_active hslotStep
    rw [miscounts_iff hslot hget]
    unfold CountsRight at h ⊢
    have hcount : l'.worker.activeConns = l'.pool.clients ↔
        l'.worker.activeConns + c.client = l.worker.activeConns + c'.client := by omega
    rw [hcount, hactive]
    constructor
    · rintro hn (⟨hlisten, _⟩ | ⟨_, hfails⟩)
      · exact hother hlisten
      · exact hn hfails
    · intro hn hfails
      exact hn (.inr ⟨hother, hfails⟩)

/-! ## Runs -/

/-- The count is right in every state of a run. -/
def AlwaysRight (l : EventLoop) : List WorkerStep → Prop
  | [] => CountsRight l
  | s :: ss => CountsRight l ∧ AlwaysRight (l.step s) ss

/-- No event of a run miscounts in the state it meets. -/
def NeverMiscounts (l : EventLoop) : List WorkerStep → Prop
  | [] => True
  | .event e :: ss => ¬ Miscounts l e ∧ NeverMiscounts (onEvent l e).1 ss
  | .health node healthy :: ss => NeverMiscounts (l.step (.health node healthy)) ss

theorem started_counts {l : EventLoop} (h : l.Started) : CountsRight l := by
  rw [CountsRight, h.active, h.pool]
  have hnone : poolInit.clients = 0 := by
    rw [Pool.clients, List.countP_eq_zero]
    intro c hc
    rw [List.eq_of_mem_replicate hc]
    decide
  rw [hnone]
  rfl

theorem alwaysRight_iff (steps : List WorkerStep) :
    ∀ {l : EventLoop}, CountsRight l → (AlwaysRight l steps ↔ NeverMiscounts l steps) := by
  induction steps with
  | nil =>
    intro l h
    exact ⟨fun _ => trivial, fun _ => h⟩
  | cons s ss ih =>
    intro l h
    cases s with
    | event e =>
      have hstep := loopStep_counts (onEvent_step l e) h
      have hhead {l' : EventLoop} (hrest : AlwaysRight l' ss) : CountsRight l' := by
        cases ss with
        | nil => exact hrest
        | cons => exact hrest.1
      constructor
      · rintro ⟨_, hrest⟩
        exact ⟨hstep.mp (hhead hrest), (ih (hhead hrest)).mp hrest⟩
      · rintro ⟨hfine, hrest⟩
        exact ⟨h, (ih (hstep.mpr hfine)).mpr hrest⟩
    | health node healthy =>
      have hnext : CountsRight (l.step (.health node healthy)) := h
      exact ⟨fun hr => (ih hnext).mp hr.2, fun hr => ⟨h, (ih hnext).mpr hr⟩⟩

/-- **When the count of active connections is right.** For every worker as it enters its
    loop, and every run of events for any descriptors, with any results of their system
    calls and any verdicts of the health checker between them: the count is the number
    of slots that hold a client's descriptor in every state of the run exactly when no
    event accepts descriptor 0 for a free slot and none reads an error from a client's
    upstream, one that is not that the read would block. -/
theorem active_count_iff {l : EventLoop} (hl : l.Started) (steps : List WorkerStep) :
    AlwaysRight l steps ↔ NeverMiscounts l steps :=
  alwaysRight_iff steps (started_counts hl)

/-- A worker as it enters its loop. -/
def sampleLoop : EventLoop := ⟨{ sampleWorker with activeConns := 0 }, poolInit, 5, 0⟩

def acceptEvent (accepted : Int) : Event :=
  ⟨5, epollIn, { EventCalls.idle with accept := ⟨0, 0, accepted, sampleIp, 50000⟩ }⟩

/-- A request from the client at `fd`, and the upstream's descriptor. -/
def requestEvent (fd ufd : Int) : Event :=
  ⟨fd, epollIn, { EventCalls.idle with
    clientRead := { sampleRead (ascii "GET / HTTP/1.1\r\n\r\n") (by decide +kernel) with
      upstreamFd := ufd } }⟩

/-- The request is sent to the upstream. -/
def sentEvent (ufd : Int) : Event :=
  ⟨ufd, epollOut, { EventCalls.idle with writable := ⟨0, 100⟩ }⟩

/-- A read of the upstream's socket. -/
def upstreamEvent (ufd : Int) (read : ReadResult 8191) : Event :=
  ⟨ufd, epollIn, { EventCalls.idle with readable := ⟨read, 0, 0⟩ }⟩

/-- The beginning of a response. -/
def responseRead : ReadResult 8191 :=
  .data (ascii "HTTP/1.1 200 OK") (by decide +kernel) (by decide +kernel)

/-- A client is let in, its request is sent, and the upstream resets the connection. -/
def resetSteps : List WorkerStep :=
  [.event (acceptEvent 7), .event (requestEvent 7 8), .event (sentEvent 8),
    .event (upstreamEvent 8 (.failed false))]

theorem sampleLoop_started : sampleLoop.Started := ⟨rfl, rfl⟩

theorem active_count_iff_reset :
    AlwaysRight sampleLoop resetSteps ↔ NeverMiscounts sampleLoop resetSteps :=
  active_count_iff sampleLoop_started resetSteps

/-- One connection is counted and no slot holds a client. -/
theorem active_count_drifts :
    (resetSteps.foldl EventLoop.step sampleLoop).worker.activeConns = 1 ∧
    (resetSteps.foldl EventLoop.step sampleLoop).pool.clients = 0 ∧
    ¬ CountsRight (resetSteps.foldl EventLoop.step sampleLoop) := by
  decide +kernel

end NexusGateway
