import NexusGateway.EpollTable
import NexusGateway.PoolDescriptors
import NexusGateway.Lib.Runs

/- Which descriptors the kernel watches for the event loop, and for what.

   `epoll_loop.c` hands every call on to the kernel's interest list, and a close takes a
   descriptor out of it. The event loop, the descriptor table and this list are run
   together here: each handler's calls are made on all three. In every reachable state the
   list is what the pool's states ask for and nothing else (`interest_exact`): the
   listening descriptor and each connection's descriptors, the client's for input and the
   upstream's for what the state of the connection waits for. So no connection is left
   that no event can wake, nothing that was closed is watched, and every event raised for
   what was asked finds a connection and one of its handlers. A handler's calls are one step
   here, `epoll_ctl` refuses none of them, and nothing is said of the pointers, which
   `on_event` does not look at. -/
namespace NexusGateway
open CString Descriptors

/-- What an action is to `epoll_loop.c` and to the kernel's list, which has room. The
    pointers are left out. -/
def Action.epollCall : Action → Option (EpollCall Unit)
  | .epollAdd fd events => some (.add fd.toNat events (some ()) false)
  | .epollMod fd events => some (.mod fd.toNat events (some ()) false)
  | .epollDel fd => some (.del fd.toNat)
  | .close fd => some (.close fd.toNat)
  | _ => none

def epollCalls (actions : List Action) : List (EpollCall Unit) := actions.filterMap Action.epollCall

/-- The event loop with the descriptors of its process and the kernel's interest list. -/
structure WatchedWorld where
  world : LoopWorld
  epoll : EpollLoop Unit

/-- What a step calls of `epoll_loop.c`. -/
def WorkerStep.epollCalls (l : EventLoop) : WorkerStep → List (EpollCall Unit)
  | .event e => NexusGateway.epollCalls (onEvent l e).2
  | .health _ _ => []

def WatchedWorld.step (s : WatchedWorld) (a : WorkerStep) : Option WatchedWorld :=
  (s.world.step a).map fun world =>
    { world := world, epoll := (a.epollCalls s.world.loop).foldl EpollLoop.call s.epoll }

/-- As `nexus_worker_run` enters the loop: only the listening descriptor is watched, with
    `NULL` for its pointer. -/
structure WatchedWorld.Started (s : WatchedWorld) : Prop where
  world : s.world.Started
  listening : 0 ≤ s.world.loop.listenFd
  epoll : s.epoll = epollInit.call (.add s.world.loop.listenFd.toNat epollIn none false)

/-- What the slot's connection waits for on a descriptor. -/
def ProxyConn.waitsFor (fd : Int) (c : ProxyConn) : Option UInt32 :=
  if 0 < c.fd ∧ c.fd = fd then some epollIn
  else if 0 < c.upstreamFd ∧ c.upstreamFd = fd then
    some (if c.state = .connectingUpstream then epollOut ||| epollIn else epollIn)
  else none

/-- What the event loop waits for on a descriptor. -/
def EventLoop.waitsFor (l : EventLoop) (fd : Int) : Option UInt32 :=
  if fd = l.listenFd then some epollIn else l.pool.slots.findSome? (ProxyConn.waitsFor fd)

theorem waitsFor_isSome {c : ProxyConn} {fd : Int} : c.waitsFor fd ≠ none ↔ fd ∈ c.descriptors := by
  rw [mem_descriptors, ProxyConn.waitsFor]
  split
  · rename_i h
    simp [h.2 ▸ h.1, h.2]
  split
  · rename_i h
    simp [h.2 ▸ h.1, h.2]
  · rename_i hclient hupstream
    refine iff_of_false (fun h => h rfl) ?_
    rintro ⟨hpos, rfl | rfl⟩
    · exact hclient ⟨hpos, rfl⟩
    · exact hupstream ⟨hpos, rfl⟩

theorem waitsFor_eq_none {c : ProxyConn} {fd : Int} (h : fd ∉ c.descriptors) :
    c.waitsFor fd = none := by
  by_contra hne
  exact h (waitsFor_isSome.mp hne)

/-! ## The calls of a handler -/

/-- Descriptors are closed and taken out of the list, one after the other. -/
def takesOut (fds : List Int) : List (EpollCall Unit) :=
  fds.flatMap fun fd => [.close fd.toNat, .del fd.toNat]

@[simp] theorem epollCalls_append (before actions : List Action) :
    epollCalls (before ++ actions) = epollCalls before ++ epollCalls actions :=
  List.filterMap_append

theorem closeClientConn_calls (w : Worker) (c : ProxyConn) :
    epollCalls (closeClientConn w c).actions = takesOut c.descriptors := by
  unfold closeClientConn ProxyConn.descriptors
  by_cases hfd : 0 < c.fd <;> by_cases hufd : 0 < c.upstreamFd <;>
    simp [takesOut, hfd, hufd] <;> rfl

/-- What a handler does to its slot's connection and calls of `epoll_loop.c`. -/
inductive SlotWatch (c : ProxyConn) (k : EventCalls) : Handled → Prop
  | kept {h : Handled} (hfd : h.conn.fd = c.fd) (hufd : h.conn.upstreamFd = c.upstreamFd)
      (hstate : h.conn.state = c.state) (hcalls : epollCalls h.actions = []) : SlotWatch c k h
  | connected {h : Handled} (hbefore : c.state = .readingReq) (hfd : h.conn.fd = c.fd)
      (hufd : h.conn.upstreamFd = k.clientRead.upstreamFd)
      (hstate : h.conn.state = .connectingUpstream)
      (hopens : ∀ accepted, tableOps accepted k.clientRead.upstreamFd h.actions =
        [.opened k.clientRead.upstreamFd])
      (hcalls : epollCalls h.actions =
        [.add k.clientRead.upstreamFd.toNat (epollOut ||| epollIn) (some ()) false,
          .mod c.fd.toNat epollIn (some ()) false]) : SlotWatch c k h
  | sent {h : Handled} (hbefore : c.state = .connectingUpstream) (hfd : h.conn.fd = c.fd)
      (hufd : h.conn.upstreamFd = c.upstreamFd) (hstate : h.conn.state = .readingUpstream)
      (hcalls : epollCalls h.actions = [.mod c.upstreamFd.toNat epollIn (some ()) false]) :
      SlotWatch c k h
  | gone {h : Handled} {fds : List Int} (hfd : h.conn.fd = 0) (hufd : h.conn.upstreamFd = -1)
      (hfds : ∀ fd, fd ∈ fds ↔ fd ∈ c.descriptors) (hcalls : epollCalls h.actions = takesOut fds) :
      SlotWatch c k h

/-- The connection is closed by `close_client_conn`, before which nothing is called. -/
theorem SlotWatch.closed {c c' : ProxyConn} {w : Worker} {k : EventCalls} {before : List Action}
    (hfd : c'.fd = c.fd) (hufd : c'.upstreamFd = c.upstreamFd) (hbefore : epollCalls before = []) :
    SlotWatch c k ((closeClientConn w c').after before) := by
  have hdesc : c'.descriptors = c.descriptors := by
    rw [ProxyConn.descriptors, ProxyConn.descriptors, hfd, hufd]
  refine @SlotWatch.gone c k _ c.descriptors rfl rfl (fun _ => Iff.rfl) ?_
  show epollCalls (before ++ (closeClientConn w c').actions) = _
  rw [epollCalls_append, hbefore, List.nil_append, closeClientConn_calls, hdesc]

theorem SlotWatch.closedTwice {c c' : ProxyConn} {w : Worker} {k : EventCalls} {before : List Action}
    (hopen : 0 < c.upstreamFd) (hfd : c'.fd = c.fd) (hufd : c'.upstreamFd = c.upstreamFd)
    (hbefore : epollCalls before = takesOut [c.upstreamFd]) :
    SlotWatch c k ((closeClientConn w c').after before) := by
  have hdesc : c'.descriptors = c.descriptors := by
    rw [ProxyConn.descriptors, ProxyConn.descriptors, hfd, hufd]
  refine @SlotWatch.gone c k _ (c.upstreamFd :: c.descriptors) rfl rfl (fun fd => ?_) ?_
  · rw [List.mem_cons, or_iff_right_of_imp]
    rintro rfl
    exact mem_descriptors.mpr ⟨hopen, .inr rfl⟩
  · show epollCalls (before ++ (closeClientConn w c').actions) = _
    rw [epollCalls_append, hbefore, closeClientConn_calls, hdesc]
    rfl

theorem handleClientRead_watch {w : Worker} {c : ProxyConn} {k : EventCalls}
    (hc : c.state = .readingReq) : SlotWatch c k (handleClientRead w c k.clientRead) := by
  obtain ⟨c', hfd, hufd, he⟩ | ⟨bytes, hfits, _, hrouted⟩ := handleClientRead_ends w c k.clientRead
  · rw [he]
    exact @SlotWatch.closed c c' w k [] hfd hufd rfl
  · generalize handleClientRead w c k.clientRead = h at hrouted
    cases hrouted with
    | blocked => exact .closed rfl rfl rfl
    | limited => exact .closed rfl rfl rfl
    | static => exact .closed rfl rfl rfl
    | dropped _ _ _ hconn hbefore =>
      refine .closed hconn.fd hconn.upstreamFd ?_
      obtain rfl | ⟨_, host, port, rfl⟩ := hbefore
      · rfl
      · rfl
    | forwarded _ hforwarded hconn =>
      refine .connected hc hconn.fd hconn.upstreamFd hconn.state (fun accepted => ?_) ?_
      · have hopen := Int.not_lt.mpr hforwarded.connected
        simp [tableOps, tableOp, handedOut, hopen]
      · rw [hconn.fd]
        rfl

theorem handleUpstreamWritable_watch {w : Worker} {c : ProxyConn} {k : EventCalls}
    (hc : c.state = .connectingUpstream) (hopen : 0 < c.upstreamFd) :
    SlotWatch c k (handleUpstreamWritable w c k.writable) := by
  unfold handleUpstreamWritable
  dsimp only
  split
  · exact .kept rfl rfl rfl rfl
  split
  · exact .closedTwice hopen rfl rfl rfl
  split
  · exact .sent hc rfl rfl rfl rfl
  · exact .kept rfl rfl rfl rfl

theorem handleUpstreamReadable_watch {w : Worker} {c : ProxyConn} {k : EventCalls} (hclient : 0 < c.fd)
    (hopen : 0 < c.upstreamFd) :
    SlotWatch c k (handleUpstreamReadable w c k.readable) := by
  unfold handleUpstreamReadable
  dsimp only
  split
  · exact .kept rfl rfl rfl rfl
  cases k.readable.read with
  | data bytes hne hfits => exact .closedTwice hopen rfl rfl rfl
  | eof => exact .closedTwice hopen rfl rfl rfl
  | failed wouldBlock =>
    cases wouldBlock with
    | true => exact .kept rfl rfl rfl rfl
    | false =>
      refine @SlotWatch.gone c k _ [c.upstreamFd, c.fd] rfl rfl (fun fd => ?_) rfl
      rw [mem_descriptors, List.mem_cons, List.mem_singleton]
      constructor
      · rintro (rfl | rfl)
        · exact ⟨hopen, .inr rfl⟩
        · exact ⟨hclient, .inl rfl⟩
      · rintro ⟨_, rfl | rfl⟩
        · exact .inr rfl
        · exact .inl rfl

/-- What a handler calls. -/
theorem handleConn_watch (w : Worker) {c : ProxyConn} (hc : SlotOk c) (hclient : 0 < c.fd)
    (ev : UInt32) (k : EventCalls) : SlotWatch c k (handleConn w c ev k) := by
  unfold handleConn
  cases hh : handlerFor c ev with
  | none => exact .kept rfl rfl rfl rfl
  | some h =>
    have hstate := handlerFor_state hh
    cases h with
    | clientRead => exact handleClientRead_watch hstate
    | upstreamWritable =>
      exact handleUpstreamWritable_watch hstate ((hc.upstream hclient).mpr (.inl hstate))
    | upstreamReadable =>
      exact handleUpstreamReadable_watch hclient ((hc.upstream hclient).mpr (.inr hstate))

/-! ## The kernel's list -/

theorem interest_takesOut (fds : List Int) (fd : Nat) : ∀ l : EpollLoop Unit,
    ((takesOut fds).foldl EpollLoop.call l).interest fd =
      if ∃ d ∈ fds, d.toNat = fd then none else l.interest fd := by
  induction fds with
  | nil => exact fun l => by simp [takesOut]
  | cons d fds ih =>
    intro l
    show ((takesOut fds).foldl EpollLoop.call ((l.call (.close d.toNat)).call (.del d.toNat))).interest
      fd = _
    rw [ih]
    by_cases hd : d.toNat = fd
    · subst hd
      simp [EpollLoop.call]
    · simp [EpollLoop.call, hd, Function.update_of_ne (Ne.symm hd)]

theorem interest_add {l : EpollLoop Unit} {fd : Nat} (hnone : l.interest fd = none) (events : UInt32)
    (user : Option Unit) (fd' : Nat) :
    (l.call (.add fd events user false)).interest fd' = if fd' = fd then some events else l.interest fd' := by
  have hreg : l.registered fd = false := by rw [EpollLoop.registered, hnone]; rfl
  by_cases h : fd' = fd
  · subst h
    simp [EpollLoop.call, hreg]
  · simp [EpollLoop.call, hreg, h]

theorem interest_mod {l : EpollLoop Unit} {fd : Nat} {old : UInt32} (hsome : l.interest fd = some old)
    (events : UInt32) (user : Option Unit) (fd' : Nat) :
    (l.call (.mod fd events user false)).interest fd' = if fd' = fd then some events else l.interest fd' := by
  have hreg : l.registered fd = true := by rw [EpollLoop.registered, hsome]; rfl
  by_cases h : fd' = fd
  · subst h
    simp [EpollLoop.call, hreg]
  · simp [EpollLoop.call, hreg, h]

theorem waitsFor_congr {c c' : ProxyConn} (hfd : c'.fd = c.fd) (hufd : c'.upstreamFd = c.upstreamFd)
    (hstate : c'.state = c.state) (fd : Int) : c'.waitsFor fd = c.waitsFor fd := by
  simp [ProxyConn.waitsFor, hfd, hufd, hstate]

theorem descriptors_congr {c c' : ProxyConn} (hfd : c'.fd = c.fd)
    (hufd : c'.upstreamFd = c.upstreamFd) : c'.descriptors = c.descriptors := by
  rw [ProxyConn.descriptors, ProxyConn.descriptors, hfd, hufd]

theorem toNat_eq {d : Int} (hd : 0 < d) {fd : Nat} : fd = d.toNat ↔ d = fd := by omega

section
variable {c : ProxyConn} {k : EventCalls} {h : Handled} {l : EpollLoop Unit}

/-- What the list says where a slot's connection waits. -/
def Lists (l : EpollLoop Unit) (c : ProxyConn) : Prop :=
  ∀ fd : Nat, (fd : Int) ∈ c.descriptors → l.interest fd = c.waitsFor fd

theorem Lists.client (hl : Lists l c) (hclient : 0 < c.fd) : l.interest c.fd.toNat = some epollIn := by
  have hcast : ((c.fd.toNat : Nat) : Int) = c.fd := Int.toNat_of_nonneg hclient.le
  rw [hl c.fd.toNat (hcast.symm ▸ mem_descriptors.mpr ⟨hclient, .inl rfl⟩), hcast, ProxyConn.waitsFor,
    if_pos ⟨hclient, rfl⟩]

theorem Lists.upstream (hl : Lists l c) (hopen : 0 < c.upstreamFd) :
    ∃ old, l.interest c.upstreamFd.toNat = some old := by
  have hcast : ((c.upstreamFd.toNat : Nat) : Int) = c.upstreamFd := Int.toNat_of_nonneg hopen.le
  have hmem : c.upstreamFd ∈ c.descriptors := mem_descriptors.mpr ⟨hopen, .inr rfl⟩
  rw [hl c.upstreamFd.toNat (hcast.symm ▸ hmem), hcast]
  exact Option.ne_none_iff_exists'.mp (waitsFor_isSome.mpr hmem)

/-- The list after a handler's calls: the slot's descriptors, before and after, have what
    the slot waits for then, and the others what they had. -/
theorem slotWatch_interest (hwatch : SlotWatch c k h) (hc : SlotOk c) (hclient : 0 < c.fd)
    (hl : Lists l c)
    (hnew : ∀ d, tableOps k.accept.accepted k.clientRead.upstreamFd h.actions = [.opened d] →
      0 < d ∧ l.interest d.toNat = none) (fd : Nat) :
    ((epollCalls h.actions).foldl EpollLoop.call l).interest fd =
      if (fd : Int) ∈ c.descriptors ∨ (fd : Int) ∈ h.conn.descriptors then h.conn.waitsFor fd
      else l.interest fd := by
  cases hwatch with
  | kept hfd hufd hstate hcalls =>
    rw [hcalls, descriptors_congr hfd hufd, waitsFor_congr hfd hufd hstate]
    split
    · rename_i hmem
      exact hl fd (or_self_iff.mp hmem)
    · rfl
  | connected hbefore hfd hufd hstate hopens hcalls =>
    obtain ⟨hpos, hnone⟩ := hnew _ (hopens _)
    have hone := hl.client hclient
    have hapart : c.fd ≠ k.clientRead.upstreamFd := by
      intro he
      rw [← he, hone] at hnone
      cases hnone
    have hno : ¬ 0 < c.upstreamFd := by
      rw [hc.upstream hclient, hbefore]
      simp
    have hclientFd : c.fd.toNat ≠ k.clientRead.upstreamFd.toNat := by omega
    have hadded := interest_add hnone (epollOut ||| epollIn) (some ())
    have hmodified : (l.call (.add k.clientRead.upstreamFd.toNat (epollOut ||| epollIn) (some ())
        false)).interest c.fd.toNat = some epollIn := by
      rw [hadded, if_neg hclientFd, hone]
    rw [hcalls, List.foldl_cons, List.foldl_cons, List.foldl_nil, interest_mod hmodified, hadded]
    simp only [mem_descriptors, ProxyConn.waitsFor, hfd, hufd, hstate, toNat_eq hclient, toNat_eq hpos,
      hclient, hpos, if_true, true_and]
    by_cases h1 : c.fd = fd
    · have : 0 < fd := by omega
      simp [h1, this]
    · by_cases h2 : k.clientRead.upstreamFd = fd
      · have : 0 < fd := by omega
        simp [h1, h2, this]
      · have h3 : ¬ (0 < fd ∧ c.upstreamFd = fd) := by omega
        simp [h1, h2, h3]
  | sent hbefore hfd hufd hstate hcalls =>
    have hopen := (hc.upstream hclient).mpr (.inl hbefore)
    obtain ⟨old, hold⟩ := hl.upstream hopen
    have hkept : ∀ fd' : Nat, c.fd = fd' → l.interest fd' = some epollIn := by
      rintro fd' he
      rw [← hl.client hclient, he, Int.toNat_natCast]
    rw [hcalls, List.foldl_cons, List.foldl_nil, interest_mod hold]
    simp only [mem_descriptors, ProxyConn.waitsFor, hfd, hufd, hstate, toNat_eq hopen, hclient, hopen,
      true_and]
    by_cases h2 : c.upstreamFd = fd
    · have : 0 < fd := by omega
      simp [h2, this]
    · by_cases h1 : c.fd = fd
      · simp [h1, h2, hkept fd h1]
      · simp [h1, h2]
  | @gone fds hfd hufd hfds hcalls =>
    have hnone := (slotOk_free hfd hufd).2
    have hwaits : h.conn.waitsFor fd = none := waitsFor_eq_none (by rw [hnone]; exact List.not_mem_nil)
    have hiff : (∃ d ∈ fds, d.toNat = fd) ↔ (fd : Int) ∈ c.descriptors := by
      constructor
      · rintro ⟨d, hd, rfl⟩
        have hmem := (hfds d).mp hd
        rwa [Int.toNat_of_nonneg (mem_descriptors.mp hmem).1.le]
      · exact fun hmem => ⟨fd, (hfds fd).mpr hmem, Int.toNat_natCast fd⟩
    rw [hcalls, interest_takesOut, if_congr hiff rfl rfl, hwaits, hnone]
    simp

end

/-! ## The pool -/

/-- What the pool waits for once one slot is set: at the slot's descriptors, before and after,
    what the slot waits for, and elsewhere what it waited for. -/
theorem waitsFor_set {l l' : EventLoop} {i : Nat} {c c' : ProxyConn}
    (hlisten : l'.listenFd = l.listenFd) (hget : l.pool.slots[i]? = some c)
    (hset : l'.pool.slots = l.pool.slots.set i c') (honce : ∀ d, l.pool.recorded.count d ≤ 1)
    (honce' : ∀ d, l'.pool.recorded.count d ≤ 1) {fd : Int} (hother : fd ≠ l.listenFd) :
    l'.waitsFor fd =
      if fd ∈ c.descriptors ∨ fd ∈ c'.descriptors then c'.waitsFor fd else l.waitsFor fd := by
  have hlt : i < l.pool.slots.length := (List.getElem?_eq_some_iff.mp hget).1
  have hget' : l'.pool.slots[i]? = some c' := by rw [hset, List.getElem?_set_self hlt]
  rw [EventLoop.waitsFor, EventLoop.waitsFor, hlisten, if_neg hother, if_neg hother]
  split
  · rename_i hmem
    refine Slots.findSome?_alone hget' fun j z hj hz => ?_
    have hzd := waitsFor_isSome.mp hz
    obtain hc | hc' := hmem
    · by_contra hne
      rw [hset, List.getElem?_set_ne (Ne.symm hne)] at hj
      exact hne (Slots.slot_unique (honce fd) hj hget hzd hc)
    · exact Slots.slot_unique (honce' fd) hj hget' hzd hc'
  · rename_i hmem
    obtain ⟨hc, hc'⟩ := not_or.mp hmem
    rw [hset]
    exact Slots.findSome?_set hget ((waitsFor_eq_none hc').trans (waitsFor_eq_none hc).symm)

theorem waitsFor_slot {l : EventLoop} (honce : ∀ d, l.pool.recorded.count d ≤ 1) {i : Nat}
    {c : ProxyConn} (hget : l.pool.slots[i]? = some c) {fd : Int} (hfd : fd ∈ c.descriptors)
    (hother : fd ≠ l.listenFd) : l.waitsFor fd = c.waitsFor fd := by
  rw [EventLoop.waitsFor, if_neg hother]
  refine Slots.findSome?_alone hget fun j z hj hz => ?_
  exact Slots.slot_unique (honce fd) hj hget (waitsFor_isSome.mp hz) hfd

theorem waitsFor_unrecorded {l : EventLoop} {fd : Int} (hfd : fd ∉ l.pool.recorded)
    (hother : fd ≠ l.listenFd) : l.waitsFor fd = none := by
  rw [EventLoop.waitsFor, if_neg hother, List.findSome?_eq_none_iff]
  intro c hc
  exact waitsFor_eq_none fun hmem => hfd (List.mem_flatMap.mpr ⟨c, hc, hmem⟩)

/-- A connection in a slot is in one of the three states that events are handled in. -/
def Serving (pool : Pool) : Prop :=
  ∀ c ∈ pool.slots, 0 < c.fd →
    c.state = .readingReq ∨ c.state = .connectingUpstream ∨ c.state = .readingUpstream

/-- The invariant: that of the descriptors, and the kernel's list is what is waited for. -/
structure WatchInv (s : WatchedWorld) : Prop where
  world : LoopInv s.world
  serving : Serving s.world.loop.pool
  exactly : ∀ fd : Nat, s.epoll.interest fd = s.world.loop.waitsFor fd

/-- What an event does, with what it calls. -/
inductive LoopWatch (l : EventLoop) (e : Event) : EventLoop → List Action → Prop
  | still {actions : List Action} (hcalls : epollCalls actions = []) : LoopWatch l e l actions
  | admitted {l' : EventLoop} {actions : List Action} (i : Nat) (c c' : ProxyConn)
      (hget : l.pool.slots[i]? = some c) (hset : l'.pool.slots = l.pool.slots.set i c')
      (hlisten : l'.listenFd = l.listenFd) (hfree : c.fd = 0)
      (hfd : c'.fd = e.calls.accept.accepted) (hufd : c'.upstreamFd = -1)
      (hstate : c'.state = .readingReq) (hops : e.ops actions = [.opened e.calls.accept.accepted])
      (hcalls : epollCalls actions =
        [.add e.calls.accept.accepted.toNat epollIn (some ()) false]) : LoopWatch l e l' actions
  | handled {l' : EventLoop} (i : Nat) (c : ProxyConn) (hother : e.fd ≠ l.listenFd)
      (hslot : proxyGet l.pool e.fd = some i) (hget : l.pool.slots[i]? = some c)
      (hset : l'.pool.slots = l.pool.slots.set i (handleConn l.worker c e.ev e.calls).conn)
      (hlisten : l'.listenFd = l.listenFd) :
      LoopWatch l e l' (handleConn l.worker c e.ev e.calls).actions

theorem acceptConn_watch {l : EventLoop} {e : Event} :
    LoopWatch l e (acceptConn l e.calls.accept).1 (acceptConn l e.calls.accept).2 := by
  unfold acceptConn
  split
  · exact .still rfl
  split
  · exact .still rfl
  rename_i hopen
  unfold proxyAlloc
  cases hfree : l.pool.slots.findIdx? ProxyConn.isFree with
  | none => exact .still rfl
  | some i =>
    obtain ⟨c, hget, _, hc⟩ := Slots.findIdx?_some hfree
    refine .admitted i c (.opened e.calls.accept
      { c with fd := e.calls.accept.accepted, state := .idle, upstreamFd := -1 }) hget ?_ rfl
      (eq_of_beq hc) rfl rfl rfl ?_ rfl
    · show (l.pool.slots.modify i _).modify i _ = _
      rw [List.modify_modify_eq, Slots.modify_eq_set hget]
      rfl
    · simp [Event.ops, tableOps, tableOp, handedOut, hopen]

/-- What an event calls. -/
theorem onEvent_watch (l : EventLoop) (e : Event) : LoopWatch l e (onEvent l e).1 (onEvent l e).2 := by
  unfold onEvent
  split
  · exact acceptConn_watch
  rename_i hother
  cases hslot : proxyGet l.pool e.fd with
  | none => exact .still rfl
  | some i =>
    obtain ⟨c, hget, _, _⟩ := Slots.findIdx?_some hslot
    dsimp only
    rw [hget]
    exact .handled i c hother hslot hget (Slots.modify_eq_set hget _) rfl

theorem SlotWatch.serving {c : ProxyConn} {k : EventCalls} {h : Handled} (hwatch : SlotWatch c k h)
    (hc : c.state = .readingReq ∨ c.state = .connectingUpstream ∨ c.state = .readingUpstream)
    (hclient : 0 < h.conn.fd) : h.conn.state = .readingReq ∨ h.conn.state = .connectingUpstream ∨
      h.conn.state = .readingUpstream := by
  cases hwatch with
  | kept _ _ hstate =>
    rw [hstate]
    exact hc
  | connected _ _ _ hstate => exact .inr (.inl hstate)
  | sent _ _ _ hstate => exact .inr (.inr hstate)
  | gone hfd =>
    rw [hfd] at hclient
    exact absurd hclient (Int.lt_irrefl 0)

theorem serving_set {pool pool' : Pool} {i : Nat} {c' : ProxyConn} (hpool : Serving pool)
    (hset : pool'.slots = pool.slots.set i c') (hc : 0 < c'.fd → c'.state = .readingReq ∨
      c'.state = .connectingUpstream ∨ c'.state = .readingUpstream) : Serving pool' := by
  intro c hmem
  rw [hset] at hmem
  obtain h | rfl := List.mem_or_eq_of_mem_set hmem
  · exact hpool c h
  · exact hc

theorem recorded_other {s : LoopWorld} (h : LoopInv s) {d : Int} (hd : d ∈ s.loop.pool.recorded) :
    d ≠ s.loop.listenFd := by
  rintro rfl
  have := h.held _ hd
  rw [h.listening] at this
  cases this

/-- A number that nobody holds is neither recorded nor the listening descriptor, and the
    kernel does not watch it. -/
theorem WatchInv.unwatched {s : WatchedWorld} (h : WatchInv s) {d : Int}
    (hd : s.world.table.holder d = none) (hpos : 0 < d) : s.epoll.interest d.toNat = none := by
  have hrecorded : d ∉ s.world.loop.pool.recorded := by
    intro hmem
    rw [h.world.held d hmem] at hd
    cases hd
  have hlisten : d ≠ s.world.loop.listenFd := by
    rintro rfl
    rw [h.world.listening] at hd
    cases hd
  rw [h.exactly, Int.toNat_of_nonneg hpos.le]
  exact waitsFor_unrecorded hrecorded hlisten

/-- Every step keeps the invariant. -/
theorem watch_step {s s' : WatchedWorld} {a : WorkerStep} (h : WatchInv s) (hstep : s.step a = some s') :
    WatchInv s' := by
  obtain ⟨world', hworld, rfl⟩ := Option.map_eq_some_iff.mp hstep
  have hinv := step_inv h.world hworld
  cases a with
  | health node healthy =>
    cases hworld
    exact ⟨hinv, h.serving, h.exactly⟩
  | event e =>
    have hwatch := onEvent_watch s.world.loop e
    unfold LoopWorld.step at hworld
    unfold WorkerStep.epollCalls
    dsimp only at hworld ⊢
    generalize onEvent s.world.loop e = r at hworld hwatch ⊢
    obtain ⟨l', actions⟩ := r
    dsimp only at hworld hwatch ⊢
    split at hworld
    · rename_i hguard
      obtain ⟨t', hrun, rfl⟩ := Option.map_eq_some_iff.mp hworld
      have hpositive := positiveOps_of_all hguard.2
      have hfree {d : Int} (hops : e.ops actions = [.opened d]) :
          0 < d ∧ s.epoll.interest d.toNat = none := by
        rw [hops] at hrun hpositive
        have hpos := hpositive d (List.mem_singleton.mpr rfl)
        exact ⟨hpos, h.unwatched (run_opened hrun).1 hpos⟩
      cases hwatch with
      | still hcalls =>
        refine ⟨hinv, h.serving, fun fd => ?_⟩
        dsimp only
        rw [hcalls]
        exact h.exactly fd
      | admitted i c c' hget hset hlisten hcfree hfd hufd hstate hops hcalls =>
        obtain ⟨hpos, hnone⟩ := hfree hops
        refine ⟨hinv, serving_set h.serving hset fun _ => .inl hstate, fun fd => ?_⟩
        dsimp only
        rw [hcalls, List.foldl_cons, List.foldl_nil, interest_add hnone]
        have hnew : e.calls.accept.accepted ∈ c'.descriptors := by
          rw [mem_descriptors, hfd]
          exact ⟨hpos, .inl rfl⟩
        have hget' : l'.pool.slots[i]? = some c' := by
          rw [hset, List.getElem?_set_self (List.getElem?_eq_some_iff.mp hget).1]
        have hapart := recorded_other hinv (mem_recorded hget' hnew)
        dsimp only at hapart
        by_cases hfdListen : (fd : Int) = s.world.loop.listenFd
        · have hne : ¬ fd = e.calls.accept.accepted.toNat := by omega
          rw [if_neg hne, h.exactly, EventLoop.waitsFor, EventLoop.waitsFor, hlisten,
            if_pos hfdListen, if_pos hfdListen]
        · rw [waitsFor_set hlisten hget hset h.world.once hinv.once hfdListen]
          have hcnone : (fd : Int) ∉ c.descriptors := by
            have := (h.world.slots c (List.mem_of_getElem? hget)).free hcfree
            rw [mem_descriptors]
            omega
          have hc' : (fd : Int) ∈ c'.descriptors ↔ e.calls.accept.accepted = fd := by
            rw [mem_descriptors, hfd, hufd]
            omega
          rw [if_congr ((or_iff_right hcnone).trans hc') rfl rfl, if_congr (toNat_eq hpos) rfl rfl,
            h.exactly]
          split
          · rename_i he
            rw [ProxyConn.waitsFor, hfd, if_pos ⟨hpos, he⟩]
          · rfl
      | handled i c hother hslot hget hset hlisten =>
        have hok := h.world.slots c (List.mem_of_getElem? hget)
        have hclient := (slotFor_client h.world.slots hguard.1 hother
          ((slotFor_conn hother).trans hslot) hget).1
        have hwatch := handleConn_watch s.world.loop.worker hok hclient e.ev e.calls
        have hlists : Lists s.epoll c := by
          intro fd hfd
          rw [h.exactly]
          exact waitsFor_slot h.world.once hget hfd (recorded_other h.world (mem_recorded hget hfd))
        have hget' : l'.pool.slots[i]? = some (handleConn s.world.loop.worker c e.ev e.calls).conn := by
          rw [hset, List.getElem?_set_self (List.getElem?_eq_some_iff.mp hget).1]
        refine ⟨hinv, serving_set h.serving hset fun hfd => ?_, fun fd => ?_⟩
        · exact hwatch.serving (h.serving c (List.mem_of_getElem? hget) hclient) hfd
        · dsimp only
          rw [slotWatch_interest hwatch hok hclient hlists fun d hops => hfree hops]
          by_cases hfdListen : (fd : Int) = s.world.loop.listenFd
          · have hc : (fd : Int) ∉ c.descriptors := fun hmem =>
              recorded_other h.world (mem_recorded hget hmem) hfdListen
            have hc' : (fd : Int) ∉ (handleConn s.world.loop.worker c e.ev e.calls).conn.descriptors :=
              fun hmem => recorded_other hinv (mem_recorded hget' hmem) (hfdListen.trans hlisten.symm)
            rw [if_neg (not_or.mpr ⟨hc, hc'⟩), h.exactly, EventLoop.waitsFor, EventLoop.waitsFor,
              hlisten, if_pos hfdListen, if_pos hfdListen]
          · rw [waitsFor_set hlisten hget hset h.world.once hinv.once hfdListen, h.exactly]
    · cases hworld

/-! ## Any run -/

theorem started_watch {s : WatchedWorld} (h : s.Started) : WatchInv s := by
  have hworld := started_inv h.world
  have hcast := Int.toNat_of_nonneg h.listening
  refine ⟨hworld, fun c hc hclient => ?_, fun fd => ?_⟩
  · rw [h.world.loop.pool] at hc
    rw [List.eq_of_mem_replicate hc] at hclient
    exact absurd hclient (by decide)
  · rw [h.epoll, interest_add rfl]
    by_cases hfd : (fd : Int) = s.world.loop.listenFd
    · rw [EventLoop.waitsFor, if_pos hfd, if_pos (by omega)]
    · rw [if_neg (by omega), waitsFor_unrecorded _ hfd]
      · rfl
      · rw [h.world.loop.pool, recorded_poolInit]
        exact List.not_mem_nil

theorem ev_asked {ev : UInt32} (h : ev &&& (epollOut ||| epollIn) ≠ 0) :
    ev &&& epollOut ≠ 0 ∨ ev &&& epollIn ≠ 0 := by
  by_contra hnone
  obtain ⟨hout, hin⟩ := not_or.mp hnone
  have hsplit : ev &&& (epollOut ||| epollIn) = ev &&& epollOut ||| ev &&& epollIn :=
    UInt32.toBitVec_inj.mp BitVec.and_or_distrib_left
  rw [hsplit, not_not.mp hout, not_not.mp hin] at h
  exact h rfl

/-- How the kernel's list and the connections fit: each connection has a descriptor with an
    event that runs the handler of its state, and each event raised for what was asked, but on
    the listening descriptor, finds a connection and a handler. -/
structure Watching (s : WatchedWorld) : Prop where
  exactly : ∀ fd : Nat, s.epoll.interest fd = s.world.loop.waitsFor fd
  wakes : ∀ (i : Nat) (c : ProxyConn), s.world.loop.pool.slots[i]? = some c → 0 < c.fd →
    ∃ (fd : Nat) (asked : UInt32) (h : Handler), s.epoll.interest fd = some asked ∧
      proxyGet s.world.loop.pool fd = some i ∧ handlerFor c asked = some h
  handles : ∀ (fd : Nat) (asked ev : UInt32), s.epoll.interest fd = some asked →
    (fd : Int) ≠ s.world.loop.listenFd → ev &&& asked ≠ 0 →
    ∃ i c h, proxyGet s.world.loop.pool fd = some i ∧ s.world.loop.pool.slots[i]? = some c ∧
      handlerFor c ev = some h

theorem wakes_on {c : ProxyConn} (hc : SlotOk c) (hclient : 0 < c.fd)
    (hserving : c.state = .readingReq ∨ c.state = .connectingUpstream ∨ c.state = .readingUpstream)
    (honce : c.descriptors.count c.fd ≤ 1) :
    ∃ d asked h, d ∈ c.descriptors ∧ c.waitsFor d = some asked ∧ handlerFor c asked = some h := by
  have hopen (hstate : c.state = .connectingUpstream ∨ c.state = .readingUpstream) :
      c.upstreamFd ∈ c.descriptors ∧ 0 < c.upstreamFd ∧ ¬ (0 < c.fd ∧ c.fd = c.upstreamFd) := by
    have hpos := (hc.upstream hclient).mpr hstate
    refine ⟨mem_descriptors.mpr ⟨hpos, .inr rfl⟩, hpos, fun h => ?_⟩
    rw [count_descriptors, if_pos ⟨hclient, rfl⟩, if_pos ⟨hpos, h.2.symm⟩] at honce
    omega
  obtain hstate | hstate | hstate := hserving
  · refine ⟨c.fd, epollIn, .clientRead, mem_descriptors.mpr ⟨hclient, .inl rfl⟩, if_pos ⟨hclient, rfl⟩, ?_⟩
    rw [handlerFor, hstate]
    rfl
  · obtain ⟨hmem, hpos, hne⟩ := hopen (.inl hstate)
    refine ⟨c.upstreamFd, epollOut ||| epollIn, .upstreamWritable, hmem, ?_, ?_⟩
    · rw [ProxyConn.waitsFor, if_neg hne, if_pos ⟨hpos, rfl⟩, if_pos hstate]
    · rw [handlerFor_connecting hstate]
      rfl
  · obtain ⟨hmem, hpos, hne⟩ := hopen (.inr hstate)
    refine ⟨c.upstreamFd, epollIn, .upstreamReadable, hmem, ?_, ?_⟩
    · rw [ProxyConn.waitsFor, if_neg hne, if_pos ⟨hpos, rfl⟩, if_neg (by rw [hstate]; decide)]
    · rw [handlerFor_awaiting hstate]
      rfl

theorem handles_asked {c : ProxyConn} {d : Int} {asked ev : UInt32} (hasked : c.waitsFor d = some asked)
    (hserving : c.state = .readingReq ∨ c.state = .connectingUpstream ∨ c.state = .readingUpstream)
    (hev : ev &&& asked ≠ 0) : ∃ h, handlerFor c ev = some h := by
  have hbits : ev &&& epollIn ≠ 0 ∨ (c.state = .connectingUpstream ∧ ev &&& epollOut ≠ 0) := by
    unfold ProxyConn.waitsFor at hasked
    split at hasked
    · cases hasked
      exact .inl hev
    split at hasked
    · split at hasked
      · rename_i hstate
        cases hasked
        obtain hout | hin := ev_asked hev
        · exact .inr ⟨hstate, hout⟩
        · exact .inl hin
      · cases hasked
        exact .inl hev
    · cases hasked
  obtain hstate | hstate | hstate := hserving
  · obtain hin | ⟨hother, _⟩ := hbits
    · exact ⟨.clientRead, if_pos ⟨hstate, hin⟩⟩
    · rw [hstate] at hother
      cases hother
  · refine ⟨.upstreamWritable, ?_⟩
    rw [handlerFor_connecting hstate, if_pos]
    obtain hin | ⟨_, hout⟩ := hbits
    · exact .inr hin
    · exact .inl hout
  · obtain hin | ⟨hother, _⟩ := hbits
    · exact ⟨.upstreamReadable, by rw [handlerFor_awaiting hstate, if_pos hin]⟩
    · rw [hstate] at hother
      cases hother

theorem watching {s : WatchedWorld} (h : WatchInv s) : Watching s := by
  refine ⟨h.exactly, fun i c hget hclient => ?_, fun fd asked ev hlisted hother hev => ?_⟩
  · have hmem := List.mem_of_getElem? hget
    have honce := h.world.once c.fd
    rw [Pool.recorded, List.count_flatMap] at honce
    have hone : c.descriptors.count c.fd ≤ 1 :=
      (List.single_le_sum (fun _ _ => Nat.zero_le _) _ (List.mem_map_of_mem hmem)).trans honce
    obtain ⟨d, asked, hd, hdesc, hasked, hhandler⟩ :=
      wakes_on (h.world.slots c hmem) hclient (h.serving c hmem hclient) hone
    have hcast := Int.toNat_of_nonneg (mem_descriptors.mp hdesc).1.le
    have hrecorded := mem_recorded hget hdesc
    obtain ⟨j, c', hfound, hget', hdesc', hunique⟩ := proxyGet_owner h.world hrecorded
    refine ⟨d.toNat, asked, hd, ?_, ?_, hhandler⟩
    · rw [h.exactly, hcast, waitsFor_slot h.world.once hget hdesc (recorded_other h.world hrecorded),
        hasked]
    · rw [hcast, hfound, hunique i c hget hdesc]
  · rw [h.exactly] at hlisted
    have hrecorded : (fd : Int) ∈ s.world.loop.pool.recorded := by
      by_contra hno
      rw [waitsFor_unrecorded hno hother] at hlisted
      cases hlisted
    obtain ⟨i, c, hfound, hget, hdesc, _⟩ := proxyGet_owner h.world hrecorded
    rw [waitsFor_slot h.world.once hget hdesc hother] at hlisted
    have hok := h.world.slots c (List.mem_of_getElem? hget)
    have hclient : 0 < c.fd := by
      have hnonneg := hok.fd_nonneg
      obtain ⟨hpos, hrecords⟩ := mem_descriptors.mp hdesc
      by_contra hfree
      have := hok.free (by omega)
      omega
    obtain ⟨hd, hhandler⟩ :=
      handles_asked hlisted (h.serving c (List.mem_of_getElem? hget) hclient) hev
    exact ⟨i, c, hd, hfound, hget, hhandler⟩

/-- **The kernel watches what the connections wait for, and nothing else.** For every worker
    as it enters its loop and every run of events for positive descriptors, with any results of
    the system calls that the kernel can return, but that `epoll_ctl` has room for every
    descriptor, and nothing else happening between a handler's calls: the list is exactly the listening descriptor and the descriptors recorded, each with
    the events that its connection's state waits for. So each connection has an event that
    runs the handler of its state, and each event raised for what was asked finds a
    connection and a handler. -/
theorem interest_exact {s₀ s : WatchedWorld} (h₀ : s₀.Started) {steps : List WorkerStep}
    (hrun : Runs.run WatchedWorld.step s₀ steps = some s) : Watching s :=
  watching (Runs.run_keeps watch_step steps (started_watch h₀) hrun)

/-- The worker of `sampleWorld` with its interest list. -/
def sampleWatched : WatchedWorld := ⟨sampleWorld, epollInit.call (.add 5 epollIn none false)⟩

theorem interest_exact_sample :
    ∃ s, Runs.run WatchedWorld.step sampleWatched [.event (acceptEvent 7), .event (requestEvent 7 8),
      .event (acceptEvent 9), .event (sentEvent 8)] = some s ∧ Watching s := by
  have hstarted : sampleWatched.Started := ⟨sampleWorld_started, by decide, rfl⟩
  have hrun : (Runs.run WatchedWorld.step sampleWatched [.event (acceptEvent 7),
      .event (requestEvent 7 8), .event (acceptEvent 9), .event (sentEvent 8)]).isSome = true := by
    decide +kernel
  obtain ⟨s, hs⟩ := Option.isSome_iff_exists.mp hrun
  exact ⟨s, hs, interest_exact hstarted hs⟩

end NexusGateway
