import NexusGateway.Gateway
import NexusGateway.Conversations
import NexusGateway.DrainExit

/- A reload cuts nobody off whom a worker that leaves by itself has let into a slot.

   The worker's test is on a count that never falls below its clients (`Covers`). So when it
   leaves its loop for a drain, nobody is there in any slot, and what it has done for the
   clients that it let in since it entered its loop are whole conversations, up to the last
   (`graceful_exit`). Only a worker that the master kills, or that dies, leaves one open. Of a
   client who still waits in its queue, or whom it accepted without a slot for him, nothing is
   said. A handler's calls are one step, as in `Conversations`. -/
namespace NexusGateway
open CString Runs Sessions

theorem worldStep_covers {s s' : LoopWorld} {a : WorkerStep} (h : Covers s.loop)
    (hstep : s.step a = some s') : Covers s'.loop := by
  cases a with
  | health node healthy =>
    cases hstep
    exact ⟨h.nonneg, h.counted⟩
  | event e =>
    rw [(worldStep_some hstep).2.2.1]
    exact loopStep_covers h (onEvent_step s.loop e)

theorem started_covers {l : EventLoop} (h : l.Started) : Covers l := by
  refine ⟨fun c hc => ?_, ?_⟩
  · rw [h.pool] at hc
    exact (poolInit_fd hc).ge
  · rw [h.pool, clients_poolInit, h.active]
    rfl

theorem leaves_uncounted {s s' : System} {pid : Int} {a : WorkerAct} {notices : List Notice}
    (hstep : s.workerStep pid a = some (s', notices)) (hleft : Notice.leftLoop ∈ notices) :
    ∃ p l, s.procs pid = some p ∧ p.pc.loop = some l ∧ l.worker.activeConns = 0 := by
  obtain ⟨p, pc', hp, hmove, _⟩ := workerStep_some hstep
  generalize hpc : p.pc = pc at hmove
  cases hmove with
  | drained l v hdrain hactive => exact ⟨p, l, hp, by rw [hpc]; rfl, hactive⟩
  | draining => simp at hleft
  | accepted => split at hleft <;> simp at hleft
  | _ => cases hleft

/-- **A worker that leaves for a drain has finished with every client.** For every run of the
    master, its workers and the signals, and every step in the state reached with which a
    worker leaves its loop for a drain: its loop and its descriptors are what its own events,
    since it entered, make of a start with the configuration that it was forked with; and
    what it has done in these events for the clients that it let into each of its slots is
    whole conversations and nothing else. -/
theorem graceful_exit (cfg : Config) (online : Int32) {steps : List GatewayStep} {g : Gateway}
    (hrun : run Gateway.step (gatewayInit cfg online) steps = some g) {pid : Int} {a : WorkerAct}
    {s' : System} {notices : List Notice} (hstep : g.system.workerStep pid a = some (s', notices))
    (hleft : Notice.leftLoop ∈ notices) :
    ∃ p l s₀, g.system.procs pid = some p ∧ p.pc.loop = some l ∧ StartedWith p.cfg s₀ ∧
      run LoopWorld.step s₀ (workerSteps pid steps) = some ⟨l, g.tables pid⟩ ∧
      ∀ i, ∃ conversations : List (List Mark), (∀ marks ∈ conversations, Conversation marks) ∧
        outputs LoopWorld.step (LoopWorld.marks i) s₀ (workerSteps pid steps) =
          conversations.flatten := by
  obtain ⟨p, l, hp, hl, hactive⟩ := leaves_uncounted hstep hleft
  obtain ⟨s₀, hbegun, hown⟩ := shown_run (w := ⟨l, g.tables pid⟩) hrun ⟨p, hp, rfl, hl, rfl⟩
  have h₀ := hbegun.started
  have hcovers : Covers l := run_keeps worldStep_covers _ (started_covers h₀.loop) hown
  refine ⟨p, l, s₀, hp, hl, hbegun, hown, fun i => ?_⟩
  have hnobody : LoopWorld.guest i ⟨l, g.tables pid⟩ = none := by
    rw [LoopWorld.guest, LoopWorld.slot]
    cases hget : l.pool.slots[i]? with
    | none => rfl
    | some c => exact guest_of_zero (hcovers.no_client hactive c (List.mem_of_getElem? hget))
  have hlogged := slot_logged h₀ hown i
  rw [hnobody] at hlogged
  obtain ⟨conversations, hwhole, htrace⟩ := hlogged
  exact ⟨conversations, hwhole, htrace.trans (List.append_nil _)⟩

/-- The old worker serves a client; a reload forks a new one, and the old one leaves. -/
def servedGateway : List GatewayStep :=
  [.other (.master ⟨none, 100, 0⟩), .other (.master noCalls), .enter 100 ⟨5, 0, 0⟩ sampleWorld.table,
    .other (.worker 100 .loadShutting), .other (.worker 100 (.accept (acceptEvent 7))), .other .sighup,
    .other (.master noCalls), .other (.master noCalls),
    .other (.master ⟨some (configLoad listingFile), 0, 0⟩), .other (.master noCalls),
    .other (.master noCalls), .other (.master noCalls), .other (.worker 100 (.event ⟨7, epollIn, .idle⟩)),
    .other (.worker 100 .check)]

theorem graceful_exit_served : ∃ g s' p l s₀,
    run Gateway.step (gatewayInit (configLoad plainFile) 1) servedGateway = some g ∧
    g.system.workerStep 100 .decide = some (s', [.drainMode, .leftLoop]) ∧
    (workerSteps 100 servedGateway).length = 2 ∧
    g.system.procs 100 = some p ∧ p.pc.loop = some l ∧ StartedWith p.cfg s₀ ∧
    run LoopWorld.step s₀ (workerSteps 100 servedGateway) = some ⟨l, g.tables 100⟩ ∧
    ∀ i, ∃ conversations : List (List Mark), (∀ marks ∈ conversations, Conversation marks) ∧
      outputs LoopWorld.step (LoopWorld.marks i) s₀ (workerSteps 100 servedGateway) =
        conversations.flatten := by
  have hruns : (run Gateway.step (gatewayInit (configLoad plainFile) 1) servedGateway).bind
      (fun g => g.system.decides 100) = some [.drainMode, .leftLoop] := by
    decide +kernel
  obtain ⟨g, hg, hdecides⟩ := Option.bind_eq_some_iff.mp hruns
  obtain ⟨s', hstep⟩ := decides_some hdecides
  obtain ⟨p, l, s₀, hp, hl, hbegun, hown, hwhole⟩ :=
    graceful_exit (configLoad plainFile) 1 hg hstep (by decide)
  exact ⟨g, s', p, l, s₀, hg, hstep, by decide +kernel, hp, hl, hbegun, hown, hwhole⟩

end NexusGateway
