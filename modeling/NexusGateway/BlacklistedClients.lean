import NexusGateway.TrafficOrigin
import NexusGateway.WorkerStart

/- What a blacklisted client gets.

   A worker builds its blacklist from `[security] blacklist` when it starts and does not
   change it. A client is `Listed` when its address is among the first `BL_MAX` names of that
   setting. In every state of a run, and whatever is configured, a listed client's connection
   never has an upstream, and of the whole requests that are read the listed clients'
   are refused with a 403 and no others (`blacklist_enforced`). -/
namespace NexusGateway
open CString Runs

/-! ## The list -/

/-- The names of `[security] blacklist`. -/
def listedNames (cfg : Config) : List Bytes :=
  match configGet cfg (ascii "security") (ascii "blacklist") with
  | none => []
  | some csv => strtok csv (ascii ", ")

/-- The address is among the names that the blacklist has room for. -/
def Listed (cfg : Config) (ip : Bytes) : Prop := ip ∈ (listedNames cfg).take blMax

instance (cfg : Config) (ip : Bytes) : Decidable (Listed cfg ip) :=
  inferInstanceAs (Decidable (_ ∈ _))

theorem mem_of_splitOnP {p : UInt8 → Bool} {l : Bytes} : ∀ {piece : Bytes}, piece ∈ l.splitOnP p →
    ∀ c ∈ piece, c ∈ l := by
  induction l with
  | nil =>
    intro piece hpiece c hc
    cases List.mem_singleton.mp hpiece
    cases hc
  | cons a l ih =>
    intro piece hpiece c hc
    rw [List.splitOnP_cons_eq_if_modifyHead] at hpiece
    split at hpiece
    · rcases List.mem_cons.mp hpiece with rfl | hpiece
      · cases hc
      · exact List.mem_cons_of_mem a (ih hpiece c hc)
    · cases hsplit : l.splitOnP p with
      | nil =>
        rw [hsplit] at hpiece
        cases hpiece
      | cons first rest =>
        rw [hsplit, List.modifyHead_cons] at hpiece
        rcases List.mem_cons.mp hpiece with rfl | hpiece
        · rcases List.mem_cons.mp hc with rfl | hc
          · exact List.mem_cons_self
          · exact List.mem_cons_of_mem a (ih (by rw [hsplit]; exact List.mem_cons_self) c hc)
        · exact List.mem_cons_of_mem a
            (ih (by rw [hsplit]; exact List.mem_cons_of_mem first hpiece) c hc)

theorem strtok_nulFree {s delims tok : Bytes} (h : tok ∈ strtok s delims) : NulFree tok :=
  fun hzero => cstr_nulFree s (mem_of_splitOnP (List.mem_of_mem_filter h) 0 hzero)

theorem foldl_blAdd (toks : List Bytes) : ∀ bl : Blacklist,
    (toks.foldl (fun bl tok => (blAdd bl tok).1) bl).ips =
      bl.ips ++ (toks.map cstr).take (blMax - bl.ips.length) := by
  induction toks with
  | nil => intro bl; simp
  | cons tok toks ih =>
    intro bl
    rw [List.foldl_cons, ih]
    by_cases hfull : bl.ips.length ≥ blMax
    · rw [blAdd, dif_pos hfull, Nat.sub_eq_zero_of_le hfull]
      simp
    · rw [blAdd, dif_neg hfull]
      obtain ⟨n, hn⟩ : ∃ n, blMax - bl.ips.length = n + 1 := ⟨blMax - bl.ips.length - 1, by omega⟩
      have hrest : blMax - (bl.ips ++ [cstr tok]).length = n := by
        rw [List.length_append, List.length_singleton]
        omega
      rw [hn, hrest, List.map_cons, List.take_succ_cons]
      simp

/-- The blacklist of a worker refuses the addresses that are listed. -/
theorem blCheck_start (cfg : Config) {ip : Bytes} (hip : NulFree ip) :
    blCheck (startBlacklist cfg) ip = true ↔ Listed cfg ip := by
  have hips : (startBlacklist cfg).ips = (listedNames cfg).take blMax := by
    unfold startBlacklist listedNames
    cases configGet cfg (ascii "security") (ascii "blacklist") with
    | none => rfl
    | some csv =>
      have hcstr : (strtok csv (ascii ", ")).map cstr = strtok csv (ascii ", ") := by
        conv => rhs; rw [← List.map_id (strtok csv (ascii ", "))]
        exact List.map_congr_left fun tok htok => cstr_of_nulFree (strtok_nulFree htok)
      dsimp only
      rw [foldl_blAdd, hcstr]
      rfl
  have hnul {x : Bytes} (hx : x ∈ (listedNames cfg).take blMax) : NulFree x := by
    have hmem := List.mem_of_mem_take hx
    unfold listedNames at hmem
    split at hmem
    · cases hmem
    · exact strtok_nulFree hmem
  rw [blCheck, hips, List.any_eq_true, Listed]
  constructor
  · rintro ⟨x, hx, heq⟩
    rw [strEq, beq_iff_eq, cstr_of_nulFree (hnul hx), cstr_of_nulFree hip] at heq
    exact heq ▸ hx
  · intro hmem
    exact ⟨ip, hmem, by rw [strEq, beq_self_eq_true]⟩

/-! ## The run -/

/-- What a handler leaves of a worker's tables: the limiter `rl` and the upstream `u`, and the
    rest as it was. -/
structure TablesAfter (w w' : Worker) (rl : RateLimiter) (u : Upstream) : Prop where
  cfg : w'.cfg = w.cfg
  bl : w'.bl = w.bl
  rl : w'.rl = rl
  upstream : w'.upstream = u

theorem closeClientConn_tables (w : Worker) (c : ProxyConn) :
    TablesAfter w (closeClientConn w c).worker w.rl w.upstream :=
  ⟨rfl, rfl, rfl, rfl⟩

theorem connectUpstream_tables (w : Worker) (c : ProxyConn) (node : UpstreamNode) (ufd : Int) :
    TablesAfter w (connectUpstream w c node ufd).worker w.rl w.upstream := by
  unfold connectUpstream
  dsimp only
  split
  · exact closeClientConn_tables w c
  · exact ⟨rfl, rfl, rfl, rfl⟩

theorem forwardRequest_tables (w : Worker) (c : ProxyConn) (req : HttpReq) (node : UpstreamNode)
    (k : ClientReadCalls) : TablesAfter w (forwardRequest w c req node k).worker w.rl w.upstream := by
  unfold forwardRequest
  dsimp only
  split
  · exact closeClientConn_tables w c
  · exact connectUpstream_tables _ _ _ _

/-- A request takes one call of the limiter if its address is not on the blacklist, and one
    choice of a node if it is to be forwarded. -/
theorem routeRequest_tables (w : Worker) (c : ProxyConn) (req : HttpReq) (k : ClientReadCalls) :
    ∃ u, (u = w.upstream ∨ u = (upstreamPick w.upstream).1) ∧
      TablesAfter w (routeRequest w c req k).worker
        (if blCheck w.bl c.clientIp.text then w.rl
        else (rlCheck w.rl c.clientIp.text k.rlCreatedMs k.rlCheckMs).1) u := by
  have hip : (c.saveRequest req).clientIp = c.clientIp := rfl
  unfold routeRequest
  dsimp only
  rw [hip]
  split
  · exact ⟨_, .inl rfl, closeClientConn_tables w _⟩
  split
  · exact ⟨_, .inl rfl, ⟨rfl, rfl, rfl, rfl⟩⟩
  split
  · exact ⟨_, .inl rfl, ⟨rfl, rfl, rfl, rfl⟩⟩
  split
  · exact ⟨_, .inr rfl, ⟨rfl, rfl, rfl, rfl⟩⟩
  · rename_i node _
    obtain ⟨hcfg, hbl, hrl, hupstream⟩ := forwardRequest_tables _ (c.saveRequest req) req node k
    exact ⟨_, .inr rfl, ⟨hcfg, hbl, hrl, hupstream⟩⟩

/-- What a handler leaves of the tables: only that of the client calls the limiter or chooses
    a node. -/
theorem handleConn_tables (w : Worker) (c : ProxyConn) (ev : UInt32) (k : EventCalls) :
    ∃ rl u, TablesAfter w (handleConn w c ev k).worker rl u ∧
      (u = w.upstream ∨ u = (upstreamPick w.upstream).1) ∧
      (handlerFor c ev ≠ some .clientRead → rl = w.rl) := by
  have hsame {w' : Worker} (h : TablesAfter w w' w.rl w.upstream) : ∃ rl u, TablesAfter w w' rl u ∧
      (u = w.upstream ∨ u = (upstreamPick w.upstream).1) ∧
      (handlerFor c ev ≠ some .clientRead → rl = w.rl) :=
    ⟨w.rl, w.upstream, h, .inl rfl, fun _ => rfl⟩
  unfold handleConn
  split
  · rename_i hclient
    unfold handleClientRead
    split
    · exact hsame (closeClientConn_tables w c)
    · exact hsame (closeClientConn_tables w c)
    · dsimp only
      split
      · exact hsame (closeClientConn_tables w _)
      · obtain ⟨u, hu, htables⟩ := routeRequest_tables w _ _ k.clientRead
        exact ⟨_, u, htables, hu, fun hother => absurd hclient hother⟩
  · unfold handleUpstreamWritable
    dsimp only
    split
    · exact hsame ⟨rfl, rfl, rfl, rfl⟩
    split
    · exact hsame ⟨rfl, rfl, rfl, rfl⟩
    split <;> exact hsame ⟨rfl, rfl, rfl, rfl⟩
  · unfold handleUpstreamReadable
    dsimp only
    split
    · exact hsame ⟨rfl, rfl, rfl, rfl⟩
    split <;> exact hsame ⟨rfl, rfl, rfl, rfl⟩
  · exact hsame ⟨rfl, rfl, rfl, rfl⟩

/-- What an event leaves of the tables. -/
theorem onEvent_tables (l : EventLoop) (e : Event) :
    ∃ rl u, TablesAfter l.worker (onEvent l e).1.worker rl u ∧
      (u = l.worker.upstream ∨ u = (upstreamPick l.worker.upstream).1) := by
  have hsame {w' : Worker} (h : TablesAfter l.worker w' l.worker.rl l.worker.upstream) :
      ∃ rl u, TablesAfter l.worker w' rl u ∧
        (u = l.worker.upstream ∨ u = (upstreamPick l.worker.upstream).1) :=
    ⟨_, _, h, .inl rfl⟩
  unfold onEvent
  split
  · unfold acceptConn
    split
    · exact hsame ⟨rfl, rfl, rfl, rfl⟩
    split
    · exact hsame ⟨rfl, rfl, rfl, rfl⟩
    split <;> exact hsame ⟨rfl, rfl, rfl, rfl⟩
  · split
    · exact hsame ⟨rfl, rfl, rfl, rfl⟩
    split
    · exact hsame ⟨rfl, rfl, rfl, rfl⟩
    · rename_i c _
      obtain ⟨rl, u, htables, hu, _⟩ := handleConn_tables l.worker c e.ev e.calls
      exact ⟨rl, u, ⟨htables.cfg, htables.bl, htables.rl, htables.upstream⟩, hu⟩

theorem run_bl {s₀ s : LoopWorld} {steps : List WorkerStep}
    (hrun : run LoopWorld.step s₀ steps = some s) : s.loop.worker.bl = s₀.loop.worker.bl := by
  have hkeeps : ∀ {s a s'}, s.loop.worker.bl = s₀.loop.worker.bl → LoopWorld.step s a = some s' →
      s'.loop.worker.bl = s₀.loop.worker.bl := by
    intro s a s' hinv hstep
    cases a with
    | health node healthy =>
      cases hstep
      exact hinv
    | event e =>
      obtain ⟨_, _, hloop, _⟩ := worldStep_some hstep
      obtain ⟨_, _, htables, _⟩ := onEvent_tables s.loop e
      rw [hloop, htables.bl, hinv]
  exact run_keeps hkeeps steps rfl hrun

theorem Asked.unlisted {s₀ : LoopWorld} {steps : List WorkerStep} {i : Nat} {c : ProxyConn}
    (h : Asked s₀ steps i c) : blCheck s₀.loop.worker.bl c.clientIp.text = false := by
  obtain ⟨before, a, after, s, _, hrun, ⟨e, c₀, _, _, _, hrequests⟩, _⟩ := h
  have hunlisted := hrequests.forwarded.unlisted
  rwa [run_bl hrun, ← hrequests.clientIp] at hunlisted

theorem Sent.unlisted {s₀ : LoopWorld} {steps : List WorkerStep} {i : Nat} {c : ProxyConn}
    (h : Sent s₀ steps i c) : blCheck s₀.loop.worker.bl c.clientIp.text = false := by
  obtain ⟨before, a, after, s, _, _, ⟨e, c₁, _, _, hasked, _, rfl⟩, _⟩ := h
  exact hasked.unlisted

theorem RunsHandler.handled {s : LoopWorld} {e : Event} {i : Nat} {c : ProxyConn} {h : Handler}
    (hruns : RunsHandler s e i c h) :
    (onEvent s.loop e).1.worker = (handleConn s.loop.worker c e.ev e.calls).worker ∧
      (onEvent s.loop e).2 = (handleConn s.loop.worker c e.ev e.calls).actions := by
  have hhere : s.loop.pool.slots[i]? = some c := hruns.here
  unfold onEvent
  rw [if_neg hruns.other, hruns.found]
  dsimp only
  rw [hhere]
  exact ⟨rfl, rfl⟩

/-- The actions are a refusal, its record and the close of the client, and nothing more is
    written. -/
def Refuses (c : ProxyConn) (req : HttpReq) (actions : List Action) : Prop :=
  ∃ closing, (0 < c.fd → .close c.fd ∈ closing) ∧ (∀ a ∈ closing, ¬ a.Speaks) ∧ actions =
    .write c.fd forbiddenResponse :: .logAccess (accessText (ascii "BLOCKED") c req) :: closing

theorem not_refuses {c : ProxyConn} {req : HttpReq} {actions : List Action}
    (h : actions.head? ≠ some (.write c.fd forbiddenResponse)) : ¬ Refuses c req actions := by
  rintro ⟨closing, _, _, rfl⟩
  exact h rfl

theorem close_mem (w : Worker) {c : ProxyConn} (hclient : 0 < c.fd) :
    .close c.fd ∈ (closeClientConn w c).actions := by
  unfold closeClientConn
  dsimp only
  rw [if_pos hclient, if_pos hclient]
  exact List.mem_append_left _ (List.mem_cons_of_mem _ List.mem_cons_self)

theorem closing_head (w : Worker) (c : ProxyConn) (fd : Int) (bytes : Bytes) :
    (closeClientConn w c).actions.head? ≠ some (.write fd bytes) := by
  intro h
  exact close_silent w c (List.mem_of_mem_head? h) trivial

/-- A whole request is refused for its address exactly when the blacklist has it. -/
theorem routed_refuses_iff {w : Worker} {c c' : ProxyConn} {req : HttpReq} {k : ClientReadCalls}
    {handled : Handled} (h : Routed w c req k handled) (hfd : c.fd = c'.fd)
    (hip : c.clientIp = c'.clientIp) :
    blCheck w.bl c'.clientIp.text = true ↔ Refuses c' req handled.actions := by
  rw [← hip]
  cases h with
  | blocked hlisted =>
    refine iff_of_true hlisted ⟨(closeClientConn w (c.saveRequest req)).actions,
      fun hclient => ?_, fun a ha => close_silent _ _ ha, ?_⟩
    · rw [← hfd] at hclient ⊢
      exact close_mem w (c := c.saveRequest req) hclient
    rw [← hfd, accessText, accessText, ← hip]
    rfl
  | limited hactive hunlisted =>
    refine iff_of_false (Bool.eq_false_iff.mp hunlisted) (not_refuses ?_)
    intro heq
    injection Option.some.inj heq with _ hbytes
    exact absurd hbytes (by decide +kernel)
  | static hactive hunlisted =>
    refine iff_of_false (Bool.eq_false_iff.mp hunlisted) (not_refuses ?_)
    intro heq
    cases heq
  | dropped hactive hdynamic hstopped hconn hbefore =>
    refine iff_of_false (Bool.eq_false_iff.mp hdynamic.unlisted) (not_refuses ?_)
    rcases hbefore with rfl | ⟨_, host, port, rfl⟩
    · exact closing_head _ _ _ _
    · intro heq
      cases heq
  | forwarded hactive hforwarded =>
    refine iff_of_false (Bool.eq_false_iff.mp hforwarded.unlisted) (not_refuses ?_)
    intro heq
    cases heq

/-- A whole request is answered as the blacklist says. -/
theorem listed_iff_refuses {cfg : Config} {s : LoopWorld} (hbl : s.loop.worker.bl = startBlacklist cfg)
    {e : Event} {i : Nat} {c : ProxyConn} (hruns : RunsHandler s e i c .clientRead)
    (hdone : e.request.state = .done) :
    Listed cfg c.clientIp.text ↔ Refuses c e.request (onEvent s.loop e).2 := by
  rw [hruns.handled.2, ← blCheck_start cfg c.clientIp.nulFree, ← hbl, handleConn, hruns.handler]
  dsimp only
  cases hread : e.calls.clientRead.read with
  | data bytes hne hfits =>
    have hrequest : e.request = (feed httpReqInit bytes).1 := by rw [Event.request, hread]; rfl
    rw [hrequest] at hdone ⊢
    exact routed_refuses_iff (handleClientRead_routed s.loop.worker c hread hdone) rfl rfl
  | eof =>
    rw [Event.request, hread] at hdone
    exact absurd hdone (by decide)
  | failed wouldBlock =>
    have hnothing : (feed httpReqInit []).1.state ≠ .done := by decide
    rw [Event.request, hread] at hdone
    exact absurd hdone hnothing

/-- What the blacklist does in a state. An event comes for a descriptor, and its handler's
    connection has a client. -/
structure Enforced (cfg : Config) (s : LoopWorld) : Prop where
  noUpstream : ∀ i c, s.slot i = some c → 0 < c.fd → Listed cfg c.clientIp.text → c.upstreamFd ≤ 0
  client : ∀ e i c h, 0 < e.fd → RunsHandler s e i c h → 0 < c.fd
  refuses : ∀ e i c, RunsHandler s e i c .clientRead → e.request.state = .done →
    (Listed cfg c.clientIp.text ↔ Refuses c e.request (onEvent s.loop e).2)

/-- **The listed clients are refused, and no others.** For every configuration and every run of
    a worker started with it: no connection of a client whose address is among the first
    `BL_MAX` names of `[security] blacklist` ever has an upstream; and a whole request
    that is read is answered with the 403, recorded as blocked, and its connection closed
    with nothing more written, exactly when its client's address is one of them. -/
theorem blacklist_enforced (cfg : Config) {s₀ s : LoopWorld} (h₀ : s₀.Started)
    (hworker : s₀.loop.worker = startWorker cfg) {steps : List WorkerStep}
    (hrun : run LoopWorld.step s₀ steps = some s) : Enforced cfg s := by
  have horigins := origins_run h₀ hrun
  have hbl : s₀.loop.worker.bl = startBlacklist cfg := by rw [hworker]; rfl
  refine ⟨fun i c hget hclient hon => ?_, fun e i c h hfd hruns => hruns.client horigins.world hfd,
    fun e i c hruns hdone => ?_⟩
  · by_contra hopen
    have hslot := horigins.world.slots c (List.mem_of_getElem? hget)
    have hblocked := (blCheck_start cfg c.clientIp.nulFree).mpr hon
    rw [← hbl] at hblocked
    rcases (hslot.upstream hclient).mp (Int.not_le.mp hopen) with hstate | hstate
    · rw [(horigins.asked hget hclient hstate).unlisted] at hblocked
      cases hblocked
    · rw [(horigins.sent hget hclient hstate).unlisted] at hblocked
      cases hblocked
  · exact listed_iff_refuses ((run_bl hrun).trans hbl) hruns hdone

/-- A blacklist with the sample client on it. -/
def blockingConfig : Config :=
  configLoad (ascii "[security]\nblacklist = 10.0.0.9, 10.0.0.7\n")

/-- A worker with this blacklist as it enters its loop. -/
def blockingWorld : LoopWorld := ⟨⟨startWorker blockingConfig, poolInit, 5, 0⟩, sampleWorld.table⟩

theorem blacklist_enforced_sample : ∃ s,
    run LoopWorld.step blockingWorld [.event (acceptEvent 7)] = some s ∧
    Listed blockingConfig sampleIp.text ∧ Enforced blockingConfig s := by
  have hstarted : blockingWorld.Started := ⟨⟨rfl, rfl⟩, by decide⟩
  have hsome : (run LoopWorld.step blockingWorld [.event (acceptEvent 7)]).isSome = true := by
    decide +kernel
  obtain ⟨s, hs⟩ := Option.isSome_iff_exists.mp hsome
  exact ⟨s, hs, by decide +kernel, blacklist_enforced blockingConfig hstarted rfl hs⟩

end NexusGateway
