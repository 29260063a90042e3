import NexusGateway.BlacklistedClients
import NexusGateway.RateIsolation
import NexusGateway.Lib.Phases

/- What the limiter does to the clients of a worker.

   A worker's limiter starts empty and is called once for every whole request of a client
   that is not on the blacklist, in the order in which they are read. So the answers of a run
   are the verdicts of the limiter (`admissions_verdicts`), and of every address that has
   come into its table no window lets in more than a second's worth and what its time refills
   (`rate_enforced`). An address that finds the table full is never refused. With a rate that
   is not negative no bucket of a run holds more than the rate or less than nothing
   (`buckets_bounded`). -/
namespace NexusGateway
open CString Runs Phases TokenBucket

/-! ## The limiter -/

/-- The limiter after some calls. -/
def rlAfter (rl : RateLimiter) : List RlCall → RateLimiter
  | [] => rl
  | k :: calls => rlAfter (rlCheck rl k.ip k.createdMs k.nowMs).1 calls

theorem rlAfter_full {ip : Bytes} (calls : List RlCall) : ∀ {rl : RateLimiter},
    rl.entryOf ip = none → rlMax ≤ rl.entries.length → (rlAfter rl calls).entryOf ip = none := by
  induction calls with
  | nil => exact fun h _ => h
  | cons k calls ih =>
    intro rl hnone hfull
    have hlength (rl : RateLimiter) : rl.keys.length = rl.entries.length := List.length_map _
    have hkeys : (rlCheck rl k.ip k.createdMs k.nowMs).1.keys = rl.keys := by
      obtain ⟨_, hsame | ⟨_, hmore⟩⟩ := rlCheck_keys rl k.ip k.createdMs k.nowMs
      · exact hsame
      · have hgrown := congrArg List.length hmore
        rw [List.length_append, hlength, hlength, List.length_singleton] at hgrown
        have hle := (rlCheck rl k.ip k.createdMs k.nowMs).1.entries_le
        omega
    refine ih ?_ ?_
    · rwa [entryOf_eq_none, hkeys, ← entryOf_eq_none]
    · rwa [← hlength, hkeys, hlength]

/-- The calls of an address that has come into the table begin with the one that created its
    entry. -/
theorem verdictsFor_known {ip : CharArray 64} (calls : List RlCall) : ∀ {rl : RateLimiter},
    (∀ k ∈ calls, (cstr k.ip).length ≤ 63) → rl.entryOf ip.text = none →
    (rlAfter rl calls).entryOf ip.text ≠ none →
    ∃ (rl' : RateLimiter) (k : RlCall) (rest : List RlCall), rl'.entryOf ip.text = none ∧
      rl'.entries.length < rlMax ∧ rl'.rate = rl.rate ∧ k.isFor ip.text = true ∧
      verdictsFor ip.text rl calls = verdictsFor ip.text rl' (k :: rest) ∧
      timesFor ip.text calls = timesFor ip.text (k :: rest) := by
  induction calls with
  | nil => exact fun _ hnone hknown => absurd hnone hknown
  | cons k calls ih =>
    intro rl hshort hnone hknown
    by_cases hk : k.isFor ip.text = true
    · by_cases hroom : rl.entries.length < rlMax
      · exact ⟨rl, k, calls, hnone, hroom, rfl, hk, rfl, rfl⟩
      · exact absurd (rlAfter_full (k :: calls) hnone (Nat.not_lt.mp hroom)) hknown
    · have hother : strEq k.ip ip.text = false := Bool.eq_false_iff.mpr hk
      have hnone' := rlCheck_other_none hnone hother (hshort k List.mem_cons_self) k.createdMs k.nowMs
      obtain ⟨rl', k', rest, hnew, hroom, hrate, hk', hverdicts, htimes⟩ :=
        ih (fun x hx => hshort x (List.mem_cons_of_mem k hx)) hnone' hknown
      refine ⟨rl', k', rest, hnew, hroom, ?_, hk', ?_, ?_⟩
      · exact hrate.trans (rlCheck_keys rl k.ip k.createdMs k.nowMs).1
      · rw [← hverdicts, verdictsFor_cons, if_neg hk]
      · rw [← htimes, timesFor_cons, if_neg hk]

theorem verdictsFor_conforms {rl : RateLimiter} {ip : CharArray 64} (hnew : rl.entryOf ip.text = none)
    (hroom : rl.entries.length < rlMax) (hrate : 0 ≤ rl.rate) {k : RlCall}
    (hk : k.isFor ip.text = true) (rest : List RlCall)
    (htimes : (timesFor ip.text (k :: rest)).Pairwise (· ≤ ·)) {m : Nat} {c : Call ℚ}
    (hc : ((verdictsFor ip.text rl (k :: rest)).map asCall)[m]? = some c) (hadmitted : c.admitted = true) :
    Conforms rl.rate (rl.rate / 1000) ((verdictsFor ip.text rl (k :: rest)).map asCall) m := by
  obtain ⟨hverdict, hsame, hnext⟩ := rlCheck_new hnew hroom hk k.createdMs k.nowMs
  obtain ⟨hfirst, hbucket, hlast⟩ := take_full hrate (e := ⟨ip, rl.rate, k.createdMs⟩) rfl k.nowMs
  rw [← hverdict] at hfirst hbucket
  rw [timesFor_cons, if_pos hk, ← hlast] at htimes
  have hrun := verdictsFor_eq_run rest hnext htimes
  rw [hsame, hbucket] at hrun
  rw [verdictsFor_cons, if_pos hk, List.map_cons, hrun] at hc ⊢
  have hdesc := describes_first rl.rate (rl.rate / 1000)
    (c := asCall (k, (rlCheck rl k.ip k.createdMs k.nowMs).2))
  cases m with
  | zero =>
    cases hc
    intro j hj f c hf hc
    obtain rfl := Nat.le_zero.mp hj
    cases hf
    cases hc
    simpa [admissions] using hfirst.mp hadmitted
  | succ m => exact (run_admits_iff _ _ hdesc _ (Nat.succ_le_succ (Nat.zero_le m)) hc).mp hadmitted

theorem verdictsFor_new_refused {rl : RateLimiter} {ip : CharArray 64}
    (hnew : rl.entryOf ip.text = none) (hroom : rl.entries.length < rlMax) (hrate : rl.rate < 1)
    {k : RlCall} (hk : k.isFor ip.text = true) (rest : List RlCall) :
    ∀ v ∈ verdictsFor ip.text rl (k :: rest), v.2 = false := by
  obtain ⟨hverdict, hsame, hnext⟩ := rlCheck_new hnew hroom hk k.createdMs k.nowMs
  rw [verdictsFor_cons, if_pos hk]
  intro v hv
  rcases List.mem_cons.mp hv with rfl | hv
  · exact hverdict.trans (take_refused hrate _ k.nowMs)
  · exact verdictsFor_refused rest hnext (hsame ▸ hrate) v hv

theorem verdictsFor_times (ip : Bytes) (calls : List RlCall) : ∀ rl : RateLimiter,
    (verdictsFor ip rl calls).map (fun v => v.1.nowMs) = timesFor ip calls := by
  induction calls with
  | nil => exact fun _ => rfl
  | cons k calls ih =>
    intro rl
    rw [verdictsFor_cons, timesFor_cons]
    split
    · rw [List.map_cons, ih]
    · exact ih _

/-- No window lets in more than the rate allows, of the calls of an address from the one on
    that created its entry. -/
theorem verdictsFor_window_le {rl : RateLimiter} {ip : CharArray 64}
    (hnew : rl.entryOf ip.text = none) (hroom : rl.entries.length < rlMax) {k : RlCall}
    (hk : k.isFor ip.text = true) (rest : List RlCall)
    (htimes : (timesFor ip.text (k :: rest)).Pairwise (· ≤ ·)) {j m : Nat} {f c : RlCall × Bool}
    (hj : j ≤ m) (hf : (verdictsFor ip.text rl (k :: rest))[j]? = some f)
    (hc : (verdictsFor ip.text rl (k :: rest))[m]? = some c) :
    ((((verdictsFor ip.text rl (k :: rest)).take (m + 1)).drop j).countP Prod.snd : ℚ) ≤
      max 0 (rl.rate + rl.rate * ((c.1.nowMs.toNat : ℚ) - f.1.nowMs.toNat) / 1000) := by
  by_cases hrate : 0 ≤ rl.rate
  · have hconforms (m : Nat) (c : Call ℚ) :=
      verdictsFor_conforms hnew hroom hrate hk rest htimes (m := m) (c := c)
    have hpairwise : (((verdictsFor ip.text rl (k :: rest)).map asCall).map Call.time).Pairwise
        (· ≤ ·) := by
      have hmap : ((verdictsFor ip.text rl (k :: rest)).map asCall).map Call.time =
          (timesFor ip.text (k :: rest)).map fun t => (t.toNat : ℚ) := by
        rw [← verdictsFor_times ip.text (k :: rest) rl, List.map_map, List.map_map]
        rfl
      rw [hmap, List.pairwise_map]
      exact htimes.imp fun hle => Nat.cast_le.mpr (UInt64.le_iff_toNat_le.mp hle)
    have hwindow := window_admissions_le rl.rate (rl.rate / 1000) (by linarith) hpairwise hconforms hj
      (by rw [List.getElem?_map, hf]; rfl) (by rw [List.getElem?_map, hc]; rfl)
    rw [← List.map_take, ← List.map_drop, admissions, List.countP_map] at hwindow
    calc ((((verdictsFor ip.text rl (k :: rest)).take (m + 1)).drop j).countP Prod.snd : ℚ)
        ≤ max 0 (rl.rate + rl.rate / 1000 * ((asCall c).time - (asCall f).time)) := hwindow
      _ = max 0 (rl.rate + rl.rate * ((c.1.nowMs.toNat : ℚ) - f.1.nowMs.toNat) / 1000) := by
        rw [asCall, asCall]
        congr 2
        ring
  · have hrefused := verdictsFor_new_refused hnew hroom (by linarith) hk rest
    have hnone : (((verdictsFor ip.text rl (k :: rest)).take (m + 1)).drop j).countP Prod.snd = 0 := by
      rw [List.countP_eq_zero]
      intro v hv
      rw [hrefused v (List.mem_of_mem_take (List.mem_of_mem_drop hv))]
      decide
    rw [hnone, Nat.cast_zero]
    exact le_max_left _ _

/-! ## The worker -/

/-- The handler that an event runs, and the connection in its slot. -/
def LoopWorld.handles (s : LoopWorld) (e : Event) : Option (ProxyConn × Handler) :=
  if e.fd = s.loop.listenFd then none
  else
    (proxyGet s.loop.pool e.fd).bind fun i =>
      (s.slot i).bind fun c => (handlerFor c e.ev).map fun h => (c, h)

/-- The whole request of a client that is not listed: when it is read, and whether it is
    answered with anything but a 429. -/
def LoopWorld.admission (s : LoopWorld) : WorkerStep → List (RlCall × Bool)
  | .health _ _ => []
  | .event e =>
    match s.handles e with
    | some (c, .clientRead) =>
      if e.request.state = .done ∧ blCheck s.loop.worker.bl c.clientIp.text = false then
        [(⟨c.clientIp.text, e.calls.clientRead.rlCreatedMs, e.calls.clientRead.rlCheckMs⟩,
          decide ((onEvent s.loop e).2.head? ≠ some (.write c.fd tooManyResponse)))]
      else []
    | _ => []

/-- The requests of a run, in the order in which they were read. -/
def admissionsOf (s₀ : LoopWorld) (steps : List WorkerStep) : List (RlCall × Bool) :=
  outputs LoopWorld.step LoopWorld.admission s₀ steps

/-- What a step of the worker does with its limiter: nothing, or one call of which the verdict
    is the answer. -/
inductive LimiterStep (rl : RateLimiter) : List (RlCall × Bool) → RateLimiter → Prop
  | unused : LimiterStep rl [] rl
  | called (k : RlCall) (ip : IpText) (hip : k.ip = ip.text) :
      LimiterStep rl [(k, (rlCheck rl k.ip k.createdMs k.nowMs).2)]
        (rlCheck rl k.ip k.createdMs k.nowMs).1

theorem routed_limited_iff {w : Worker} {c c' : ProxyConn} {req : HttpReq} {k : ClientReadCalls}
    {handled : Handled} (h : Routed w c req k handled) (hfd : c.fd = c'.fd)
    (hip : c.clientIp = c'.clientIp) (hunlisted : blCheck w.bl c'.clientIp.text = false) :
    handled.actions.head? ≠ some (.write c'.fd tooManyResponse) ↔
      (rlCheck w.rl c'.clientIp.text k.rlCreatedMs k.rlCheckMs).2 = true := by
  rw [← hip] at hunlisted ⊢
  cases h with
  | blocked hlisted =>
    rw [hunlisted] at hlisted
    cases hlisted
  | limited hactive _ hrefused =>
    rw [hrefused, ← hfd]
    exact iff_of_false (fun h => h rfl) Bool.false_ne_true
  | static hactive _ hadmitted =>
    refine iff_of_true (fun heq => ?_) hadmitted
    cases heq
  | dropped hactive hdynamic hstopped hconn hbefore =>
    refine iff_of_true ?_ hdynamic.admitted
    rcases hbefore with rfl | ⟨_, host, port, rfl⟩
    · exact closing_head _ _ _ _
    · intro heq
      cases heq
  | forwarded hactive hforwarded =>
    refine iff_of_true (fun heq => ?_) hforwarded.admitted
    cases heq

theorem handles_some {s : LoopWorld} {e : Event} {c : ProxyConn} {h : Handler}
    (hh : s.handles e = some (c, h)) : ∃ i, RunsHandler s e i c h := by
  unfold LoopWorld.handles at hh
  split at hh
  · cases hh
  · rename_i hother
    obtain ⟨i, hfound, hslot⟩ := Option.bind_eq_some_iff.mp hh
    obtain ⟨c', hhere, hmap⟩ := Option.bind_eq_some_iff.mp hslot
    obtain ⟨h', hhandler, heq⟩ := Option.map_eq_some_iff.mp hmap
    cases heq
    exact ⟨i, hother, hfound, hhere, hhandler⟩

theorem handles_none {s : LoopWorld} {e : Event} (hh : s.handles e = none) :
    (onEvent s.loop e).1.worker.rl = s.loop.worker.rl := by
  unfold LoopWorld.handles at hh
  unfold onEvent
  split
  · unfold acceptConn
    split
    · rfl
    split
    · rfl
    split <;> rfl
  · rename_i hother
    rw [if_neg hother] at hh
    split
    · rfl
    · rename_i i hfound
      rw [hfound, Option.bind_some] at hh
      split
      · rfl
      · rename_i c hhere
        rw [show s.slot i = some c from hhere, Option.bind_some, Option.map_eq_none_iff] at hh
        obtain ⟨rl, u, htables, _, hsame⟩ := handleConn_tables s.loop.worker c e.ev e.calls
        exact htables.rl.trans (hsame (by rw [hh]; exact nofun))

/-- What reading from a client does with the limiter. -/
theorem clientRead_limiter {s : LoopWorld} {e : Event} {i : Nat} {c : ProxyConn}
    (hruns : RunsHandler s e i c .clientRead) (hadmission : s.handles e = some (c, .clientRead)) :
    LimiterStep s.loop.worker.rl (s.admission (.event e)) (onEvent s.loop e).1.worker.rl := by
  obtain ⟨hworker, hactions⟩ := hruns.handled
  have hhandled : handleConn s.loop.worker c e.ev e.calls =
      handleClientRead s.loop.worker c e.calls.clientRead := by
    rw [handleConn, hruns.handler]
  have hentry : s.admission (.event e) =
      if e.request.state = .done ∧ blCheck s.loop.worker.bl c.clientIp.text = false then
        [(⟨c.clientIp.text, e.calls.clientRead.rlCreatedMs, e.calls.clientRead.rlCheckMs⟩,
          decide ((handleClientRead s.loop.worker c e.calls.clientRead).actions.head? ≠
            some (.write c.fd tooManyResponse)))]
      else [] := by
    rw [LoopWorld.admission, hadmission, ← hhandled, ← hactions]
  rw [hworker, hhandled]
  have hnothing : (feed httpReqInit []).1.state ≠ .done := by decide
  -- what is no whole request does not come to the limiter
  have hunused (hdone : e.request.state ≠ .done)
      (hsame : (handleClientRead s.loop.worker c e.calls.clientRead).worker.rl = s.loop.worker.rl) :
      LimiterStep s.loop.worker.rl (s.admission (.event e))
        (handleClientRead s.loop.worker c e.calls.clientRead).worker.rl := by
    rw [hentry, if_neg (fun h => hdone h.1), hsame]
    exact .unused
  cases hread : e.calls.clientRead.read with
  | data bytes hne hfits =>
    have hrequest : e.request = (feed httpReqInit bytes).1 := by rw [Event.request, hread]; rfl
    have hdata := handleClientRead_data (w := s.loop.worker) (c := c) hread
    by_cases hdone : (feed httpReqInit bytes).1.state = .done
    · obtain ⟨u, _, htables⟩ := routeRequest_tables s.loop.worker
        (c.receive bytes hfits e.calls.clientRead.startMs) (feed httpReqInit bytes).1 e.calls.clientRead
      have hrl := htables.rl
      rw [if_neg (not_not.mpr hdone)] at hdata
      rw [← hdata, show (c.receive bytes hfits e.calls.clientRead.startMs).clientIp = c.clientIp from rfl]
        at hrl
      rw [hrl, hentry, hrequest]
      cases hlisted : blCheck s.loop.worker.bl c.clientIp.text with
      | true =>
        rw [if_neg (fun h => Bool.noConfusion h.2), if_pos rfl]
        exact .unused
      | false =>
        have hanswer : (handleClientRead s.loop.worker c e.calls.clientRead).actions.head? ≠
            some (.write c.fd tooManyResponse) ↔ (rlCheck s.loop.worker.rl c.clientIp.text
              e.calls.clientRead.rlCreatedMs e.calls.clientRead.rlCheckMs).2 = true :=
          routed_limited_iff (handleClientRead_routed s.loop.worker c hread hdone) rfl rfl hlisted
        rw [if_pos ⟨hdone, rfl⟩, if_neg Bool.false_ne_true,
          Bool.eq_iff_iff.mpr (decide_eq_true_iff.trans hanswer)]
        exact .called ⟨c.clientIp.text, _, _⟩ c.clientIp rfl
    · refine hunused (hrequest ▸ hdone) ?_
      rw [hdata, if_pos hdone]
      rfl
  | eof =>
    refine hunused (by rw [Event.request, hread]; exact hnothing) ?_
    unfold handleClientRead
    rw [hread]
    rfl
  | failed wouldBlock =>
    refine hunused (by rw [Event.request, hread]; exact hnothing) ?_
    unfold handleClientRead
    rw [hread]
    rfl

/-- What a step does with the limiter. -/
theorem limiterStep {s s' : LoopWorld} {a : WorkerStep} (hstep : s.step a = some s') :
    LimiterStep s.loop.worker.rl (s.admission a) s'.loop.worker.rl := by
  cases a with
  | health node healthy =>
    cases hstep
    exact .unused
  | event e =>
    obtain ⟨_, _, hloop, _⟩ := worldStep_some hstep
    rw [hloop]
    cases hhandles : s.handles e with
    | none =>
      rw [LoopWorld.admission, hhandles, handles_none hhandles]
      exact .unused
    | some r =>
      obtain ⟨c, h⟩ := r
      obtain ⟨i, hruns⟩ := handles_some hhandles
      by_cases hclient : h = .clientRead
      · subst hclient
        exact clientRead_limiter hruns hhandles
      · have hnone : s.admission (.event e) = [] := by
          rw [LoopWorld.admission, hhandles]
          cases h with
          | clientRead => exact absurd rfl hclient
          | upstreamWritable => rfl
          | upstreamReadable => rfl
        obtain ⟨rl, u, htables, _, hsame⟩ := handleConn_tables s.loop.worker c e.ev e.calls
        have hother : handlerFor c e.ev ≠ some .clientRead := by
          rw [hruns.handler]
          exact fun heq => hclient (Option.some.inj heq)
        rw [hnone, hruns.handled.1, htables.rl, hsame hother]
        exact .unused

/-- **The answers of a run are the verdicts of the limiter.** -/
theorem admissions_verdicts (steps : List WorkerStep) : ∀ {s s' : LoopWorld},
    run LoopWorld.step s steps = some s' →
    admissionsOf s steps = rlVerdicts s.loop.worker.rl ((admissionsOf s steps).map Prod.fst) ∧
    s'.loop.worker.rl = rlAfter s.loop.worker.rl ((admissionsOf s steps).map Prod.fst) ∧
    ∀ v ∈ admissionsOf s steps, ∃ ip : IpText, v.1.ip = ip.text := by
  induction steps with
  | nil =>
    intro s s' hrun
    cases hrun
    exact ⟨rfl, rfl, fun v hv => by cases hv⟩
  | cons a steps ih =>
    intro s s' hrun
    obtain ⟨s₁, htaken, hrest⟩ := Option.bind_eq_some_iff.mp hrun
    obtain ⟨hverdicts, hafter, hips⟩ := ih hrest
    have hcons : admissionsOf s (a :: steps) = s.admission a ++ admissionsOf s₁ steps := by
      rw [admissionsOf, outputs, htaken]
      rfl
    have hlimiter := limiterStep htaken
    rw [hcons]
    generalize s.admission a = given at hlimiter
    generalize s₁.loop.worker.rl = rl₁ at hlimiter hverdicts hafter
    cases hlimiter with
    | unused => exact ⟨hverdicts, hafter, hips⟩
    | called k ip hip =>
      refine ⟨?_, hafter, fun v hv => ?_⟩
      · rw [List.singleton_append, List.map_cons, rlVerdicts, ← hverdicts]
      · rcases List.mem_cons.mp hv with rfl | hv
        · exact ⟨ip, hip⟩
        · exact hips v hv

/-- The array that an address is kept in. -/
def IpText.cell (ip : IpText) : CharArray 64 := ⟨ip.text, ip.nulFree, ip.fits⟩

/-- The requests of an address. -/
def admissionsFor (ip : Bytes) (s₀ : LoopWorld) (steps : List WorkerStep) : List (RlCall × Bool) :=
  (admissionsOf s₀ steps).filter (fun v => v.1.isFor ip)

/-- `rate_limit_per_ip`, in requests a second. -/
def rateLimit (cfg : Config) : ℚ :=
  ((configGetInt cfg (ascii "security") (ascii "rate_limit_per_ip") 100).toInt : ℚ)

/-- **No address gets more than its rate.** For every configuration, every run of a worker started
    with it and every address that has come into the limiter's table: if its requests are read at
    times that do not go back, then of those read between any two of them, both included, at most
    a second's worth and what the time between refills are answered with anything but a 429. -/
theorem rate_enforced (cfg : Config) {s₀ s : LoopWorld} (hworker : s₀.loop.worker = startWorker cfg)
    {steps : List WorkerStep} (hrun : run LoopWorld.step s₀ steps = some s) (ip : IpText)
    (hknown : s.loop.worker.rl.entryOf ip.text ≠ none)
    (htimes : ((admissionsFor ip.text s₀ steps).map fun v => v.1.nowMs).Pairwise (· ≤ ·))
    {j m : Nat} {f c : RlCall × Bool} (hj : j ≤ m) (hf : (admissionsFor ip.text s₀ steps)[j]? = some f)
    (hc : (admissionsFor ip.text s₀ steps)[m]? = some c) :
    ((((admissionsFor ip.text s₀ steps).take (m + 1)).drop j).countP Prod.snd : ℚ) ≤
      max 0 (rateLimit cfg + rateLimit cfg * ((c.1.nowMs.toNat : ℚ) - f.1.nowMs.toNat) / 1000) := by
  obtain ⟨hverdicts, hafter, hips⟩ := admissions_verdicts steps hrun
  have hstart : s₀.loop.worker.rl = rlInit (configGetInt cfg (ascii "security")
      (ascii "rate_limit_per_ip") 100) := by
    rw [hworker]
    rfl
  generalize hcalls : (admissionsOf s₀ steps).map Prod.fst = calls at hverdicts hafter
  have hown : admissionsFor ip.text s₀ steps = verdictsFor ip.text s₀.loop.worker.rl calls := by
    rw [admissionsFor, hverdicts]
    rfl
  have hshort (k : RlCall) (hk : k ∈ calls) : (cstr k.ip).length ≤ 63 := by
    rw [← hcalls] at hk
    obtain ⟨v, hv, rfl⟩ := List.mem_map.mp hk
    obtain ⟨ip', hip'⟩ := hips v hv
    rw [hip', cstr_of_nulFree ip'.nulFree]
    exact Nat.le_of_lt_succ ip'.fits
  rw [hown] at htimes hf hc ⊢
  rw [verdictsFor_times] at htimes
  rw [hafter] at hknown
  have hnone : s₀.loop.worker.rl.entryOf ip.cell.text = none := by
    rw [hstart]
    rfl
  -- the part of the run from the call on that created the entry
  obtain ⟨rl, k, rest, hnew, hroom, hrate, hk, hsame, hsameTimes⟩ :=
    verdictsFor_known calls hshort hnone hknown
  rw [show ip.cell.text = ip.text from rfl] at hsame hsameTimes
  rw [hsame] at hf hc ⊢
  rw [hsameTimes] at htimes
  have hwindow := verdictsFor_window_le hnew hroom hk rest htimes hj hf hc
  rw [hrate, hstart] at hwindow
  exact hwindow

/-- A limiter of one request a second. -/
def limitedConfig : Config := configLoad (ascii "[security]\nrate_limit_per_ip = 1\n")

/-- A worker with this limiter as it enters its loop. -/
def limitedWorld : LoopWorld := ⟨⟨startWorker limitedConfig, poolInit, 5, 0⟩, sampleWorld.table⟩

/-- Two requests of one client at one time; it is closed behind the first. -/
def twiceSteps : List WorkerStep :=
  [.event (acceptEvent 7), .event (requestEvent 7 8), .event (acceptEvent 7),
    .event (requestEvent 7 8)]

theorem rate_enforced_twice : ∃ s f c, run LoopWorld.step limitedWorld twiceSteps = some s ∧
    admissionsFor sampleIp.text limitedWorld twiceSteps = [f, c] ∧ f.2 = true ∧ c.2 = false ∧
    ((([f, c].take 2).drop 0).countP Prod.snd : ℚ) ≤ max 0 (rateLimit limitedConfig +
      rateLimit limitedConfig * ((c.1.nowMs.toNat : ℚ) - f.1.nowMs.toNat) / 1000) := by
  have hknown : (run LoopWorld.step limitedWorld twiceSteps).map
      (fun s => (s.loop.worker.rl.entryOf sampleIp.text).isSome) = some true := by decide +kernel
  obtain ⟨s, hs, hentry⟩ := Option.map_eq_some_iff.mp hknown
  have hlog : admissionsFor sampleIp.text limitedWorld twiceSteps =
      [(⟨sampleIp.text, 1000, 1000⟩, true), (⟨sampleIp.text, 1000, 1000⟩, false)] := by decide +kernel
  refine ⟨s, _, _, hs, hlog, rfl, rfl, ?_⟩
  rw [← hlog]
  refine rate_enforced limitedConfig rfl hs sampleIp (Option.isSome_iff_ne_none.mp hentry) ?_
    (Nat.zero_le 1) ?_ ?_ <;> rw [hlog]
  · decide
  · rfl
  · rfl

/-! ## The buckets -/

theorem buckets_step {rate : ℚ} (hrate : 0 ≤ rate) {s s' : LoopWorld} {a : WorkerStep}
    (h : s.loop.worker.rl.rate = rate ∧ s.loop.worker.rl.Ok) (hstep : s.step a = some s') :
    s'.loop.worker.rl.rate = rate ∧ s'.loop.worker.rl.Ok := by
  obtain ⟨hsame, hok⟩ := h
  have hlimiter := limiterStep hstep
  generalize s.admission a = given at hlimiter
  generalize s'.loop.worker.rl = rl' at hlimiter ⊢
  cases hlimiter with
  | unused => exact ⟨hsame, hok⟩
  | called k =>
    refine ⟨(rlCheck_keys s.loop.worker.rl k.ip k.createdMs k.nowMs).1.trans hsame, ?_⟩
    exact rlCheck_ok (hsame ▸ hrate) hok k.ip k.createdMs k.nowMs

/-- **No bucket of a run leaves its bounds**, whatever clients come and when, if the rate of the
    worker's configuration is not negative. -/
theorem buckets_bounded (cfg : Config) (hrate : 0 ≤ rateLimit cfg) {s₀ s : LoopWorld}
    (hworker : s₀.loop.worker = startWorker cfg) {steps : List WorkerStep}
    (hrun : run LoopWorld.step s₀ steps = some s) :
    s.loop.worker.rl.rate = rateLimit cfg ∧ s.loop.worker.rl.Ok := by
  have hstart : s₀.loop.worker.rl.rate = rateLimit cfg ∧ s₀.loop.worker.rl.Ok := by
    rw [hworker]
    exact ⟨rfl, fun e he => absurd he List.not_mem_nil⟩
  exact run_keeps (buckets_step hrate) steps hstart hrun

theorem buckets_bounded_twice : ∃ s, run LoopWorld.step limitedWorld twiceSteps = some s ∧
    s.loop.worker.rl.entries.length = 1 ∧ s.loop.worker.rl.rate = rateLimit limitedConfig ∧
    s.loop.worker.rl.Ok := by
  have hruns : (run LoopWorld.step limitedWorld twiceSteps).map
      (fun s => s.loop.worker.rl.entries.length) = some 1 := by decide +kernel
  have hrate : 0 ≤ rateLimit limitedConfig := by decide +kernel
  obtain ⟨s, hs, hone⟩ := Option.map_eq_some_iff.mp hruns
  exact ⟨s, hs, hone, buckets_bounded limitedConfig hrate rfl hs⟩

end NexusGateway
