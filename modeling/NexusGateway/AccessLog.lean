import NexusGateway.RequestRun

/- The access log (`nexus_log_access` and `nexus_log_access_full` of `log.c`), and what is
   written to it for a request.

   A record is its fields and the text between them; the gateway's own fields have no
   line feed, and the client's are written as they were parsed, where only `\r\n` ends a line.
   `access_line_iff`: what is written for a request is one line exactly when
   it is recorded and has no line feed in its method, in its path, and in what is noted
   as its id. -/
namespace NexusGateway
open CString

/-! ## `log.c` -/

/-- `struct tm`, its year with the century and its offset in minutes. -/
structure Tm where
  year : Nat
  mon : Fin 12
  mday : Nat
  hour : Nat
  min : Nat
  sec : Nat
  gmtoff : Int
  deriving DecidableEq, Repr

/-- A decimal number of two digits. -/
def twoDigits (n : Nat) : Bytes := [48 + (n / 10 % 10).toUInt8, 48 + (n % 10).toUInt8]

/-- `%b`. -/
def monthName (mon : Fin 12) : Bytes :=
  ([ascii "Jan", ascii "Feb", ascii "Mar", ascii "Apr", ascii "May", ascii "Jun", ascii "Jul",
    ascii "Aug", ascii "Sep", ascii "Oct", ascii "Nov", ascii "Dec"] : List Bytes).getD mon []

/-- `%z`. -/
def zoneText (gmtoff : Int) : Bytes :=
  ascii (if gmtoff < 0 then "-" else "+") ++ twoDigits (gmtoff.natAbs / 60) ++
    twoDigits (gmtoff.natAbs % 60)

/-- `format_ts`. -/
def formatTs (t : Tm) : Bytes :=
  [ascii (toString t.year), ascii "-", twoDigits (t.mon + 1), ascii "-", twoDigits t.mday, ascii " ",
    twoDigits t.hour, ascii ":", twoDigits t.min, ascii ":", twoDigits t.sec].flatten

/-- The time in a full record, with its brackets. -/
def accessTs (t : Tm) : Bytes :=
  [ascii "[", twoDigits t.mday, ascii "/", monthName t.mon, ascii "/", ascii (toString t.year),
    ascii ":", twoDigits t.hour, ascii ":", twoDigits t.min, ascii ":", twoDigits t.sec, ascii " ",
    zoneText t.gmtoff, ascii "]"].flatten

/-- The value of an unsigned integer converted to `double`: 53 bits, ties to even. -/
def toDouble (n : UInt64) : Nat :=
  if n.toNat < 2 ^ 53 then n.toNat
  else
    let ulp := 2 ^ (Nat.log2 n.toNat - 52)
    let q := n.toNat / ulp
    let r := n.toNat % ulp
    if 2 * r < ulp ∨ (2 * r = ulp ∧ q % 2 = 0) then q * ulp else (q + 1) * ulp

/-- `nexus_log_access`, the arguments formatted. -/
def logAccess (t : Tm) (text : Bytes) : Bytes :=
  [ascii "[", formatTs t, ascii "] ", text].flatten ++ [lf]

/-- What `nexus_log_access_full` prints in front of the line's end. -/
def accessFields (t : Tm) (r : AccessFull) : List Bytes :=
  [r.clientIp.text, ascii ":", ascii (toString r.clientPort.toNat), ascii " - - ", accessTs t,
    ascii " \"", r.method.text, ascii " ", r.path.text, ascii " ", r.version.text, ascii "\" ",
    ascii (toString r.statusCode), ascii " ", ascii (toString r.bytesSent),
    ascii " \"-\" \"", cstr r.userAgent, ascii "\" req_id=", r.reqId.text,
    ascii " upstream=", cstr r.upstreamAddr, ascii " duration=",
    -- the milliseconds are a whole number: `%.1f` prints it and a zero
    ascii (toString (toDouble r.durationMs)), ascii ".0ms"]

/-- `nexus_log_access_full`. -/
def logAccessFull (t : Tm) (r : AccessFull) : Bytes := (accessFields t r).flatten ++ [lf]

/-- What an action writes to the access log. -/
def accessLine (t : Tm) : Action → Bytes
  | .logAccess text => logAccess t text
  | .logAccessFull r => logAccessFull t r
  | _ => []

/-- What actions write to the access log. -/
def accessWritten (t : Tm) (actions : List Action) : Bytes := actions.flatMap (accessLine t)

@[simp] theorem accessWritten_cons (t : Tm) (a : Action) (actions : List Action) :
    accessWritten t (a :: actions) = accessLine t a ++ accessWritten t actions :=
  List.flatMap_cons

@[simp] theorem accessWritten_append (t : Tm) (before actions : List Action) :
    accessWritten t (before ++ actions) = accessWritten t before ++ accessWritten t actions :=
  List.flatMap_append

/-- One line: the only line feed is the last byte. -/
def OneLine (text : Bytes) : Prop := ∃ body, lf ∉ body ∧ text = body ++ [lf]

theorem oneLine_iff (body : Bytes) : OneLine (body ++ [lf]) ↔ lf ∉ body := by
  refine ⟨fun h => ?_, fun h => ⟨body, h, rfl⟩⟩
  obtain ⟨body', hbody, he⟩ := h
  rwa [(List.append_inj' he rfl).1]

theorem not_oneLine_nil : ¬ OneLine [] := by
  rintro ⟨body, _, he⟩
  simp at he

/-! ## Fields without a line feed -/

theorem lf_not_mem_nat (n : Nat) : lf ∉ ascii n.repr := by
  intro h
  obtain ⟨c, hc, hcode⟩ := List.mem_map.mp h
  have hmem : c ∈ Nat.toDigits 10 n := by
    simpa [Nat.repr_eq_ofList_toDigits] using hc
  have hdigit := Nat.isDigit_of_mem_toDigits (by decide) (by decide) hmem
  obtain ⟨hlow, hhigh⟩ := Char.isDigit_iff_toNat.mp hdigit
  have hten : c.toNat % 256 = 10 := congrArg UInt8.toNat hcode
  have hzero : '0'.toNat = 48 := rfl
  have hnine : '9'.toNat = 57 := rfl
  omega

theorem lf_not_mem_int (n : Int) : lf ∉ ascii n.repr := by
  rw [Int.repr_eq_if]
  split
  · exact lf_not_mem_nat n.toNat
  · have hsign : ascii ("-" ++ (-n).toNat.repr) = ascii "-" ++ ascii (-n).toNat.repr := by
      simp [ascii]
    rw [hsign, List.mem_append, not_or]
    exact ⟨by decide +kernel, lf_not_mem_nat _⟩

theorem lf_not_mem_twoDigits (n : Nat) : lf ∉ twoDigits n := by
  have hdigit : ∀ d < 10, lf ≠ 48 + d.toUInt8 := by decide
  intro h
  obtain h | h := List.mem_cons.mp h
  · exact hdigit _ (Nat.mod_lt _ (by decide)) h
  · exact hdigit _ (Nat.mod_lt _ (by decide)) (List.mem_singleton.mp h)

theorem lf_not_mem_formatTs (t : Tm) : lf ∉ formatTs t := by
  have hsep : lf ∉ ascii "-" ∧ lf ∉ ascii " " ∧ lf ∉ ascii ":" := by decide +kernel
  simp [formatTs, lf_not_mem_nat, lf_not_mem_twoDigits, hsep]

theorem lf_not_mem_accessTs (t : Tm) : lf ∉ accessTs t := by
  have hsep : lf ∉ ascii "[" ∧ lf ∉ ascii "/" ∧ lf ∉ ascii " " ∧ lf ∉ ascii ":" ∧ lf ∉ ascii "]" ∧
      lf ∉ ascii "-" ∧ lf ∉ ascii "+" := by
    decide +kernel
  have hmonth : ∀ mon, lf ∉ monthName mon := by decide +kernel
  have hzone : lf ∉ zoneText t.gmtoff := by
    unfold zoneText
    split <;> simp [hsep, lf_not_mem_twoDigits]
  simp [accessTs, lf_not_mem_nat, lf_not_mem_twoDigits, hsep, hmonth, hzone]

/-! ## The records -/

/-- A record of one text is one line when the text has no line feed. -/
theorem logAccess_oneLine (t : Tm) (text : Bytes) : OneLine (logAccess t text) ↔ lf ∉ text := by
  have hsep : lf ∉ ascii "[" ∧ lf ∉ ascii "] " := by decide +kernel
  rw [logAccess, oneLine_iff]
  simp [hsep, lf_not_mem_formatTs]

/-- A full record is one line when the texts in it have no line feed. -/
theorem logAccessFull_oneLine (t : Tm) (r : AccessFull) :
    OneLine (logAccessFull t r) ↔
      lf ∉ r.method.text ∧ lf ∉ r.path.text ∧ lf ∉ r.version.text ∧ lf ∉ cstr r.userAgent ∧
      lf ∉ r.reqId.text ∧ lf ∉ cstr r.upstreamAddr := by
  have hsep : lf ∉ ascii ":" ∧ lf ∉ ascii " - - " ∧ lf ∉ ascii " \"" ∧ lf ∉ ascii " " ∧
      lf ∉ ascii "\" " ∧ lf ∉ ascii " \"-\" \"" ∧ lf ∉ ascii "\" req_id=" ∧
      lf ∉ ascii " upstream=" ∧ lf ∉ ascii " duration=" ∧ lf ∉ ascii ".0ms" := by
    decide +kernel
  rw [logAccessFull, oneLine_iff]
  simp [accessFields, hsep, lf_not_mem_nat, lf_not_mem_int, lf_not_mem_accessTs, IpText.lf_not_mem]

theorem accessText_unbroken {tag : Bytes} (htag : lf ∉ tag) (c : ProxyConn) (req : HttpReq) :
    lf ∉ accessText tag c req ↔ lf ∉ req.method.text ∧ lf ∉ req.path.text := by
  have hsp : lf ≠ sp := by decide
  simp [accessText, htag, hsp, IpText.lf_not_mem]

/-! ## The id that is noted -/

instance (cfg : Option Config) : DecidablePred (Survives cfg) :=
  fun _ => inferInstanceAs (Decidable (_ ∧ _))

/-- The first of the client's headers that the rewriting keeps and whose hash is that of
    `X-Gateway-Req-Id`: the one its value is then taken for. -/
def notedHeader (cfg : Option Config) (h : Headers) : Option Header :=
  (h.entries.filter (fun e => Survives cfg e)).find?
    (fun e => e.hash == hashFnv1a (normalizeLowerStrdup xGatewayReqId))

theorem rewritten_split (data : Bytes) (ip : IpText) (cfg : Option Config) (draw : IdDraw) :
    ∃ added : List Header, (rewritten data ip cfg draw).headers.entries =
      (feed httpReqInit data).1.headers.entries.filter (fun e => Survives cfg e) ++ added ∧
    ∀ e ∈ added, ∃ s ∈ rewriteSets data ip cfg draw, e = newHeader s.1 s.2 := by
  obtain ⟨added, hentries, hadded⟩ := setAll_split (rewriteSets data ip cfg draw)
    (cleanHeaders (feed httpReqInit data).1.headers)
  refine ⟨added, ?_, hadded⟩
  rw [rewritten_entries, hentries, cleanHeaders_entries, List.filter_filter]
  congr 1
  apply List.filter_congr
  intro e _
  rw [Bool.eq_iff_iff, decide_eq_true_eq, ← rewriteSets_unmatched data ip cfg draw]
  simp only [Bool.and_eq_true, List.all_eq_true, Bool.not_eq_true', and_comm]

theorem idSet_lf {data : Bytes} {ip : IpText} {cfg : Option Config} {draw : IdDraw}
    {s : Bytes × Bytes} (hs : s ∈ rewriteSets data ip cfg draw)
    (hhash : (newHeader s.1 s.2).hash = hashFnv1a (normalizeLowerStrdup xGatewayReqId)) :
    lf ∉ s.2 := by
  have hhost : hashFnv1a (normalizeLowerStrdup xForwardedHost) ≠
      hashFnv1a (normalizeLowerStrdup xGatewayReqId) := by
    decide +kernel
  obtain rfl | rfl | ⟨v, _, rfl⟩ | hlater := mem_rewriteSets hs
  · exact ip.lf_not_mem
  · exact ip.lf_not_mem
  · rw [(newHeader xForwardedHost v).hash_eq, newHeader_name] at hhash
    exact absurd hhash hhost
  · exact (laterSets_lf hlater).2

/-- When the id noted has no line feed: exactly when the client's header taken for it, if
    there is one, has none in the part that is noted. -/
theorem reqId_unbroken_iff {c : ProxyConn} (hnew : c.reqId.text = []) (data : Bytes) (ip : IpText)
    (cfg : Option Config) (draw : IdDraw) :
    lf ∉ (c.saveReqId (rewritten data ip cfg draw)).reqId.text ↔
      ∀ e ∈ notedHeader cfg (feed httpReqInit data).1.headers, lf ∉ (cstr e.value).take 15 := by
  obtain ⟨added, hentries, hadded⟩ := rewritten_split data ip cfg draw
  have hfind : headersFind (rewritten data ip cfg draw).headers xGatewayReqId =
      (notedHeader cfg (feed httpReqInit data).1.headers).or (added.find?
        (fun e => e.hash == hashFnv1a (normalizeLowerStrdup xGatewayReqId))) := by
    rw [headersFind, hentries, List.find?_append]
    rfl
  unfold ProxyConn.saveReqId headersGet
  rw [hfind]
  cases notedHeader cfg (feed httpReqInit data).1.headers with
  | some e => simp [CharArray.snprintf]
  | none =>
    refine iff_of_true ?_ (fun e he => by cases he)
    rw [Option.none_or]
    cases hset : added.find? (fun e => e.hash == hashFnv1a (normalizeLowerStrdup xGatewayReqId)) with
    | none =>
      show lf ∉ c.reqId.text
      rw [hnew]
      exact List.not_mem_nil
    | some e =>
      obtain ⟨s, hs, rfl⟩ := hadded e (List.mem_of_find?_eq_some hset)
      have hhash := List.find?_some hset
      have hvalue : ((cstr (newHeader s.1 s.2).value).take 15).Sublist s.2 := by
        rw [newHeader_value, cstr_cstr]
        exact (List.take_sublist _ _).trans (cstr_isPrefix s.2).sublist
      exact fun h => idSet_lf hs (eq_of_beq hhash) (hvalue.subset h)

/-! ## Connections without an id -/

/-- A slot that is free, or whose request is being read, has no id noted. -/
structure SlotFresh (c : ProxyConn) : Prop where
  upstream : c.isFree = true → c.upstreamFd ≤ 0
  noId : c.isFree = true ∨ c.state = .readingReq → c.reqId.text = []

theorem slotFresh_proxyFree (c : ProxyConn) : SlotFresh (proxyFree c) :=
  ⟨fun _ => (by decide : (-1 : Int) ≤ 0), fun _ => rfl⟩

theorem slotFresh_onTheWay {c : ProxyConn} (hopen : c.isFree = false) (hstate : c.state ≠ .readingReq) :
    SlotFresh c := by
  refine ⟨fun hfree => ?_, fun hnew => ?_⟩
  · exact absurd (hopen.symm.trans hfree) Bool.false_ne_true
  · obtain hfree | hreading := hnew
    · exact absurd (hopen.symm.trans hfree) Bool.false_ne_true
    · exact absurd hreading hstate

/-- What a handler leaves of its slot: it is freed, or it keeps its client, and then it is as it
    was or the request has been read. -/
theorem handleConn_leaves (w : Worker) (c : ProxyConn) (ev : UInt32) (k : EventCalls) :
    (∃ c', (handleConn w c ev k).conn = proxyFree c') ∨
    ((handleConn w c ev k).conn.fd = c.fd ∧
      ((handleConn w c ev k).conn = c ∨ (handleConn w c ev k).conn.state ≠ .readingReq)) := by
  unfold handleConn
  split
  · obtain ⟨c', _, _, he⟩ | ⟨bytes, hfits, _, hrouted⟩ := handleClientRead_ends w c k.clientRead
    · rw [he]
      exact .inl ⟨c', rfl⟩
    generalize handleClientRead w c k.clientRead = handled at hrouted ⊢
    cases hrouted with
    | blocked => exact .inl ⟨_, rfl⟩
    | limited => exact .inl ⟨_, rfl⟩
    | static => exact .inl ⟨_, rfl⟩
    | dropped => exact .inl ⟨_, rfl⟩
    | forwarded _ _ hconn =>
      refine .inr ⟨hconn.fd, .inr ?_⟩
      rw [hconn.state]
      decide
  · unfold handleUpstreamWritable
    dsimp only
    split
    · exact .inr ⟨rfl, .inl rfl⟩
    split
    · exact .inl ⟨c, rfl⟩
    split
    · exact .inr ⟨rfl, .inr (by simp)⟩
    · exact .inr ⟨rfl, .inl rfl⟩
  · unfold handleUpstreamReadable
    dsimp only
    split
    · exact .inr ⟨rfl, .inl rfl⟩
    split
    · exact .inl ⟨_, rfl⟩
    · exact .inl ⟨_, rfl⟩
    · exact .inr ⟨rfl, .inl rfl⟩
    · exact .inl ⟨_, rfl⟩
  · exact .inr ⟨rfl, .inl rfl⟩

theorem isFree_of_fd {c c' : ProxyConn} (hfd : c'.fd = c.fd) (hopen : c.isFree = false) :
    c'.isFree = false := by
  rw [ProxyConn.isFree, hfd]
  exact hopen

/-- A handler keeps what is said of its slot. -/
theorem handleConn_fresh (w : Worker) {c : ProxyConn} (hc : SlotFresh c) (hopen : c.isFree = false)
    (ev : UInt32) (k : EventCalls) : SlotFresh (handleConn w c ev k).conn := by
  obtain ⟨c', hfreed⟩ | ⟨hfd, hsame | hstate⟩ := handleConn_leaves w c ev k
  · rw [hfreed]
    exact slotFresh_proxyFree c'
  · rwa [hsame]
  · exact slotFresh_onTheWay (isFree_of_fd hfd hopen) hstate

theorem opened_fresh {c : ProxyConn} (k : AcceptCalls) (hfree : c.isFree = true) (hc : SlotFresh c) :
    SlotFresh (.opened k { c with fd := k.accepted, state := .idle, upstreamFd := -1 }) :=
  ⟨fun _ => (by decide : (-1 : Int) ≤ 0), fun _ => hc.noId (.inl hfree)⟩

theorem open_of_records {c : ProxyConn} {fd : Int} (hpos : 0 < fd) (hrecords : c.records fd = true)
    (hc : c.isFree = true → c.upstreamFd ≤ 0) : c.isFree = false := by
  rw [Bool.eq_false_iff]
  intro hfree
  have hupstream := hc hfree
  have hzero : c.fd = 0 := eq_of_beq hfree
  simp only [ProxyConn.records, Bool.or_eq_true, beq_iff_eq] at hrecords
  omega

/-- The events are on descriptors that epoll knows: positive ones. -/
def WorkerStep.OnPositive : WorkerStep → Prop
  | .event e => 0 < e.fd
  | .health _ _ => True

/-- What holds of every slot in a run: what a connection that is let in has of its free slot,
    and what a handler keeps of a slot that a positive number is found in. -/
theorem slots_keep {P : ProxyConn → Prop}
    (hopened : ∀ {c} (k : AcceptCalls), c.isFree = true → P c →
      P (.opened k { c with fd := k.accepted, state := .idle, upstreamFd := -1 }))
    (hhandled : ∀ {c fd} (w : Worker) (ev : UInt32) (k : EventCalls), 0 < fd →
      c.records fd = true → P c → P (handleConn w c ev k).conn) (steps : List WorkerStep) :
    ∀ {l : EventLoop}, (∀ c ∈ l.pool.slots, P c) → (∀ a ∈ steps, a.OnPositive) →
      ∀ c ∈ (steps.foldl EventLoop.step l).pool.slots, P c := by
  induction steps with
  | nil => exact fun hl _ => hl
  | cons a steps ih =>
    intro l hl hsteps
    apply ih
    · cases a with
      | event e =>
        have hpos : 0 < e.fd := hsteps (.event e) List.mem_cons_self
        intro c' hc'
        have hafter := onEvent_slots l e
        change c' ∈ (onEvent l e).1.pool.slots at hc'
        generalize (onEvent l e).1.pool.slots = slots at hc' hafter
        cases hafter with
        | unchanged => exact hl c' hc'
        | opened i c hlisten hslot hget hfree =>
          obtain hold | rfl := List.mem_or_eq_of_mem_set hc'
          · exact hl c' hold
          · exact hopened e.calls.accept hfree (hl c (List.mem_of_getElem? hget))
        | handled i c hother hslot hget hrecords =>
          obtain hold | rfl := List.mem_or_eq_of_mem_set hc'
          · exact hl c' hold
          · exact hhandled l.worker e.ev e.calls hpos hrecords (hl c (List.mem_of_getElem? hget))
      | health node healthy => exact hl
    · exact fun b hb => hsteps b (List.mem_cons_of_mem a hb)

theorem started_slots {P : ProxyConn → Prop} {l : EventLoop} (hl : l.Started) (hzero : P .zero) :
    ∀ c ∈ l.pool.slots, P c := by
  intro c hc
  rw [hl.pool] at hc
  rw [List.eq_of_mem_replicate hc]
  exact hzero

/-- A connection that is reading its request has no id noted, whatever the loop has done
    since it was entered. -/
theorem reading_without_id (steps : List WorkerStep) : ∀ {l : EventLoop}, l.Started →
    (∀ a ∈ steps, a.OnPositive) → ∀ c ∈ (steps.foldl EventLoop.step l).pool.slots,
    c.state = .readingReq → c.reqId.text = [] := by
  intro l hl hsteps c hc hreading
  have hzero : SlotFresh .zero := ⟨fun _ => by decide, fun _ => rfl⟩
  have hfresh := slots_keep opened_fresh (fun w ev k hpos hrecords hc =>
    handleConn_fresh w hc (open_of_records hpos hrecords hc.upstream) ev k) steps
    (started_slots hl hzero) hsteps c hc
  exact hfresh.noId (.inr hreading)

/-! ## What is written for a request -/

theorem Closes.written_nil {fd : Int} {actions : List Action} (h : Closes fd actions) (t : Tm) :
    accessWritten t actions = [] := by
  apply List.flatMap_eq_nil_iff.mpr
  intro a ha
  cases h.closing a ha <;> rfl

/-- What is written when the upstream's part ends. -/
def endRecord (t : Tm) (c : ProxyConn) : Option UpstreamEnd → Bytes
  | some (.answered bytes _ hfits nowMs) =>
    logAccessFull t ((c.receiveResponse bytes hfits).accessFull nowMs)
  | _ => []

theorem Ended.written {c : ProxyConn} {o : Option UpstreamEnd} {actions : List Action}
    (h : Ended c o actions) (t : Tm) : accessWritten t actions = endRecord t c o := by
  have hnone {quiet : List Action} (hquiet : ∀ a ∈ quiet, OnUpstream c.upstreamFd a) :
      accessWritten t quiet = [] := by
    apply List.flatMap_eq_nil_iff.mpr
    intro a ha
    cases hquiet a ha <;> rfl
  cases h with
  | pending hquiet => exact hnone hquiet
  | answered hquiet hcloses =>
    rw [accessWritten_append, hnone hquiet, accessWritten_cons, accessWritten_cons,
      hcloses.written_nil t, List.append_nil]
    rfl
  | failed hquiet hcloses =>
    rw [accessWritten_append, hnone hquiet, hcloses.written_nil t]
    rfl

theorem directRecord_oneLine {tag : Bytes} {a : Action} {fd : Int} {closing : List Action}
    (htag : lf ∉ tag) (t : Tm) (ha : accessLine t a = []) (hcloses : Closes fd closing)
    (c : ProxyConn) (req : HttpReq) :
    OneLine (accessWritten t (a :: .logAccess (accessText tag c req) :: closing)) ↔
      lf ∉ req.method.text ∧ lf ∉ req.path.text := by
  rw [accessWritten_cons, accessWritten_cons, hcloses.written_nil t, ha, List.append_nil,
    List.nil_append, ← accessText_unbroken htag c req]
  exact logAccess_oneLine t (accessText tag c req)

/-- The request is handled to its end: refused, served from files, or answered by its upstream. -/
def Recorded (w : Worker) (c : ProxyConn) (req : HttpReq) (k : ClientReadCalls)
    (es : List ConnEvent) : Prop :=
  ¬ Dynamic w c req k ∨ (Forwarded w c req k ∧
    ∃ bytes hne hfits nowMs, connectingEnd es = some (.answered bytes hne hfits nowMs))

theorem snprintf_text {cap : Nat} (h : 0 < cap) (a : CharArray cap) :
    (CharArray.snprintf h a.text).text = a.text := by
  have hfits := a.fits
  show (cstr a.text).take (cap - 1) = a.text
  rw [cstr_of_nulFree a.nulFree, List.take_of_length_le (by omega)]

/-- The record of an answered request is one line when its method and path have no line
    feed, and neither has the header taken for its id. -/
theorem endRecord_oneLine {w : Worker} {c c' : ProxyConn} {data : Bytes} {k : ClientReadCalls}
    (hdone : (feed httpReqInit data).1.state = .done) (hnew : c.reqId.text = [])
    (hconn : OnItsWay w c (feed httpReqInit data).1 k c') (t : Tm) (o : Option UpstreamEnd) :
    OneLine (endRecord t c' o) ↔
      (∃ bytes hne hfits nowMs, o = some (.answered bytes hne hfits nowMs)) ∧
      lf ∉ (feed httpReqInit data).1.method.text ∧ lf ∉ (feed httpReqInit data).1.path.text ∧
      ∀ e ∈ notedHeader (some w.cfg) (feed httpReqInit data).1.headers,
        lf ∉ (cstr e.value).take 15 := by
  cases o with
  | none => exact iff_of_false not_oneLine_nil (by simp)
  | some end' =>
    cases end' with
    | failed => exact iff_of_false not_oneLine_nil (by simp)
    | answered bytes hne hfits nowMs =>
      have hversion : lf ∉ (feed httpReqInit data).1.version.text := by
        obtain h | h := (feed_done_line hdone).2.2.2 <;> rw [h] <;> decide +kernel
      have hfixed : lf ∉ cstr (ascii "-") ∧ lf ∉ cstr (ascii "127.0.0.1:19998") := by decide +kernel
      have hid : lf ∉ c'.reqId.text ↔
          ∀ e ∈ notedHeader (some w.cfg) (feed httpReqInit data).1.headers,
            lf ∉ (cstr e.value).take 15 := by
        rw [hconn.reqId]
        exact reqId_unbroken_iff hnew data c.clientIp (some w.cfg) k.draw
      have hrecord : OneLine (endRecord t c' (some (.answered bytes hne hfits nowMs))) ↔ _ :=
        logAccessFull_oneLine t ((c'.receiveResponse bytes hfits).accessFull nowMs)
      rw [hrecord, ← hid]
      dsimp only [ProxyConn.accessFull, ProxyConn.receiveResponse]
      rw [hconn.method, hconn.path, hconn.version, snprintf_text, snprintf_text, snprintf_text]
      simp [hversion, hfixed, hne, hfits]

/-- **When a request's record is one line.** For every connection that is reading its request,
    as it was accepted, every read that makes a whole request, every worker and result of
    the calls, every events after it and every time: exactly when the request is
    handled to its end, its method and path have no line feed, and, if it is proxied, neither
    has what is noted of a client's header that is taken for `X-Gateway-Req-Id`. -/
theorem access_line_iff {c : ProxyConn} (hfd : 0 < c.fd) (hstate : c.state = .readingReq)
    (hnew : c.reqId.text = []) {e : ConnEvent} {bytes : Bytes} (hread : e.ReadsData bytes)
    (hdone : (feed httpReqInit bytes).1.state = .done) (es : List ConnEvent) (t : Tm) :
    OneLine (accessWritten t (runActions c (e :: es))) ↔
      Recorded e.worker c (feed httpReqInit bytes).1 e.calls.clientRead es ∧
      lf ∉ (feed httpReqInit bytes).1.method.text ∧ lf ∉ (feed httpReqInit bytes).1.path.text ∧
      (Dynamic e.worker c (feed httpReqInit bytes).1 e.calls.clientRead →
        ∀ h ∈ notedHeader (some e.worker.cfg) (feed httpReqInit bytes).1.headers,
          lf ∉ (cstr h.value).take 15) := by
  have hrun := requestRun hfd hstate hread hdone es
  generalize runActions c (e :: es) = actions at hrun ⊢
  cases hrun with
  | @refused reply tag closing hrefused hreply hcloses =>
    have htag : lf ∉ tag := by
      simp only [List.mem_cons, Prod.mk.injEq, List.not_mem_nil, or_false] at hreply
      obtain ⟨_, rfl⟩ | ⟨_, rfl⟩ := hreply <;> decide +kernel
    have hno : ¬ Dynamic e.worker c (feed httpReqInit bytes).1 e.calls.clientRead := by
      intro hdynamic
      obtain hlisted | hlimited := hrefused
      · exact Bool.false_ne_true (hdynamic.unlisted.symm.trans hlisted)
      · exact Bool.false_ne_true (hlimited.symm.trans hdynamic.admitted)
    rw [directRecord_oneLine htag t rfl hcloses]
    simp [Recorded, hno]
  | static hunlisted hadmitted hstatic hcloses =>
    have htag : lf ∉ ascii "STATIC" := by decide +kernel
    have hno : ¬ Dynamic e.worker c (feed httpReqInit bytes).1 e.calls.clientRead :=
      fun hdynamic => Bool.false_ne_true (hdynamic.dynamic.symm.trans hstatic)
    rw [directRecord_oneLine htag t rfl hcloses]
    simp [Recorded, hno]
  | @dropped before closing hdynamic hstopped hbefore hcloses =>
    have hnone : accessWritten t before = [] := by
      obtain rfl | ⟨host, port, rfl⟩ := hbefore <;> rfl
    rw [accessWritten_append, hnone, hcloses.written_nil t]
    exact iff_of_false not_oneLine_nil (by simp [Recorded, hdynamic, hstopped])
  | @forwarded c' host port rest hforwarded hconn hended =>
    have hwritten : accessWritten t (.connectUpstream host port ::
        .epollAdd e.calls.clientRead.upstreamFd (epollOut ||| epollIn) ::
        .epollMod c.fd epollIn :: rest) = endRecord t c' (connectingEnd es) := hended.written t
    rw [hwritten, endRecord_oneLine hdone hnew hconn t]
    simp [Recorded, hforwarded.isDynamic, hforwarded]

def sampleTm : Tm := ⟨2026, 6, 6, 22, 20, 39, 480⟩

theorem access_line_iff_sample :
    OneLine (accessWritten sampleTm (runActions sampleConn (plainEvent :: upstreamEvents))) ↔
      Recorded sampleWorker sampleConn (feed httpReqInit plainRequest).1
        (sampleRead plainRequest plainRequest_fits) upstreamEvents ∧
      lf ∉ (feed httpReqInit plainRequest).1.method.text ∧
      lf ∉ (feed httpReqInit plainRequest).1.path.text ∧
      (Dynamic sampleWorker sampleConn (feed httpReqInit plainRequest).1
          (sampleRead plainRequest plainRequest_fits) →
        ∀ h ∈ notedHeader (some sampleWorker.cfg) (feed httpReqInit plainRequest).1.headers,
          lf ∉ (cstr h.value).take 15) :=
  access_line_iff (c := sampleConn) (by decide) rfl rfl plainEvent_reads plainRequest_done
    upstreamEvents sampleTm

/-- A path with a line feed, and what looks like a record behind it. -/
def forgingEvent : ConnEvent :=
  clientEvent (ascii "GET /static/a\n[2026-07-06]BLOCKED:10.9.9.9 HTTP/1.1\r\n\r\n") (by decide +kernel)

/-- The client writes a second line. -/
theorem record_forged :
    (feed httpReqInit (ascii "GET /static/a\n[2026-07-06]BLOCKED:10.9.9.9 HTTP/1.1\r\n\r\n")).1.state =
      .done ∧
    accessWritten sampleTm (runActions sampleConn [forgingEvent]) =
      ascii "[2026-07-06 22:20:39] STATIC 10.0.0.7 GET /static/a\n[2026-07-06]BLOCKED:10.9.9.9\n" ∧
    ¬ OneLine (accessWritten sampleTm (runActions sampleConn [forgingEvent])) := by
  have hwritten : accessWritten sampleTm (runActions sampleConn [forgingEvent]) =
      ascii "[2026-07-06 22:20:39] STATIC 10.0.0.7 GET /static/a\n[2026-07-06]BLOCKED:10.9.9.9" ++
        [lf] := by
    decide +kernel
  rw [hwritten, oneLine_iff]
  decide +kernel

end NexusGateway
