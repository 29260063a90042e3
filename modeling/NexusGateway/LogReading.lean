import NexusGateway.Conversations
import NexusGateway.StaticResponses

/- What access.log says to whoever reads it.

   The log is read line by line, and a line by its words. A line of six words says who asked for
   what and how he was turned away or served a file; a longer one says how much his upstream has
   sent. For every run of a worker, as long as each record is one line, reading the log gives
   back one entry for each record, in order, and each tells of a conversation of the run: of
   the client who was let in, of the method and the path of the request that was read, and of
   the answer he was given, for a relayed one the number of bytes that were read of the
   upstream and handed to write (`access_log_read_back`). As in `Conversations`, a handler's
   calls are one step. -/
namespace NexusGateway
open CString Lines Runs Sessions

/-! ## Reading -/

/-- What a line of access.log says: a request that the worker has answered itself, or one that was
    answered by its upstream. -/
inductive LogEntry where
  | direct (stamp tag ip method path : Bytes)
  | relayed (stamp ip : Bytes) (port : Nat) (method path version : Bytes) (status bytes : Nat)
  deriving DecidableEq, Repr

/-- What a line says, without its end. -/
def readEntry (line : Bytes) : Option LogEntry :=
  match line.splitOn sp with
  | [day, clock, tag, ip, method, path] => some (.direct (day ++ sp :: clock) tag ip method path)
  | addr :: _ :: _ :: day :: zone :: method :: path :: version :: status :: bytes :: _ =>
    match addr.splitOn colon with
    | [ip, port] =>
      some (.relayed (day ++ sp :: zone) ip (digitsValue port) (method.drop 1) path version.dropLast
        (digitsValue status) (digitsValue bytes))
    | _ => none
  | _ => none

def readLog (text : Bytes) : List (Option LogEntry) :=
  (endedLines lf text).map fun line => readEntry line.dropLast

/-- A record as it is written at a time. -/
def recordText (t : Tm) : Mark → Bytes
  | .recorded text => logAccess t text
  | .recordedFull record => logAccessFull t record
  | _ => []

/-- The word that an answer of the worker itself is recorded under. -/
inductive TagOf (line : RequestLine) : Mark → Bytes → Prop
  | forbidden : TagOf line (.answered forbiddenResponse) (ascii "BLOCKED")
  | tooMany : TagOf line (.answered tooManyResponse) (ascii "RATE_LIMITED")
  | file (root : Bytes) : TagOf line (.served root (line.path.text.drop 7)) (ascii "STATIC")

/-- The entry tells of the conversation whose record was written at the time: of its client, of
    its request and of its answer. -/
inductive TellsOf (t : Tm) : List Mark → Mark → LogEntry → Prop
  | direct {peer : Peer} {line : RequestLine} {answer : Mark} {tag : Bytes}
      (htag : TagOf line answer tag) :
      TellsOf t [.letIn peer, .asked line, answer, .recorded (requestRecord tag peer line), .closed]
        (.recorded (requestRecord tag peer line))
        (.direct (ascii "[" ++ formatTs t ++ ascii "]") tag peer.ip.text line.method.text line.path.text)
  | relayed {peer : Peer} {line : RequestLine} {bytes : Bytes} {record : AccessFull} :
      TellsOf t [.letIn peer, .asked line, .replied bytes, .answered bytes, .recordedFull record,
          .closed] (.recordedFull record)
        (.relayed (accessTs t) peer.ip.text peer.port.toNat line.method.text line.path.text
          line.version.text 200 bytes.length)

/-! ## Words -/

theorem digits_not_mem {b : Bytes} (h : ∀ c ∈ b, isDigit c = true) {c : UInt8}
    (hc : isDigit c = false) : c ∉ b := fun hmem => Bool.false_ne_true (hc.symm.trans (h c hmem))

theorem sp_not_mem_nat (n : Nat) : sp ∉ ascii n.repr := digits_not_mem (repr_numeral n).1.2 (by decide)

theorem colon_not_mem_nat (n : Nat) : colon ∉ ascii n.repr :=
  digits_not_mem (repr_numeral n).1.2 (by decide)

theorem sp_not_mem_twoDigits (n : Nat) : sp ∉ twoDigits n := by
  have hdigit : ∀ d < 10, sp ≠ 48 + d.toUInt8 := by decide
  intro h
  obtain h | h := List.mem_cons.mp h
  · exact hdigit _ (Nat.mod_lt _ (by decide)) h
  · exact hdigit _ (Nat.mod_lt _ (by decide)) (List.mem_singleton.mp h)

theorem IpText.word (ip : IpText) : sp ∉ ip.text ∧ colon ∉ ip.text := by
  constructor <;>
  · intro h
    rcases ip.chars _ h with h | h
    · revert h
      decide
    · revert h
      decide

theorem formatTs_words (t : Tm) : ∃ day clock, sp ∉ day ∧ sp ∉ clock ∧
    ascii "[" ++ formatTs t ++ ascii "]" = day ++ sp :: clock := by
  have hsep : sp ∉ ascii "[" ∧ sp ∉ ascii "-" ∧ sp ∉ ascii ":" ∧ sp ∉ ascii "]" ∧
      ascii " " = [sp] := by
    decide +kernel
  refine ⟨[ascii "[", ascii (toString t.year), ascii "-", twoDigits (t.mon + 1), ascii "-",
    twoDigits t.mday].flatten, [twoDigits t.hour, ascii ":", twoDigits t.min, ascii ":",
    twoDigits t.sec, ascii "]"].flatten, ?_, ?_, ?_⟩
  · simp [hsep, sp_not_mem_nat, sp_not_mem_twoDigits]
  · simp [hsep, sp_not_mem_twoDigits]
  · simp [formatTs, hsep]

theorem accessTs_words (t : Tm) : ∃ day zone, sp ∉ day ∧ sp ∉ zone ∧
    accessTs t = day ++ sp :: zone := by
  have hsep : sp ∉ ascii "[" ∧ sp ∉ ascii "/" ∧ sp ∉ ascii ":" ∧ sp ∉ ascii "]" ∧
      sp ∉ ascii "-" ∧ sp ∉ ascii "+" ∧ ascii " " = [sp] := by
    decide +kernel
  have hmonth : ∀ mon, sp ∉ monthName mon := by decide +kernel
  have hzone : sp ∉ zoneText t.gmtoff := by
    unfold zoneText
    split <;> simp [hsep, sp_not_mem_twoDigits]
  refine ⟨[ascii "[", twoDigits t.mday, ascii "/", monthName t.mon, ascii "/",
    ascii (toString t.year), ascii ":", twoDigits t.hour, ascii ":", twoDigits t.min, ascii ":",
    twoDigits t.sec].flatten, zoneText t.gmtoff ++ ascii "]", ?_, ?_, ?_⟩
  · simp [hsep, hmonth, sp_not_mem_nat, sp_not_mem_twoDigits]
  · simp [hsep, hzone]
  · simp [accessTs, hsep]

/-- What is noted of a request has the words that a request line has. -/
structure RequestLine.Parsed (line : RequestLine) : Prop where
  method : sp ∉ line.method.text
  path : sp ∉ line.path.text
  version : IsVersion line.version.text

theorem TagOf.word {line : RequestLine} {answer : Mark} {tag : Bytes} (h : TagOf line answer tag) :
    sp ∉ tag := by
  cases h <;> decide +kernel

/-- A short record is read back. -/
theorem readEntry_direct (t : Tm) {tag : Bytes} (htag : sp ∉ tag) (peer : Peer)
    {line : RequestLine} (hline : line.Parsed) :
    readEntry (logAccess t (requestRecord tag peer line)).dropLast =
      some (.direct (ascii "[" ++ formatTs t ++ ascii "]") tag peer.ip.text line.method.text
        line.path.text) := by
  have hclose : ascii "] " = ascii "]" ++ [sp] := by decide +kernel
  obtain ⟨day, clock, hday, hclock, hstamp⟩ := formatTs_words t
  have htext : (logAccess t (requestRecord tag peer line)).dropLast = day ++ sp :: (clock ++ sp ::
      (tag ++ sp :: (peer.ip.text ++ sp :: (line.method.text ++ sp :: line.path.text)))) := by
    calc (logAccess t (requestRecord tag peer line)).dropLast
        = (ascii "[" ++ formatTs t ++ ascii "]") ++ sp :: requestRecord tag peer line := by
          rw [logAccess, List.dropLast_concat]
          simp [hclose]
      _ = _ := by simp [hstamp, requestRecord]
  unfold readEntry
  rw [htext, List.splitOn_append_cons_self_of_not_mem hday,
    List.splitOn_append_cons_self_of_not_mem hclock, List.splitOn_append_cons_self_of_not_mem htag,
    List.splitOn_append_cons_self_of_not_mem peer.ip.word.1,
    List.splitOn_append_cons_self_of_not_mem hline.method, List.splitOn_eq_singleton hline.path,
    hstamp]

/-- A full record is read back. -/
theorem readEntry_relayed (t : Tm) {record : AccessFull} (hstatus : record.statusCode = 200)
    {line : RequestLine} (hparsed : line.Parsed)
    (hline : (⟨record.method, record.path, record.version⟩ : RequestLine) = line) :
    readEntry (logAccessFull t record).dropLast =
      some (.relayed (accessTs t) record.clientIp.text record.clientPort.toNat record.method.text
        record.path.text record.version.text 200 record.bytesSent) := by
  subst hline
  have htexts : ascii ":" = [colon] ∧ ascii " - - " = sp :: (ascii "-" ++ sp :: (ascii "-" ++ [sp])) ∧
      ascii " \"" = sp :: ascii "\"" ∧ ascii " " = [sp] ∧ ascii "\" " = ascii "\"" ++ [sp] ∧
      ascii " \"-\" \"" = sp :: ascii "\"-\" \"" := by
    decide +kernel
  have hwords : sp ∉ ascii "-" ∧ sp ∉ ascii "\"" ∧ sp ∉ ascii "200" ∧ sp ∉ [colon] ∧
      digitsValue (ascii "200") = 200 ∧ sp ≠ colon := by
    decide +kernel
  have hquote : ascii "\"" = [34] := by decide +kernel
  have hcode : ascii (toString record.statusCode) = ascii "200" := by
    rw [hstatus]
    decide +kernel
  obtain ⟨day, zone, hday, hzone, hstamp⟩ := accessTs_words t
  generalize hport : ascii (toString record.clientPort.toNat) = port
  generalize hbytes : ascii (toString record.bytesSent) = bytes
  have hportWord : sp ∉ port ∧ colon ∉ port ∧ digitsValue port = record.clientPort.toNat := by
    rw [← hport]
    exact ⟨sp_not_mem_nat _, colon_not_mem_nat _, (repr_numeral _).2⟩
  have hbytesWord : sp ∉ bytes ∧ digitsValue bytes = record.bytesSent := by
    rw [← hbytes]
    exact ⟨sp_not_mem_nat _, (repr_numeral _).2⟩
  have hversion : sp ∉ record.version.text := by
    obtain h | h := hparsed.version <;> rw [h] <;> decide +kernel
  obtain ⟨rest, htext⟩ : ∃ rest, (logAccessFull t record).dropLast =
      (record.clientIp.text ++ colon :: port) ++ sp :: (ascii "-" ++ sp :: (ascii "-" ++ sp ::
        (day ++ sp :: (zone ++ sp :: ((ascii "\"" ++ record.method.text) ++ sp ::
          (record.path.text ++ sp :: ((record.version.text ++ ascii "\"") ++ sp ::
            (ascii "200" ++ sp :: (bytes ++ sp :: rest))))))))) := by
    rw [logAccessFull, List.dropLast_concat]
    refine ⟨ascii "\"-\" \"" ++ ((accessFields t record).drop 16).flatten, ?_⟩
    simp only [accessFields, List.drop_succ_cons, List.drop_zero, hport, hbytes, hcode, hstamp, htexts,
      List.flatten_cons, List.append_assoc, List.cons_append, List.nil_append]
  have haddr : sp ∉ record.clientIp.text ++ colon :: port := by
    simp [record.clientIp.word, hportWord.1, hwords]
  unfold readEntry
  rw [htext, List.splitOn_append_cons_self_of_not_mem haddr,
    List.splitOn_append_cons_self_of_not_mem hwords.1,
    List.splitOn_append_cons_self_of_not_mem hwords.1, List.splitOn_append_cons_self_of_not_mem hday,
    List.splitOn_append_cons_self_of_not_mem hzone,
    List.splitOn_append_cons_self_of_not_mem (a := sp)
      (by rw [List.mem_append, not_or]; exact ⟨hwords.2.1, hparsed.method⟩),
    List.splitOn_append_cons_self_of_not_mem hparsed.path,
    List.splitOn_append_cons_self_of_not_mem (a := sp)
      (by rw [List.mem_append, not_or]; exact ⟨hversion, hwords.2.1⟩),
    List.splitOn_append_cons_self_of_not_mem hwords.2.2.1,
    List.splitOn_append_cons_self_of_not_mem hbytesWord.1]
  dsimp only
  rw [List.splitOn_append_cons_self_of_not_mem record.clientIp.word.2,
    List.splitOn_eq_singleton hportWord.2.1]
  simp [hquote, hstamp, hwords, hportWord, hbytesWord]

/-! ## The records of a run -/

/-- What a step writes to access.log. -/
def LoopWorld.records (s : LoopWorld) : WorkerStep → List Mark
  | .event e => (onEvent s.loop e).2.filterMap Action.record
  | .health _ _ => []

/-- What a run writes to access.log, in order. -/
def recordsOf (s₀ : LoopWorld) (steps : List WorkerStep) : List Mark :=
  outputs LoopWorld.step LoopWorld.records s₀ steps

def Mark.isRecord : Mark → Bool
  | .recorded _ | .recordedFull _ => true
  | _ => false

theorem direct_told (t : Tm) {peer : Peer} {line : RequestLine} {answer m : Mark} {tag : Bytes}
    (htag : TagOf line answer tag) (hparsed : line.Parsed)
    (hm : m ∈ [.letIn peer, .asked line, answer, .recorded (requestRecord tag peer line), .closed])
    (hrecord : m.isRecord = true) : ∃ entry, readEntry (recordText t m).dropLast = some entry ∧
      TellsOf t [.letIn peer, .asked line, answer, .recorded (requestRecord tag peer line), .closed] m
        entry := by
  have honly : m = .recorded (requestRecord tag peer line) := by
    simp only [List.mem_cons, List.not_mem_nil, or_false] at hm
    obtain rfl | rfl | rfl | rfl | rfl := hm
    · cases hrecord
    · cases hrecord
    · cases htag <;> cases hrecord
    · rfl
    · cases hrecord
  subst honly
  exact ⟨_, readEntry_direct t htag.word peer hparsed, .direct htag⟩

theorem Conversation.told {session : List Mark} (h : Conversation session)
    (hparsed : ∀ line, .asked line ∈ session → line.Parsed) (t : Tm) {m : Mark} (hm : m ∈ session)
    (hrecord : m.isRecord = true) : ∃ entry, readEntry (recordText t m).dropLast = some entry ∧
      TellsOf t session m entry := by
  cases h with
  | unread peer =>
    simp only [List.mem_cons, List.not_mem_nil, or_false] at hm
    obtain rfl | rfl := hm <;> cases hrecord
  | unanswered peer line =>
    simp only [List.mem_cons, List.not_mem_nil, or_false] at hm
    obtain rfl | rfl | rfl := hm <;> cases hrecord
  | forbidden peer line => exact direct_told t .forbidden (hparsed line (by simp)) hm hrecord
  | tooMany peer line => exact direct_told t .tooMany (hparsed line (by simp)) hm hrecord
  | file peer line root => exact direct_told t (.file root) (hparsed line (by simp)) hm hrecord
  | @relayed peer line bytes hne record htells =>
    have honly : m = .recordedFull record := by
      simp only [List.mem_cons, List.not_mem_nil, or_false] at hm
      obtain rfl | rfl | rfl | rfl | rfl | rfl := hm
      all_goals first | rfl | cases hrecord
    subst honly
    have hread := readEntry_relayed t htells.statusCode (hparsed line (by simp)) htells.line
    obtain rfl := htells.line
    rw [htells.clientIp, htells.clientPort, htells.bytesSent] at hread
    exact ⟨_, hread, .relayed⟩

theorem begun_no_record {c : ProxyConn} {m : Mark} (hm : m ∈ c.begun) : m.isRecord = false := by
  unfold ProxyConn.begun at hm
  split at hm <;> simp only [List.mem_cons, List.not_mem_nil, or_false] at hm
  · rw [hm]
    rfl
  · obtain rfl | rfl := hm <;> rfl

theorem asked_parsed {l : EventLoop} {i : Nat} {e : Event} {line : RequestLine}
    (h : .asked line ∈ l.marks i e) : line.Parsed := by
  have hnever (c : ProxyConn) (a : Action) : a.mark c ≠ some (.asked line) := by
    intro hmark
    cases a <;> simp [Action.mark, Action.record] at hmark
  unfold EventLoop.marks at h
  split at h
  · split at h
    · simp at h
    split at h
    · cases h
    · rw [List.append_assoc] at h
      rcases List.mem_append.mp h with hasks | hrest
      · unfold Event.asks at hasks
        split at hasks
        · rename_i hwhole
          simp only [List.mem_singleton, Mark.asked.injEq] at hasks
          subst hasks
          obtain ⟨_, hmethod, hpath, hversion⟩ := feed_done_line hwhole.2
          exact ⟨hmethod, hpath, hversion⟩
        · cases hasks
      rcases List.mem_append.mp hrest with hreplies | hmark
      · unfold Event.replies at hreplies
        split at hreplies <;> simp at hreplies
      · obtain ⟨a, _, ha⟩ := List.mem_filterMap.mp hmark
        exact absurd ha (hnever _ a)
  · cases h

/-- The conversation is one of the run, with the clients of this slot. -/
structure HeldIn (s₀ : LoopWorld) (steps : List WorkerStep) (i : Nat) (session : List Mark) : Prop where
  whole : Conversation session
  here : session <:+: outputs LoopWorld.step (LoopWorld.marks i) s₀ steps

theorem HeldIn.parsed {s₀ : LoopWorld} {steps : List WorkerStep} {i : Nat} {session : List Mark}
    (h : HeldIn s₀ steps i session) {line : RequestLine} (hasked : .asked line ∈ session) :
    line.Parsed := by
  obtain ⟨_, a, s, _, _, _, _, hgiven⟩ := mem_outputs _ (h.here.subset hasked)
  cases a with
  | health node healthy => cases hgiven
  | event e => exact asked_parsed hgiven

/-- Every record of a run is part of a conversation. -/
theorem records_held {s₀ : LoopWorld} (h₀ : s₀.Started) {steps : List WorkerStep} {m : Mark}
    (hm : m ∈ recordsOf s₀ steps) : m.isRecord = true ∧
      ∃ i session, HeldIn s₀ steps i session ∧ m ∈ session := by
  obtain ⟨before, a, s₁, s₂, hprefix, hbefore, hstep, hout⟩ := mem_outputs steps hm
  cases a with
  | health node healthy => cases hout
  | event e =>
    have hrecord : m.isRecord = true := by
      obtain ⟨a, _, ha⟩ := List.mem_filterMap.mp hout
      cases a <;> cases ha <;> rfl
    refine ⟨hrecord, ?_⟩
    obtain ⟨i, hmark⟩ := recorded_for_slot hout
    have hrun : run LoopWorld.step s₀ (before ++ [.event e]) = some s₂ := by
      rw [run_append, hbefore, Option.bind_some, run, hstep]
      rfl
    obtain ⟨sessions, hwhole, htrace⟩ := slot_logged h₀ hrun i
    have hhere : m ∈ outputs LoopWorld.step (LoopWorld.marks i) s₀ (before ++ [.event e]) := by
      rw [outputs_snoc hbefore hstep]
      exact List.mem_append_right _ hmark
    rw [htrace] at hhere
    rcases List.mem_append.mp hhere with hsession | hpresent
    · obtain ⟨session, hsession, hmem⟩ := List.mem_flatten.mp hsession
      have hwithin : session <:+: outputs LoopWorld.step (LoopWorld.marks i) s₀ (before ++ [.event e]) := by
        rw [htrace]
        exact (List.infix_of_mem_flatten hsession).trans (List.infix_append [] _ _)
      exact ⟨i, session, ⟨hwhole session hsession,
        hwithin.trans (outputs_front hprefix s₀).isInfix⟩, hmem⟩
    · cases hguest : s₂.guest i with
      | none =>
        rw [hguest] at hpresent
        cases hpresent
      | some c =>
        rw [hguest] at hpresent
        rw [begun_no_record hpresent] at hrecord
        cases hrecord

theorem readLog_records {written : List (Tm × Mark)}
    (hlines : ∀ w ∈ written, OneLine (recordText w.1 w.2)) :
    readLog (written.flatMap fun w => recordText w.1 w.2) =
      written.map fun w => readEntry (recordText w.1 w.2).dropLast := by
  induction written with
  | nil => rfl
  | cons w written ih =>
    obtain ⟨body, hbody, htext⟩ := hlines w List.mem_cons_self
    have hrest := ih fun v hv => hlines v (List.mem_cons_of_mem w hv)
    rw [readLog] at hrest ⊢
    rw [List.flatMap_cons, List.map_cons, htext, List.append_assoc, List.singleton_append,
      endedLines_line hbody, List.map_cons, hrest]

/-- **The access log is read back.** For every run of a worker, whatever its system calls return,
    and any times at which its records are written: if each record is one line, then reading
    access.log line by line gives one entry for each record, in order, and each tells of a
    conversation of the run with this record in it: of the client who was let in, of the
    request that was read, and of the answer he was given. -/
theorem access_log_read_back {s₀ : LoopWorld} (h₀ : s₀.Started) (steps : List WorkerStep)
    {written : List (Tm × Mark)} (hwritten : written.map Prod.snd = recordsOf s₀ steps)
    (hlines : ∀ w ∈ written, OneLine (recordText w.1 w.2)) :
    List.Forall₂ (fun w read => ∃ entry, read = some entry ∧ ∃ i session, HeldIn s₀ steps i session ∧
        TellsOf w.1 session w.2 entry)
      written (readLog (written.flatMap fun w => recordText w.1 w.2)) := by
  rw [readLog_records hlines, List.forall₂_map_right_iff, List.forall₂_same]
  intro w hw
  have hm : w.2 ∈ recordsOf s₀ steps := hwritten ▸ List.mem_map_of_mem hw
  obtain ⟨hrecord, i, session, hheld, hmem⟩ := records_held h₀ hm
  obtain ⟨entry, hread, htells⟩ := hheld.whole.told (fun _ => hheld.parsed) w.1 hmem hrecord
  exact ⟨entry, hread, i, session, hheld, htells⟩

/-- What the first client's record says. -/
theorem access_log_read_back_twice : ∃ written : List (Tm × Mark),
    written.map Prod.snd = recordsOf sampleWorld twoClients ∧ written.length = 1 ∧
    List.Forall₂ (fun w read => ∃ entry, read = some entry ∧ ∃ i session,
        HeldIn sampleWorld twoClients i session ∧ TellsOf w.1 session w.2 entry)
      written (readLog (written.flatMap fun w => recordText w.1 w.2)) := by
  have hwritten : ((recordsOf sampleWorld twoClients).map fun m => (sampleTm, m)).map Prod.snd =
      recordsOf sampleWorld twoClients := by
    rw [List.map_map]
    exact List.map_id _
  have hlines : ∀ w ∈ (recordsOf sampleWorld twoClients).map fun m => (sampleTm, m),
      lf ∉ (recordText w.1 w.2).dropLast ∧
        recordText w.1 w.2 = (recordText w.1 w.2).dropLast ++ [lf] := by
    decide +kernel
  refine ⟨_, hwritten, by decide +kernel, access_log_read_back sampleWorld_started twoClients hwritten ?_⟩
  exact fun w hw => ⟨_, (hlines w hw).1, (hlines w hw).2⟩

end NexusGateway
