import NexusGateway.GatewayHeaders
import NexusGateway.RequestIdText

/- The request ids that an upstream reads of a forwarded request (`http_rewrite.c`).

   The id drawn is set under `X-Gateway-Req-Id` in front of the custom headers, so the last
   header that is set under this name need not be it; a set finds no place in a full table;
   and a header of the client whose name only looks like this one is printed as well. So
   what is read are the values of these, and behind them that of the header set last, if
   it finds a place (`valuesRead_forwarded`). -/
namespace NexusGateway
open CString Lines

/-- The values that an upstream reads under a name. -/
def valuesRead (n text : Bytes) : List Bytes :=
  (((wireHeaders text).filterMap id).filter (fun h => h.1 == normalizeLowerStrdup n)).map Prod.snd

/-- What is read of a header's value. -/
def Header.valueRead (e : Header) : Bytes := (cstr e.value).dropWhile isBlank

/-- A header prints a name and is not matched by it. -/
def Header.mimics (n : Bytes) (e : Header) : Bool := e.prints n && !e.isNamed n

theorem valuesRead_eq {r : HttpReq} (hw : Writable r) {n : Bytes} (hn : normalizeLowerStrdup n ≠ []) :
    valuesRead n (serialText r) =
      (r.headers.entries.filter (Header.prints n)).map Header.valueRead := by
  have hprinted (e : Header) : (e.prints n && e.printed) = e.prints n := by
    cases he : e.prints n with
    | false => rfl
    | true =>
      rw [Bool.true_and, printed_iff, eq_of_beq he]
      exact hn
  have hread : (wireHeaders (serialText r)).filterMap id =
      (r.headers.entries.filter Header.printed).map fun e => (e.cname, e.valueRead) := by
    rw [hw.wireHeaders, List.filterMap_map]
    exact congrFun List.filterMap_eq_map _
  rw [valuesRead, hread, List.filter_map, List.map_map, List.filter_filter]
  congr 1
  exact List.filter_congr fun e _ => hprinted e

/-! ## What the sets leave of a kind of entry -/

theorem filter_setAll {p : Header → Bool} {sets : List (Bytes × Bytes)}
    (hp : ∀ s ∈ sets, ∀ e, p e = true → e.isNamed s.1 = false) : ∀ h : Headers,
    (setAll h sets).entries.filter p = h.entries.filter p := by
  induction sets with
  | nil => exact fun _ => rfl
  | cons s sets ih =>
    intro h
    have hkept : (kept s.1 h.entries).filter p = h.entries.filter p := by
      rw [kept, List.filter_filter]
      apply List.filter_congr
      intro e _
      cases he : p e with
      | false => rfl
      | true => rw [hp s List.mem_cons_self e he, Bool.true_and, Bool.not_false]
    have hnew : p (newHeader s.1 s.2) = false := by
      cases he : p (newHeader s.1 s.2) with
      | false => rfl
      | true => exact absurd (hp s List.mem_cons_self _ he) (by rw [newHeader_isNamed]; decide)
    rw [setAll_cons, ih (fun t ht => hp t (List.mem_cons_of_mem s ht)), setHeader_entries,
      List.filter_append, hkept]
    split <;> simp [hnew]

theorem mimics_unmatched {m n : Bytes} {e : Header} (h : e.mimics n = true) : e.isNamed m = false := by
  obtain ⟨hprints, hnot⟩ := Bool.and_eq_true_iff.mp h
  by_cases hname : normalizeLowerStrdup m = normalizeLowerStrdup n
  · rw [Header.isNamed, hname, ← Header.isNamed]
    exact (Bool.not_eq_true' _).mp hnot
  · exact not_isNamed_of_prints (Ne.symm hname) hprints

theorem filter_mimics (n : Bytes) (h : Headers) (sets : List (Bytes × Bytes)) :
    (setAll (cleanHeaders h) sets).entries.filter (Header.mimics n) =
      h.entries.filter (Header.mimics n) := by
  rw [filter_setAll fun s _ e he => mimics_unmatched he, cleanHeaders_entries, List.filter_filter]
  apply List.filter_congr
  intro e _
  cases he : e.mimics n with
  | false => rfl
  | true =>
    rw [Bool.true_and, List.all_eq_true]
    intro m _
    rw [mimics_unmatched he]
    rfl

/-- The table has a place for a header of this name when it is set. -/
def Headers.hasPlace (h : Headers) (n : Bytes) : Bool := decide ((kept n h.entries).length < httpHeaderMax)

/-- The headers that print a name after the last set of it: those that look like it, and
    the one set, if it finds a place. -/
theorem filter_prints_last {n : Bytes} {pre post : List (Bytes × Bytes)} {s : Bytes × Bytes}
    (hs : normalizeLowerStrdup s.1 = normalizeLowerStrdup n)
    (hpost : ∀ t ∈ post, normalizeLowerStrdup n ≠ normalizeLowerStrdup t.1) (h : Headers) :
    (setAll h (pre ++ s :: post)).entries.filter (Header.prints n) =
      (setAll h pre).entries.filter (Header.mimics n) ++
        if (setAll h pre).hasPlace n then [newHeader s.1 s.2] else [] := by
  have hkept : kept s.1 (setAll h pre).entries = kept n (setAll h pre).entries := by
    unfold kept
    apply List.filter_congr
    intro e _
    rw [Header.isNamed, hs, ← Header.isNamed]
  have hmimics : (kept n (setAll h pre).entries).filter (Header.prints n) =
      (setAll h pre).entries.filter (Header.mimics n) := by
    rw [kept, List.filter_filter]
    rfl
  have hnew : (newHeader s.1 s.2).prints n = true := by
    rw [Header.prints, newHeader_cname, hs]
    exact beq_self_eq_true _
  rw [setAll_append, setAll_cons, filter_setAll fun t ht e he => not_isNamed_of_prints (hpost t ht) he,
    setHeader_entries, hkept, List.filter_append, hmimics, Headers.hasPlace]
  by_cases hplace : (kept n (setAll h pre).entries).length < httpHeaderMax
  · rw [if_pos hplace, if_pos (decide_eq_true hplace), List.filter_cons_of_pos hnew, List.filter_nil]
  · rw [if_neg hplace, if_neg (fun heq => hplace (of_decide_eq_true heq)), List.filter_nil]

/-! ## The last set of the request id -/

/-- The last set of a name, with the sets in front of it. -/
def lastSet (n : Bytes) : List (Bytes × Bytes) → Option (List (Bytes × Bytes) × (Bytes × Bytes))
  | [] => none
  | s :: sets =>
    match lastSet n sets with
    | some (pre, t) => some (s :: pre, t)
    | none => if normalizeLowerStrdup s.1 = normalizeLowerStrdup n then some ([], s) else none

theorem lastSet_none {n : Bytes} {sets : List (Bytes × Bytes)} (h : lastSet n sets = none) :
    ∀ t ∈ sets, normalizeLowerStrdup n ≠ normalizeLowerStrdup t.1 := by
  induction sets with
  | nil => nofun
  | cons s sets ih =>
    unfold lastSet at h
    split at h
    · cases h
    · rename_i hnone
      split at h
      · cases h
      · rename_i hother
        intro t ht heq
        rcases List.mem_cons.mp ht with rfl | ht
        · exact hother heq.symm
        · exact ih hnone t ht heq

theorem lastSet_some {n : Bytes} {s : Bytes × Bytes} {sets : List (Bytes × Bytes)} :
    ∀ {pre : List (Bytes × Bytes)}, lastSet n sets = some (pre, s) → ∃ post,
      sets = pre ++ s :: post ∧ normalizeLowerStrdup s.1 = normalizeLowerStrdup n ∧
      ∀ t ∈ post, normalizeLowerStrdup n ≠ normalizeLowerStrdup t.1 := by
  induction sets with
  | nil => nofun
  | cons t sets ih =>
    intro pre h
    unfold lastSet at h
    split at h
    · rename_i pre' t' hlast
      cases h
      obtain ⟨post, rfl, hname, hpost⟩ := ih hlast
      exact ⟨post, rfl, hname, hpost⟩
    · rename_i hnone
      split at h
      · rename_i hname
        cases h
        exact ⟨sets, rfl, hname, lastSet_none hnone⟩
      · cases h

/-- The custom header that is set last under `X-Gateway-Req-Id`, if there is one, with those in
    front of it. -/
def customReqId (cfg : Option Config) : Option (List (Bytes × Bytes) × (Bytes × Bytes)) :=
  lastSet xGatewayReqId (customSets cfg)

/-- The sets in front of the last one under `X-Gateway-Req-Id`. -/
def setsBeforeReqId (req : HttpReq) (ip : IpText) (cfg : Option Config) (draw : IdDraw) :
    List (Bytes × Bytes) :=
  let sets := gatewaySets req (some ip.text) (some (ascii "1.0.0")) draw
  match customReqId cfg with
  | none => sets.dropLast
  | some (pre, _) => sets ++ pre

/-- The last header set under `X-Gateway-Req-Id` finds a place. -/
def reqIdPlaced (req : HttpReq) (ip : IpText) (cfg : Option Config) (draw : IdDraw) : Bool :=
  (setAll (cleanHeaders req.headers) (setsBeforeReqId req ip cfg draw)).hasPlace xGatewayReqId

/-- What the client's headers that only look like `X-Gateway-Req-Id` say. -/
def mimickedReqIds (req : HttpReq) : List Bytes :=
  (req.headers.entries.filter (Header.mimics xGatewayReqId)).map Header.valueRead

theorem xGatewayReqId_mem : xGatewayReqId ∈ gatewayNames := by decide +kernel

theorem gatewaySets_split (req : HttpReq) (ip version : Option Bytes) (draw : IdDraw) :
    gatewaySets req ip version draw =
      (gatewaySets req ip version draw).dropLast ++ [(xGatewayReqId, generateReqId draw 16)] := by
  rw [gatewaySets]
  cases headersGet req.headers hostName <;> rfl

theorem reqId_valueRead (draw : IdDraw) :
    (newHeader xGatewayReqId (generateReqId draw 16)).valueRead = generateReqId draw 16 := by
  have hdigits := (generateReqId_spec draw).1
  have hplain : ∀ c ∈ base36, c ≠ 0 ∧ isBlank c = false := by decide +kernel
  have hnul : NulFree (generateReqId draw 16) := fun h => (hplain 0 (hdigits 0 h)).1 rfl
  rw [Header.valueRead, newHeader_value, cstr_cstr, cstr_of_nulFree hnul]
  cases hid : generateReqId draw 16 with
  | nil => rfl
  | cons c rest =>
    have hc := (hplain c (hdigits c (by rw [hid]; exact List.mem_cons_self))).2
    exact List.dropWhile_cons_of_neg (by rw [hc]; exact Bool.false_ne_true)

/-- **What an upstream reads under `X-Gateway-Req-Id`** of a request that is forwarded. -/
theorem valuesRead_forwarded {data : Bytes} (hd : (feed httpReqInit data).1.state = .done) (ip : IpText)
    (cfg : Option Config) (draw : IdDraw) :
    valuesRead xGatewayReqId (serialText (rewritten data ip cfg draw)) =
      mimickedReqIds (feed httpReqInit data).1 ++
        if reqIdPlaced (feed httpReqInit data).1 ip cfg draw then
          [match customReqId cfg with
            | none => generateReqId draw 16
            | some (_, s) => (newHeader s.1 s.2).valueRead]
        else [] := by
  have hne := gatewayNames_ne_nil xGatewayReqId xGatewayReqId_mem
  -- the last set of the name, whichever it is
  have hlast {pre post : List (Bytes × Bytes)} {s : Bytes × Bytes}
      (hsplit : rewriteSets data ip cfg draw = pre ++ s :: post)
      (hname : normalizeLowerStrdup s.1 = normalizeLowerStrdup xGatewayReqId)
      (hpost : ∀ t ∈ post, normalizeLowerStrdup xGatewayReqId ≠ normalizeLowerStrdup t.1) :
      valuesRead xGatewayReqId (serialText (rewritten data ip cfg draw)) =
        mimickedReqIds (feed httpReqInit data).1 ++
          if (setAll (cleanHeaders (feed httpReqInit data).1.headers) pre).hasPlace xGatewayReqId then
            [(newHeader s.1 s.2).valueRead] else [] := by
    rw [valuesRead_eq (rewritten_writable hd ip cfg draw) hne, rewritten_entries, hsplit,
      filter_prints_last hname hpost, filter_mimics, List.map_append, mimickedReqIds]
    congr 1
    split <;> rfl
  unfold reqIdPlaced setsBeforeReqId
  cases hcustom : customReqId cfg with
  | none =>
    rw [← reqId_valueRead draw]
    refine hlast (s := (xGatewayReqId, generateReqId draw 16)) ?_ rfl (lastSet_none hcustom)
    rw [rewriteSets, List.append_cons, ← gatewaySets_split]
  | some r =>
    obtain ⟨pre, s⟩ := r
    obtain ⟨post, hsplit, hname, hpost⟩ := lastSet_some hcustom
    refine hlast ?_ hname hpost
    rw [rewriteSets, hsplit, List.append_assoc]

end NexusGateway
