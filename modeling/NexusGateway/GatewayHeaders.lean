import NexusGateway.ForwardedRequest
import Mathlib.Data.List.Nodup

/- How often an upstream reads each of the gateway's headers.

   No result of `nexus_headers_set` is looked at: a header that finds the table full
   is left out, and the request is forwarded all the same.

   1. `prints_setAll`: after a list of sets, the headers that print a name are those
      that only look like it, and the one set if it found a place.
   2. `gateway_headers_once_iff`: each of the gateway's headers is read once exactly
      when the client's headers leave it a place and none looks like it, or the
      other way round. -/
namespace NexusGateway
open CString Lines

/-! ## Counting headers by name -/

/-- A header prints a name. -/
def Header.prints (n : Bytes) (e : Header) : Bool := e.cname == normalizeLowerStrdup n

/-- How often an upstream reads a header of this name. -/
def wireCount (n text : Bytes) : Nat :=
  (wireHeaders text).countP (fun o => o.map Prod.fst == some (normalizeLowerStrdup n))

/-- The headers that print a name and are not matched by it. -/
def lookalikes (n : Bytes) (h : Headers) : Nat :=
  h.entries.countP (fun e => e.prints n && !e.isNamed n)

theorem not_isNamed_of_prints {m n : Bytes} {e : Header}
    (hne : normalizeLowerStrdup m ≠ normalizeLowerStrdup n) (h : e.prints m = true) :
    e.isNamed n = false := by
  cases hn : e.isNamed n with
  | false => rfl
  | true => exact absurd ((eq_of_beq h).symm.trans (cname_of_isNamed hn)) hne

/-- The set of a name leaves the headers that look like it, and its own if there is
    a place. -/
theorem prints_setHeader (h : Headers) (n v : Bytes) :
    (setHeader h n v).entries.countP (Header.prints n) =
      lookalikes n h + if (kept n h.entries).length < httpHeaderMax then 1 else 0 := by
  have hnew : (newHeader n v).prints n = true := by
    rw [Header.prints, newHeader_cname, beq_self_eq_true]
  have hkept : (kept n h.entries).countP (Header.prints n) = lookalikes n h := by
    rw [kept, List.countP_filter, lookalikes]
  rw [setHeader_entries, List.countP_append, hkept]
  split
  · rw [List.countP_singleton, hnew, if_pos rfl]
  · rfl

theorem lookalikes_cleanHeaders {n : Bytes} (hn : n ∈ gatewayNames) (h : Headers) :
    lookalikes n (cleanHeaders h) = lookalikes n h := by
  rw [lookalikes, cleanHeaders_entries, List.countP_filter, lookalikes]
  apply List.countP_congr
  intro e _
  have hall (he : (e.prints n && !e.isNamed n) = true) :
      removedNames.all (fun m => !e.isNamed m) = true := by
    rw [Bool.and_eq_true, Bool.not_eq_true'] at he
    rw [List.all_eq_true]
    intro m hm
    by_cases hnm : n = m
    · rw [← hnm, he.2]
      rfl
    · rw [not_isNamed_of_prints (fun heq => hnm ?_) he.1]
      · rfl
      · exact gatewayNames_inj n hn m (List.mem_append_left _ hm) heq
  constructor
  · exact fun he => (Bool.and_eq_true _ _ ▸ he).1
  · exact fun he => by rw [he, hall he]; rfl

/-- **How many headers of a name a list of sets leaves**, when one of them sets it. -/
theorem prints_setAll {h : Headers} {pre post : List (Bytes × Bytes)} {n v : Bytes}
    (hne : ∀ s ∈ pre ++ post, normalizeLowerStrdup n ≠ normalizeLowerStrdup s.1) :
    (setAll h (pre ++ (n, v) :: post)).entries.countP (Header.prints n) =
      lookalikes n h + if (kept n (setAll h pre).entries).length < httpHeaderMax then 1 else 0 := by
  have hpre : lookalikes n (setAll h pre) = lookalikes n h := by
    apply countP_setAll
    intro s hs e he
    exact not_isNamed_of_prints (hne s (List.mem_append_left _ hs)) (Bool.and_eq_true _ _ ▸ he).1
  calc (setAll h (pre ++ (n, v) :: post)).entries.countP (Header.prints n)
      = (setAll (setHeader (setAll h pre) n v) post).entries.countP (Header.prints n) := by
        rw [setAll_append, setAll_cons]
    _ = (setHeader (setAll h pre) n v).entries.countP (Header.prints n) := by
        apply countP_setAll
        intro s hs e he
        exact not_isNamed_of_prints (hne s (List.mem_append_right _ hs)) he
    _ = _ := by rw [prints_setHeader, hpre]

theorem wireCount_eq {r : HttpReq} (hw : Writable r) {n : Bytes}
    (hn : normalizeLowerStrdup n ≠ []) :
    wireCount n (serialText r) = r.headers.entries.countP (Header.prints n) := by
  rw [wireCount, hw.wireHeaders, List.countP_map, List.countP_filter]
  apply List.countP_congr
  intro e _
  have hprinted : e.prints n = true → e.printed = true := by
    intro he
    rw [printed_iff, eq_of_beq he]
    exact hn
  simp only [Function.comp_apply, Option.map_some, Bool.and_eq_true]
  constructor
  · intro he
    exact by simpa [Header.prints] using he.1
  · intro he
    exact ⟨by simpa [Header.prints] using he, hprinted he⟩

/-! ## The gateway's headers -/

/-- The headers an upstream is to read once. -/
def onceNames : List Bytes := [xRealIp, xForwardedFor, xForwardedProto, via, xGatewayReqId]

/-- An upstream reads each of them once. -/
def EachOnce (text : Bytes) : Prop := ∀ n ∈ onceNames, wireCount n text = 1

instance (text : Bytes) : Decidable (EachOnce text) := inferInstanceAs (Decidable (∀ _ ∈ _, _))

/-- Whether the table has a place for each of them when it is set: the client's
    headers that are not removed count, a host found is set in front of the last
    three, and `Via` and the request id may replace headers of the client. -/
def gatewayRooms (req : HttpReq) : List (Bytes × Bool) :=
  let u := unremoved req.headers
  let x := (hostSet req).length
  let v := req.headers.entries.countP (Header.isNamed via)
  let q := req.headers.entries.countP (Header.isNamed xGatewayReqId)
  [(xRealIp, u < httpHeaderMax),
    (xForwardedFor, u + 1 < httpHeaderMax),
    (xForwardedProto, u + 2 + x < httpHeaderMax),
    (via, 0 < v ∨ u + 3 + x < httpHeaderMax),
    (xGatewayReqId, 0 < q ∨ 1 < v ∨ u + 3 + x + 1 < httpHeaderMax + v)]

/-- Each has a place and no header looks like it, or has none and one does. -/
def GatewayHeadersFit (req : HttpReq) : Prop :=
  ∀ p ∈ gatewayRooms req, lookalikes p.1 req.headers + (if p.2 then 1 else 0) = 1

theorem gatewaySets_nodup (req : HttpReq) (ip version : Option Bytes) (draw : IdDraw) :
    ((gatewaySets req ip version draw).map (fun s => normalizeLowerStrdup s.1)).Nodup := by
  rw [gatewaySets]
  cases headersGet req.headers hostName with
  | none =>
    show (List.map normalizeLowerStrdup [xRealIp, xForwardedFor, xForwardedProto, via,
      xGatewayReqId]).Nodup
    decide +kernel
  | some host =>
    show (List.map normalizeLowerStrdup [xRealIp, xForwardedFor, xForwardedHost, xForwardedProto,
      via, xGatewayReqId]).Nodup
    decide +kernel

/-! How full a table is that may have been full before, and what is replaced in it. -/

theorem fill_lt (n : Nat) : min httpHeaderMax n < httpHeaderMax ↔ n < httpHeaderMax := by
  omega

theorem replace_lt (n v : Nat) :
    min httpHeaderMax n - v < httpHeaderMax ↔ 0 < v ∨ n < httpHeaderMax := by
  simp only [httpHeaderMax]
  omega

theorem replace_replace_lt (n v q : Nat) :
    min httpHeaderMax (min httpHeaderMax n - v + 1) - q < httpHeaderMax ↔
      0 < q ∨ 1 < v ∨ n + 1 < httpHeaderMax + v := by
  rw [replace_lt]
  simp only [httpHeaderMax]
  omega

section
variable (req : HttpReq) (ip : Bytes) (version : Option Bytes) (draw : IdDraw)
  (custom : List (Bytes × Bytes))

/-- The headers that print a name the gateway sets, when `b` says whether the sets
    `pre` in front of it leave it a place. -/
theorem prints_gatewaySets_split
    (hcustom : ∀ s ∈ custom, ∀ n ∈ gatewayNames, normalizeLowerStrdup s.1 ≠ normalizeLowerStrdup n)
    (pre : List (Bytes × Bytes)) {post : List (Bytes × Bytes)} {n v : Bytes} {b : Bool}
    (hsplit : gatewaySets req (some ip) version draw = pre ++ (n, v) :: post)
    (hroom : (kept n (setAll (cleanHeaders req.headers) pre).entries).length < httpHeaderMax ↔
      b = true) :
    (setAll (cleanHeaders req.headers)
        (gatewaySets req (some ip) version draw ++ custom)).entries.countP (Header.prints n) =
      lookalikes n req.headers + if b then 1 else 0 := by
  have hn : n ∈ gatewayNames := (gatewaySets_names req (some ip) version draw).1
    (n, v) (by rw [hsplit]; simp)
  have hnodup := gatewaySets_nodup req (some ip) version draw
  rw [hsplit, List.map_append, List.map_cons, List.nodup_middle, List.nodup_cons,
    ← List.map_append] at hnodup
  have hne : ∀ s ∈ pre ++ (post ++ custom), normalizeLowerStrdup n ≠ normalizeLowerStrdup s.1 := by
    intro s hs heq
    rw [← List.append_assoc] at hs
    rcases List.mem_append.mp hs with hs | hs
    · exact hnodup.1 (List.mem_map.mpr ⟨s, hs, heq.symm⟩)
    · exact hcustom s hs n hn heq.symm
  rw [hsplit, List.append_assoc, List.cons_append, prints_setAll hne, lookalikes_cleanHeaders hn,
    if_congr hroom rfl rfl]

/-- How many headers of each name the rewritten table has. -/
theorem prints_gatewaySets
    (hcustom : ∀ s ∈ custom, ∀ n ∈ gatewayNames, normalizeLowerStrdup s.1 ≠ normalizeLowerStrdup n) :
    ∀ p ∈ gatewayRooms req,
      (setAll (cleanHeaders req.headers)
          (gatewaySets req (some ip) version draw ++ custom)).entries.countP (Header.prints p.1) =
        lookalikes p.1 req.headers + if p.2 then 1 else 0 := by
  obtain ⟨k1, k2, _, k4, k5, k6⟩ := gateway_room req ip version rfl rfl rfl rfl
  -- the sets up to the host, and those behind it
  let front := [(xRealIp, ip), (xForwardedFor, ip)] ++ hostSet req
  have hsets : gatewaySets req (some ip) version draw =
      front ++ [(xForwardedProto, ascii "http"), (via, viaText version),
        (xGatewayReqId, generateReqId draw 16)] := rfl
  have hfor : setAll (cleanHeaders req.headers) [(xRealIp, ip)] = tableRealIp req ip := by
    rw [setAll_cons, setAll_nil, tableRealIp]
  have hfront : setAll (cleanHeaders req.headers) front = tableHost req ip := by
    rw [setAll_append, setAll_cons, setAll_cons, setAll_nil, tableHost, tableFor, tableRealIp]
  have hproto : setAll (cleanHeaders req.headers) (front ++ [(xForwardedProto, ascii "http")]) =
      tableProto req ip := by
    rw [setAll_append, hfront, setAll_cons, setAll_nil, tableProto]
  have hvia : setAll (cleanHeaders req.headers)
      (front ++ [(xForwardedProto, ascii "http"), (via, viaText version)]) =
        tableVia req ip version := by
    rw [setAll_append, hfront, setAll_cons, setAll_cons, setAll_nil, tableVia, tableProto]
  -- one header after the other, each with the sets in front of it
  intro p hp
  simp only [gatewayRooms, List.mem_cons, List.not_mem_nil, or_false] at hp
  rcases hp with rfl | rfl | rfl | rfl | rfl
  · apply prints_gatewaySets_split req ip version draw custom hcustom [] rfl
    rw [setAll_nil, k1, decide_eq_true_eq]
  · apply prints_gatewaySets_split req ip version draw custom hcustom [(xRealIp, ip)] rfl
    rw [hfor, k2, fill_lt, decide_eq_true_eq]
  · apply prints_gatewaySets_split req ip version draw custom hcustom front hsets
    rw [hfront, k4, fill_lt, decide_eq_true_eq]
  · apply prints_gatewaySets_split req ip version draw custom hcustom
      (front ++ [(xForwardedProto, ascii "http")]) (by rw [hsets, List.append_assoc front]; rfl)
    rw [hproto, k5, replace_lt, decide_eq_true_eq]
  · apply prints_gatewaySets_split req ip version draw custom hcustom
      (front ++ [(xForwardedProto, ascii "http"), (via, viaText version)])
      (by rw [hsets, List.append_assoc front]; rfl)
    rw [hvia, k6, replace_replace_lt, decide_eq_true_eq]

end

/-- **When each of the gateway's headers is read once.** For every worker whose custom
    headers name none of the gateway's, every connection that is reading its request
    and every result of the calls that ends in a forwarded request: an upstream reads
    each of the five exactly once if and only if, for each, the client's headers leave
    it a place and none prints its name without being matched by it, or they leave it
    none and just one does. -/
theorem gateway_headers_once_iff {w : Worker} {c : ProxyConn} {k : ClientReadCalls}
    (hc : c.state = .readingReq) (hf : (handleClientRead w c k).Forwards)
    (hcfg : ∀ h ∈ customOf (some w.cfg), ∀ n ∈ gatewayNames,
      normalizeLowerStrdup h.name.text ≠ normalizeLowerStrdup n) :
    EachOnce (handleClientRead w c k).conn.prepared ↔
      GatewayHeadersFit (feed httpReqInit k.read.bytes).1 := by
  obtain ⟨hd, htext⟩ := forwarded_text hc hf
  have hw := rewritten_writable hd c.clientIp (some w.cfg) k.draw
  have hcustom : ∀ s ∈ customSets (some w.cfg), ∀ n ∈ gatewayNames,
      normalizeLowerStrdup s.1 ≠ normalizeLowerStrdup n := by
    intro s hs
    obtain ⟨h, hm, rfl⟩ := List.mem_map.mp hs
    exact hcfg h hm
  have hcount := prints_gatewaySets (feed httpReqInit k.read.bytes).1 c.clientIp.text
    (some (ascii "1.0.0")) k.draw (customSets (some w.cfg)) hcustom
  have hnames : onceNames = (gatewayRooms (feed httpReqInit k.read.bytes).1).map Prod.fst := rfl
  have hgate : ∀ n ∈ onceNames, n ∈ gatewayNames := by decide +kernel
  -- the two sides agree header by header
  rw [htext, EachOnce, GatewayHeadersFit, hnames, List.forall_mem_map]
  apply forall₂_congr
  intro p hp
  have hne := gatewayNames_ne_nil p.1 (hgate p.1 (hnames ▸ List.mem_map_of_mem hp))
  rw [wireCount_eq hw hne, rewritten_entries, rewriteSets, hcount p hp]

theorem gateway_headers_once_iff_sample :
    EachOnce (handleClientRead sampleWorker sampleConn bodyRead).conn.prepared ↔
      GatewayHeadersFit (feed httpReqInit bodyRequest).1 :=
  gateway_headers_once_iff (w := sampleWorker) (c := sampleConn) (k := bodyRead) rfl
    (by decide +kernel) (by decide +kernel)

/-- As many headers as the table has places. -/
def crowdedRequest : Bytes :=
  ascii "GET / HTTP/1.1\r\n" ++ (List.replicate 32 (ascii "A: b\r\n")).flatten ++ [cr, lf]

def crowdedRead : ClientReadCalls := sampleRead crowdedRequest (by decide +kernel)

theorem gateway_headers_left_out :
    (handleClientRead sampleWorker sampleConn crowdedRead).Forwards ∧
    (∀ n ∈ onceNames,
      wireCount n (handleClientRead sampleWorker sampleConn crowdedRead).conn.prepared = 0) ∧
    ¬ EachOnce (handleClientRead sampleWorker sampleConn crowdedRead).conn.prepared := by
  decide +kernel

end NexusGateway
