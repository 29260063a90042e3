import NexusGateway.HeaderTable
import NexusGateway.HttpRewrite

/- The whole table that `nexus_http_rewrite_request` leaves (`http_rewrite.c`).

   On names without a NUL the table is an ordered multimap, the removals and sets are its
   operations, and no result of a set is looked at. So the table is the one meant, the
   client's other headers and behind them the gateway's and the configured ones, exactly
   when their names are distinct and each of them finds a place when it is set
   (`rewrite_exact_iff`). -/
namespace NexusGateway
open CString OrderedMultimap

/-! ## Removals and sets on the multimap -/

theorem setHeader_abs {h : Headers} (hf : h.NulFreeNames) {n : Bytes} (hn : NulFree n) (v : Bytes) :
    (setHeader h n v).abs = (h.abs.set (normalizeLower n) (cstr v)).1 ∧
    (setHeader h n v).NulFreeNames := by
  have hop : NulFree (HeaderOp.set n v).name := hn
  obtain ⟨habs, _, hfree⟩ := headerStep_refines hf hop
  exact ⟨habs, hfree⟩

/-- A set as a pair of the multimap. -/
def setPair (s : Bytes × Bytes) : Bytes × Bytes := (normalizeLower s.1, cstr s.2)

theorem setAll_abs {sets : List (Bytes × Bytes)} : ∀ {h : Headers}, h.NulFreeNames →
    (∀ s ∈ sets, NulFree s.1) → (setAll h sets).abs = h.abs.setAll (sets.map setPair) := by
  induction sets with
  | nil => exact fun _ _ => rfl
  | cons s sets ih =>
    intro h hf hsets
    obtain ⟨habs, hfree⟩ := setHeader_abs hf (hsets s List.mem_cons_self) s.2
    rw [setAll_cons, ih hfree (fun t ht => hsets t (List.mem_cons_of_mem s ht)), habs]
    rfl

theorem headersRemove_pairs {h : Headers} (hf : h.NulFreeNames) {n : Bytes} (hn : NulFree n) :
    (headersRemove h n).abs.pairs = h.abs.pairs.filter (fun p => p.1 ≠ normalizeLower n) := by
  rw [headersRemove_abs hf hn]
  rfl

theorem cleanHeaders_abs {h : Headers} (hf : h.NulFreeNames) :
    (cleanHeaders h).abs.pairs = h.abs.without (removedNames.map normalizeLower) ∧
    (cleanHeaders h).NulFreeNames := by
  have h1 := headersRemove_nulFree hf xRealIp
  have h2 := headersRemove_nulFree h1 xForwardedFor
  have h3 := headersRemove_nulFree h2 xForwardedHost
  refine ⟨?_, headersRemove_nulFree h3 xForwardedProto⟩
  rw [cleanHeaders, headersRemove_pairs h3 (by decide +kernel), headersRemove_pairs h2 (by decide +kernel),
    headersRemove_pairs h1 (by decide +kernel), headersRemove_pairs hf (by decide +kernel)]
  simp only [List.filter_filter, Multimap.without]
  apply List.filter_congr
  intro p _
  rw [Bool.eq_iff_iff]
  simp only [Bool.and_eq_true, decide_eq_true_eq, removedNames, List.map_cons, List.map_nil,
    List.mem_cons, List.not_mem_nil, or_false, not_or]
  exact ⟨fun hp => ⟨hp.2.2.2, hp.2.2.1, hp.2.1, hp.1⟩, fun hp => ⟨hp.2.2.2, hp.2.2.1, hp.2.1, hp.1⟩⟩

theorem cleanHeaders_without {h : Headers} (hf : h.NulFreeNames) (ks : List Bytes) :
    (cleanHeaders h).abs.without ks = h.abs.without (removedNames.map normalizeLower ++ ks) := by
  rw [Multimap.without, (cleanHeaders_abs hf).1, Multimap.without, Multimap.without,
    List.filter_filter]
  apply List.filter_congr
  intro p _
  rw [Bool.eq_iff_iff]
  simp only [Bool.and_eq_true, decide_eq_true_eq, List.mem_append, not_or, and_comm]

/-! ## The table meant -/

/-- The names of the custom headers. -/
def customNames (cfg : Option Config) : List Bytes := (customOf cfg).map (fun c => c.name.text)

/-- The host that is forwarded. -/
def forwardedHost (req : HttpReq) : List (Bytes × Bytes) :=
  ((headersGet (cleanHeaders req.headers) hostName).map
    (fun host => (ascii "x-forwarded-host", cstr host))).toList

/-- The headers of the gateway and of the configuration, in order. -/
def gatewayHeaders (req : HttpReq) (clientIp version : Option Bytes) (cfg : Option Config)
    (draw : IdDraw) : List (Bytes × Bytes) :=
  [(ascii "x-real-ip", cstr (clientIp.getD (ascii "unknown"))),
    (ascii "x-forwarded-for", cstr (clientIp.getD (ascii "unknown")))] ++
  forwardedHost req ++
  [(ascii "x-forwarded-proto", ascii "http"), (ascii "via", viaText version),
    (ascii "x-gateway-req-id", generateReqId draw 16)] ++
  (customOf cfg).map (fun c => (normalizeLower c.name.text, c.value.text))

/-- The client's headers under other names, as they stood. -/
def clientHeaders (req : HttpReq) (cfg : Option Config) : List (Bytes × Bytes) :=
  req.headers.abs.without ((gatewayNames ++ customNames cfg).map normalizeLower)

/-- The rewriting leaves the table meant, and the request line as it was. -/
def RewritesExactly (req : HttpReq) (clientIp version : Option Bytes) (cfg : Option Config)
    (draw : IdDraw) : Prop :=
  let r := httpRewriteRequest req clientIp version cfg draw
  r.headers.abs.pairs = clientHeaders req cfg ++ gatewayHeaders req clientIp version cfg draw ∧
  r.method = req.method ∧ r.path = req.path ∧ r.version = req.version

/-- Each header set finds a place: the client's headers that neither a removal nor a set
    up to this one takes out, and the headers set before it, leave one. -/
def EachHasPlace (req : HttpReq) (names : List Bytes) : Prop :=
  ∀ i < names.length,
    (req.headers.abs.without (removedNames.map normalizeLower ++ names.take (i + 1))).length + i <
      httpHeaderMax

/-! ## The sets are the headers meant -/

theorem generateReqId_nulFree (d : IdDraw) : NulFree (generateReqId d 16) :=
  fun h => absurd ((generateReqId_spec d).1 0 h) (by decide)

theorem viaText_nulFree (version : Option Bytes) : NulFree (viaText version) :=
  NulFree.of_sublist ((by decide : NulFree (ascii "1.1 nexus-gateway/")).append (cstr_nulFree _))
    (List.take_sublist _ _)

theorem headersGet_clean (req : HttpReq) :
    headersGet (cleanHeaders req.headers) hostName = headersGet req.headers hostName := by
  rw [headersGet, cleanHeaders_find_host, headersGet]

theorem sets_pairs (req : HttpReq) (clientIp version : Option Bytes) (cfg : Option Config)
    (draw : IdDraw) :
    (gatewaySets req clientIp version draw ++ customSets cfg).map setPair =
      gatewayHeaders req clientIp version cfg draw := by
  have hcustom : (customSets cfg).map setPair =
      (customOf cfg).map (fun c => (normalizeLower c.name.text, c.value.text)) := by
    rw [customSets, List.map_map]
    apply List.map_congr_left
    intro c _
    rw [Function.comp_apply, setPair, cstr_of_nulFree c.value.nulFree]
  have hhost : (((headersGet req.headers hostName).map
      (fun host => (xForwardedHost, host))).toList).map setPair = forwardedHost req := by
    rw [forwardedHost, headersGet_clean]
    cases headersGet req.headers hostName <;> rfl
  have hlast : [(xForwardedProto, ascii "http"), (via, viaText version),
      (xGatewayReqId, generateReqId draw 16)].map setPair =
        [(ascii "x-forwarded-proto", ascii "http"), (ascii "via", viaText version),
          (ascii "x-gateway-req-id", generateReqId draw 16)] := by
    simp only [List.map_cons, List.map_nil, setPair, cstr_of_nulFree (viaText_nulFree version),
      cstr_of_nulFree (generateReqId_nulFree draw)]
    rfl
  rw [List.map_append, hcustom, gatewaySets, List.map_append, List.map_append, hhost, hlast]
  rfl

theorem sets_nulFree (req : HttpReq) (clientIp version : Option Bytes) (cfg : Option Config)
    (draw : IdDraw) :
    ∀ s ∈ gatewaySets req clientIp version draw ++ customSets cfg, NulFree s.1 := by
  have hnames : ∀ n ∈ gatewayNames, NulFree n := by decide +kernel
  intro s hs
  obtain hs | hs := List.mem_append.mp hs
  · obtain rfl | rfl | ⟨host, _, rfl⟩ | rfl | rfl | rfl := mem_gatewaySets.mp hs
    · exact hnames xRealIp (by simp [gatewayNames, removedNames])
    · exact hnames xForwardedFor (by simp [gatewayNames, removedNames])
    · exact hnames xForwardedHost (by simp [gatewayNames, removedNames])
    · exact hnames xForwardedProto (by simp [gatewayNames, removedNames])
    · exact hnames via (by simp [gatewayNames])
    · exact hnames xGatewayReqId (by simp [gatewayNames])
  · obtain ⟨c, _, rfl⟩ := List.mem_map.mp hs
    exact c.name.nulFree

theorem mem_removed_or_set (req : HttpReq) (clientIp version : Option Bytes) (cfg : Option Config)
    (draw : IdDraw) (k : Bytes) :
    k ∈ removedNames.map normalizeLower ++
        (gatewayHeaders req clientIp version cfg draw).map Prod.fst ↔
      k ∈ (gatewayNames ++ customNames cfg).map normalizeLower := by
  have hlower : removedNames.map normalizeLower = [ascii "x-real-ip", ascii "x-forwarded-for",
      ascii "x-forwarded-host", ascii "x-forwarded-proto"] := by decide +kernel
  have hgate : gatewayNames.map normalizeLower = removedNames.map normalizeLower ++
      [ascii "via", ascii "x-gateway-req-id"] := by decide +kernel
  have hhost : k ∈ (forwardedHost req).map Prod.fst → k = ascii "x-forwarded-host" := by
    unfold forwardedHost
    cases headersGet (cleanHeaders req.headers) hostName with
    | none => exact fun h => by cases h
    | some host => exact fun h => List.mem_singleton.mp h
  rw [List.map_append, hgate, hlower, gatewayHeaders]
  simp only [List.map_append, List.map_cons, List.map_nil, List.mem_append, List.mem_cons,
    List.not_mem_nil, or_false, customNames, List.map_map, Function.comp_def]
  grind

/-- **When the rewriting leaves the table meant.** For every request whose header names have
    no NUL, every client address, version, list of custom headers and request id: the
    client's headers under other names, in their order, and behind them the gateway's and
    the configured ones, exactly when those have distinct names and each of them
    finds a place when it is set. -/
theorem rewrite_exact_iff {req : HttpReq} (hf : req.headers.NulFreeNames)
    (clientIp version : Option Bytes) (cfg : Option Config) (draw : IdDraw) :
    RewritesExactly req clientIp version cfg draw ↔
      ((gatewayHeaders req clientIp version cfg draw).map Prod.fst).Nodup ∧
      EachHasPlace req ((gatewayHeaders req clientIp version cfg draw).map Prod.fst) := by
  obtain ⟨_, hclean⟩ := cleanHeaders_abs hf
  have hpairs := setAll_abs hclean (sets_nulFree req clientIp version cfg draw)
  rw [sets_pairs] at hpairs
  have hleft : clientHeaders req cfg = (cleanHeaders req.headers).abs.without
      ((gatewayHeaders req clientIp version cfg draw).map Prod.fst) := by
    rw [cleanHeaders_without hf, clientHeaders, Multimap.without, Multimap.without]
    apply List.filter_congr
    intro p _
    rw [decide_eq_decide, mem_removed_or_set]
  have hroom : (cleanHeaders req.headers).abs.RoomForEach
        (gatewayHeaders req clientIp version cfg draw) ↔
      EachHasPlace req ((gatewayHeaders req clientIp version cfg draw).map Prod.fst) := by
    simp only [Multimap.RoomForEach, EachHasPlace, cleanHeaders_without hf, List.length_map,
      List.map_take]
  unfold RewritesExactly
  dsimp only
  rw [rewrite_eq]
  dsimp only
  rw [hpairs, hleft, ← hroom, ← Multimap.setAll_exact_iff]
  exact ⟨fun h => h.1, fun h => ⟨h, rfl, rfl, rfl⟩⟩

instance (h : Headers) : Decidable h.NulFreeNames := inferInstanceAs (Decidable (∀ e ∈ _, _))

/-- A forged address in two spellings, a host, and a header that the gateway replaces. -/
def twiceForged : HttpReq :=
  (feed httpReqInit (ascii "GET /a HTTP/1.1\r\nX-Real-IP: 6.6.6.6\r\nHost: h\r\nVIA: 1.0 x\r\n\r\n")).1

theorem rewrite_exact_iff_forged :
    RewritesExactly twiceForged (some (ascii "10.0.0.7")) none none ⟨1000, 7, 9⟩ ↔
      ((gatewayHeaders twiceForged (some (ascii "10.0.0.7")) none none ⟨1000, 7, 9⟩).map
        Prod.fst).Nodup ∧
      EachHasPlace twiceForged ((gatewayHeaders twiceForged (some (ascii "10.0.0.7")) none none
        ⟨1000, 7, 9⟩).map Prod.fst) :=
  rewrite_exact_iff (by decide +kernel) _ _ _ _

/-- As many headers as the table has places, six of which the gateway replaces. -/
def manyVias : HttpReq :=
  (feed httpReqInit (ascii "GET / HTTP/1.1\r\n" ++ (List.replicate 26 (ascii "A: b\r\n")).flatten ++
    (List.replicate 6 (ascii "Via: x\r\n")).flatten ++ [cr, lf])).1

/-- The table meant has 31 headers, and the client's address is not in the one left. -/
theorem address_left_out :
    manyVias.state = .done ∧ manyVias.headers.NulFreeNames ∧
    (clientHeaders manyVias none ++
      gatewayHeaders manyVias (some (ascii "10.0.0.7")) none none ⟨1000, 7, 9⟩).length = 31 ∧
    ((gatewayHeaders manyVias (some (ascii "10.0.0.7")) none none ⟨1000, 7, 9⟩).map Prod.fst).Nodup ∧
    headersGet (httpRewriteRequest manyVias (some (ascii "10.0.0.7")) none none ⟨1000, 7, 9⟩).headers
      xRealIp = none ∧
    ¬ RewritesExactly manyVias (some (ascii "10.0.0.7")) none none ⟨1000, 7, 9⟩ := by
  have hlost : (ascii "x-real-ip", ascii "10.0.0.7") ∉
      (httpRewriteRequest manyVias (some (ascii "10.0.0.7")) none none
        ⟨1000, 7, 9⟩).headers.abs.pairs := by
    decide +kernel
  refine ⟨by decide +kernel, by decide +kernel, by decide +kernel, by decide +kernel,
    by decide +kernel, fun h => ?_⟩
  apply hlost
  rw [h.1]
  exact List.mem_append_right _ List.mem_cons_self

end NexusGateway
