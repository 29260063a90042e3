import NexusGateway.RewriteWire

/- What of the client's text reaches the upstream as a header.

   1. `forwarded_address_iff`: the values read under the address headers are the
      gateway's exactly when every header of the client that prints one of these
      names without being matched by it has the gateway's value already.
      `forged_address` is a request with such a header, made with a NUL.
   2. `forwarded_lenient_iff`: an upstream that ends lines at every line feed reads
      the same lines exactly when no field forwarded has a line feed.
      `smuggled_address` is a request where one has. -/
namespace NexusGateway
open CString Lines

/-! ## The address headers -/

/-- The address headers of the gateway, and the values it gives them. -/
def addressValues (ip : IpText) : List (Bytes × Bytes) :=
  [(xRealIp, ip.text), (xForwardedFor, ip.text), (xForwardedProto, ascii "http")]

/-- Every header an upstream reads under an address name has the gateway's value. -/
def AddressesOwn (ip : IpText) (text : Bytes) : Prop :=
  ∀ n v, some (n, v) ∈ wireHeaders text →
    ∀ a ∈ addressValues ip, n = normalizeLowerStrdup a.1 → v = a.2

theorem gatewayNames_ne_nil : ∀ n ∈ gatewayNames, normalizeLowerStrdup n ≠ [] := by
  decide +kernel

theorem addressValues_mem {ip : IpText} {a : Bytes × Bytes} (h : a ∈ addressValues ip) :
    a.1 ∈ gatewayNames := by
  simp only [addressValues, List.mem_cons, List.not_mem_nil, or_false] at h
  rcases h with rfl | rfl | rfl <;> simp [gatewayNames, removedNames]

theorem gatewaySets_value {data : Bytes} {ip : IpText} {draw : IdDraw} {s a : Bytes × Bytes}
    (hs : s ∈ gatewaySets (feed httpReqInit data).1 (some ip.text) (some (ascii "1.0.0")) draw)
    (ha : a ∈ addressValues ip) (h : s.1 = a.1) : s.2 = a.2 := by
  simp only [addressValues, List.mem_cons, List.not_mem_nil, or_false] at ha
  rcases mem_gatewaySets.mp hs with rfl | rfl | ⟨v, _, rfl⟩ | rfl | rfl | rfl <;>
    rcases ha with rfl | rfl | rfl <;>
    first
      | rfl
      | exact absurd h (by dsimp only; decide +kernel)

theorem IpText.dropWhile (ip : IpText) : ip.text.dropWhile isBlank = ip.text := by
  cases h : ip.text with
  | nil => rfl
  | cons c t =>
    have hc : isBlank c = false := by
      rcases ip.chars c (by rw [h]; simp) with hc | hc
      · revert hc
        simp only [isDigit, isBlank, sp, Bool.and_eq_true, decide_eq_true_eq, UInt8.le_iff_toNat_le]
        intro hyp
        obtain ⟨h1, _⟩ := hyp
        simp only [Bool.or_eq_false_iff, beq_eq_false_iff_ne, ne_eq]
        constructor <;> rintro rfl <;> revert h1 <;> decide
      · rw [hc]; decide
    rw [List.dropWhile_cons_of_neg (by simp [hc])]

theorem addressValues_plain {ip : IpText} {a : Bytes × Bytes} (h : a ∈ addressValues ip) :
    (cstr (cstr a.2)).dropWhile isBlank = a.2 := by
  simp only [addressValues, List.mem_cons, List.not_mem_nil, or_false] at h
  rcases h with rfl | rfl | rfl
  · rw [cstr_cstr, cstr_of_nulFree ip.nulFree, ip.dropWhile]
  · rw [cstr_cstr, cstr_of_nulFree ip.nulFree, ip.dropWhile]
  · decide +kernel

/-- **When no address of the client's is forwarded.** For every request the parser
    takes to `HP_DONE`, every address and every configuration that does not name the
    address headers: an upstream reads only the gateway's values under these names
    exactly when each header of the client that prints one of them but is not
    matched by it (its name has a NUL, and its hash covers what is behind it) has
    the gateway's value already. -/
theorem forwarded_address_iff {data : Bytes} (hd : (feed httpReqInit data).1.state = .done)
    (ip : IpText) (cfg : Option Config) (draw : IdDraw)
    (hcfg : ∀ c ∈ customOf cfg, ∀ a ∈ addressValues ip,
      normalizeLowerStrdup c.name.text ≠ normalizeLowerStrdup a.1)
    {out text : Bytes} (hs : serialized (rewritten data ip cfg draw) out = some text) :
    AddressesOwn ip text ↔
      ∀ e ∈ (feed httpReqInit data).1.headers.entries, ∀ a ∈ addressValues ip,
        e.cname = normalizeLowerStrdup a.1 → e.isNamed a.1 = false → cstr e.value = a.2 := by
  have hw := rewritten_writable hd ip cfg draw
  have hline := (feed_wellRead data).headers
  rw [((serialized_rewritten hd ip cfg draw).mp hs).1]
  constructor
  · intro hown e he a ha hname hnot
    have hmem := addressValues_mem ha
    -- a name that matched `e` would be the printed one, which does not
    have hsurv : Survives cfg e := by
      constructor
      · intro n hn
        cases hm : e.isNamed n with
        | false => rfl
        | true =>
          have := gatewayNames_inj n hn a.1 hmem ((cname_of_isNamed hm).symm.trans hname)
          rw [this, hnot] at hm
          cases hm
      · intro c hc
        cases hm : e.isNamed c.name.text with
        | false => rfl
        | true => exact absurd ((cname_of_isNamed hm).symm.trans hname) (hcfg c hc a ha)
    rw [← (hline e he).value_head]
    refine hown e.cname _ ((mem_wireHeaders hw).mpr ⟨e, rewritten_keeps he hsurv, ?_, rfl, rfl⟩)
      a ha hname
    rw [hname]
    exact gatewayNames_ne_nil a.1 hmem
  · intro hall n v hm a ha hn
    obtain ⟨e, he, _, rfl, rfl⟩ := (mem_wireHeaders hw).mp hm
    rcases mem_rewritten he with ⟨hin, hsurv⟩ | ⟨s, hs, rfl⟩
    · -- the client's own, which no name matched
      rw [(hline e hin).value_head]
      exact hall e hin a ha hn (hsurv.1 a.1 (addressValues_mem ha))
    · rw [newHeader_cname] at hn
      rcases List.mem_append.mp hs with hs | hs
      · have hname := gatewayNames_inj s.1 ((gatewaySets_names _ _ _ _).1 s hs) a.1
          (addressValues_mem ha) hn
        rw [newHeader_value, gatewaySets_value hs ha hname]
        exact addressValues_plain ha
      · -- no custom header prints an address name
        obtain ⟨c, hc, rfl⟩ := List.mem_map.mp hs
        exact absurd hn (hcfg c hc a ha)

def sampleIp : IpText := ⟨ascii "10.0.0.7", by decide +kernel, by decide +kernel⟩

def sampleDraw : IdDraw := ⟨123456, 7, 11⟩

/-- A configuration that a worker can start with, with one custom header. -/
@[irreducible] def sampleConfig : Config :=
  configLoad (ascii "[server]\nlisten = 127.0.0.1:8080\n[upstream.api]\nserver = 127.0.0.1:19998\n" ++
    ascii "[http_rewrite]\nadd_header = X-Server:nexus\n")

/-- The buffer of `handle_client_read`. -/
def serialBuf : Bytes := List.replicate 4096 0

theorem forwarded_address_iff_short :
    AddressesOwn sampleIp (serialText (rewritten shortRequest sampleIp (some sampleConfig) sampleDraw)) ↔
      ∀ e ∈ (feed httpReqInit shortRequest).1.headers.entries, ∀ a ∈ addressValues sampleIp,
        e.cname = normalizeLowerStrdup a.1 → e.isNamed a.1 = false → cstr e.value = a.2 :=
  have hd : (feed httpReqInit shortRequest).1.state = .done := by decide +kernel
  have hs := (serialized_rewritten hd sampleIp (some sampleConfig) sampleDraw).mpr
    ⟨rfl, show _ < serialBuf.length by decide +kernel⟩
  forwarded_address_iff hd sampleIp (some sampleConfig) sampleDraw (by decide +kernel) hs

/-- The stored name is `x-real-ip`, a NUL and `x`: the removal hashes all of it, `%s`
    prints the part in front of the NUL. -/
def forgedRequest : Bytes :=
  ascii "GET / HTTP/1.1\r\nX-Real-IP" ++ 0 :: ascii "x: 6.6.6.6\r\n\r\n"

theorem forged_address :
    (feed httpReqInit forgedRequest).1.state = .done ∧
    ∃ text, serialized (rewritten forgedRequest sampleIp none sampleDraw) serialBuf = some text ∧
      some (ascii "x-real-ip", ascii "6.6.6.6") ∈ wireHeaders text ∧ ¬ AddressesOwn sampleIp text := by
  have hd : (feed httpReqInit forgedRequest).1.state = .done := by decide +kernel
  have hm : some (ascii "x-real-ip", ascii "6.6.6.6") ∈
      wireHeaders (serialText (rewritten forgedRequest sampleIp none sampleDraw)) := by
    decide +kernel
  have hs := (serialized_rewritten hd sampleIp none sampleDraw).mpr
    ⟨rfl, show _ < serialBuf.length by decide +kernel⟩
  refine ⟨hd, _, hs, hm, fun hown => ?_⟩
  have := hown _ _ hm (xRealIp, sampleIp.text) (by simp [addressValues]) (by decide +kernel)
  revert this
  decide +kernel

/-! ## A lenient upstream -/

/-- The gateway's sets behind that of the forwarded host. -/
def laterSets (cfg : Option Config) (draw : IdDraw) : List (Bytes × Bytes) :=
  [(xForwardedProto, ascii "http"), (via, viaText (some (ascii "1.0.0"))),
    (xGatewayReqId, generateReqId draw 16)] ++ customSets cfg

theorem laterSets_lf {cfg : Option Config} {draw : IdDraw} {s : Bytes × Bytes}
    (hs : s ∈ laterSets cfg draw) : lf ∉ s.1 ∧ lf ∉ s.2 := by
  rcases List.mem_append.mp hs with hs | hs
  · simp only [List.mem_cons, List.not_mem_nil, or_false] at hs
    rcases hs with rfl | rfl | rfl
    · decide +kernel
    · decide +kernel
    · refine ⟨by show lf ∉ xGatewayReqId; decide +kernel, fun hm => ?_⟩
      have := (generateReqId_spec draw).1 _ hm
      revert this
      decide +kernel
  · obtain ⟨h, hlf⟩ := customSets_plain cfg s hs
    exact ⟨h.name.2, hlf⟩

theorem laterSets_host {cfg : Option Config} {draw : IdDraw} :
    (∀ s ∈ laterSets cfg draw, normalizeLowerStrdup xForwardedHost ≠ normalizeLowerStrdup s.1) ↔
      ∀ c ∈ customOf cfg, normalizeLowerStrdup xForwardedHost ≠ normalizeLowerStrdup c.name.text := by
  constructor
  · intro h c hc
    exact h (c.name.text, c.value.text) (List.mem_append_right _ (List.mem_map.mpr ⟨c, hc, rfl⟩))
  · intro h s hs
    rcases List.mem_append.mp hs with hs | hs
    · simp only [List.mem_cons, List.not_mem_nil, or_false] at hs
      rcases hs with rfl | rfl | rfl <;> dsimp only <;> decide +kernel
    · obtain ⟨c, hm, rfl⟩ := List.mem_map.mp hs
      exact h c hm

/-- The entry made of the host found is in the rewritten table exactly when the
    table has a place for it and no custom header replaces it. -/
theorem forwardedHost_mem {data : Bytes} (ip : IpText) {cfg : Option Config} (draw : IdDraw)
    {v : Bytes} (hv : headersGet (feed httpReqInit data).1.headers hostName = some v)
    (hlf : lf ∈ cstr v) :
    newHeader xForwardedHost v ∈ (rewritten data ip cfg draw).headers.entries ↔
      unremoved (feed httpReqInit data).1.headers ≤ 29 ∧
      ∀ c ∈ customOf cfg, normalizeLowerStrdup xForwardedHost ≠ normalizeLowerStrdup c.name.text := by
  let t := tableFor (feed httpReqInit data).1 ip.text
  have hfinal : (rewritten data ip cfg draw).headers =
      setAll (setHeader t xForwardedHost v) (laterSets cfg draw) := by
    rw [rewritten_entries]
    simp only [rewriteSets, gatewaySets, hv, setAll_append, laterSets]
    rfl
  have hroom : (kept xForwardedHost t.entries).length < httpHeaderMax ↔
      unremoved (feed httpReqInit data).1.headers ≤ 29 := by
    rw [show (kept xForwardedHost t.entries).length = _ from
      (gateway_room _ ip.text none rfl rfl rfl rfl).2.2.1]
    simp only [httpHeaderMax]
    omega
  rw [hfinal, ← hroom, ← laterSets_host]
  constructor
  · intro hm
    rcases mem_setAll hm with ⟨hm, hs⟩ | ⟨s, hs, he⟩
    · refine ⟨?_, fun s hs' heq => ?_⟩
      · rcases mem_setHeader.mp hm with hk | ⟨hlt, _⟩
        · have hnot := (mem_kept.mp hk).2
          rw [newHeader_isNamed] at hnot
          cases hnot
        · exact hlt
      · have hnot := hs s hs'
        rw [newHeader_isNamed_iff.mpr heq.symm] at hnot
        cases hnot
    · -- the value of a later set has no line feed
      exfalso
      have hval : cstr v = cstr s.2 := congrArg Header.value he
      rw [hval] at hlf
      exact (laterSets_lf hs).2 ((cstr_isPrefix s.2).subset hlf)
  · intro hyp
    obtain ⟨hlt, hne⟩ := hyp
    apply setAll_keeps
    · exact mem_setHeader.mpr (Or.inr ⟨hlt, rfl⟩)
    · intro s hs
      cases hn : (newHeader xForwardedHost v).isNamed s.1 with
      | false => rfl
      | true => exact absurd (newHeader_isNamed_iff.mp hn).symm (hne s hs)

theorem lf_not_mem_line {e : Header} : lf ∉ e.line ↔ lf ∉ e.cname ∧ lf ∉ cstr e.value := by
  have h1 : lf ≠ colon := by decide
  have h2 : lf ≠ sp := by decide
  simp only [Header.line, Header.cname, List.mem_append, List.mem_cons, h1, h2, false_or, not_or]

theorem lf_not_mem_requestLine {r : HttpReq} (h : RequestLineOf r) :
    lf ∉ r.requestLine ↔ lf ∉ r.method.text ∧ lf ∉ r.path.text := by
  have h1 : lf ≠ sp := by decide
  have h2 : lf ∉ r.version.text := by
    rcases h.2.2.2 with hv | hv <;> rw [hv] <;> decide
  simp only [HttpReq.requestLine, List.mem_append, List.mem_cons, h1, false_or, h2, or_false, not_or]

theorem serialLines_lf {r : HttpReq} :
    (∀ l ∈ serialLines r ++ [[]], lf ∉ l) ↔
      lf ∉ r.requestLine ∧
      ∀ e ∈ r.headers.entries, e.cname ≠ [] → lf ∉ e.cname ∧ lf ∉ cstr e.value := by
  constructor
  · intro h
    refine ⟨h _ (by simp [serialLines]), fun e he hn => lf_not_mem_line.mp (h _ ?_)⟩
    have hm : e.line ∈ (r.headers.entries.filter Header.printed).map Header.line :=
      List.mem_map_of_mem (List.mem_filter.mpr ⟨he, (printed_iff e).mpr hn⟩)
    simp [serialLines, hm]
  · intro hyp l hl
    obtain ⟨h1, h2⟩ := hyp
    rcases List.mem_append.mp hl with hl | hl
    · rcases List.mem_cons.mp hl with rfl | hl
      · exact h1
      · obtain ⟨e, he, rfl⟩ := List.mem_map.mp hl
        obtain ⟨hm, hp⟩ := List.mem_filter.mp he
        exact lf_not_mem_line.mpr (h2 e hm ((printed_iff e).mp hp))
    · rw [List.mem_singleton.mp hl]
      exact List.not_mem_nil

theorem mem_rewriteSets {data : Bytes} {ip : IpText} {cfg : Option Config} {draw : IdDraw}
    {s : Bytes × Bytes} (hs : s ∈ rewriteSets data ip cfg draw) :
    s = (xRealIp, ip.text) ∨ s = (xForwardedFor, ip.text) ∨
    (∃ v, headersGet (feed httpReqInit data).1.headers hostName = some v ∧ s = (xForwardedHost, v)) ∨
    s ∈ laterSets cfg draw := by
  rw [rewriteSets, List.mem_append, mem_gatewaySets] at hs
  rw [laterSets, List.mem_append]
  simp only [List.mem_cons, List.not_mem_nil, or_false]
  rcases hs with (h | h | ⟨v, hv, h⟩ | h) | h
  · exact Or.inl h
  · exact Or.inr (Or.inl h)
  · exact Or.inr (Or.inr (Or.inl ⟨v, hv, h.symm⟩))
  · exact Or.inr (Or.inr (Or.inr (Or.inl h)))
  · exact Or.inr (Or.inr (Or.inr (Or.inr h)))

theorem newHeader_lf {n v : Bytes} (hn : lf ∉ n) (hv : lf ∉ cstr v) :
    lf ∉ (newHeader n v).cname ∧ lf ∉ cstr (newHeader n v).value := by
  rw [newHeader_cname, newHeader_value, cstr_cstr]
  exact ⟨fun hm => hn ((cstr_isPrefix n).subset ((mem_map_toLower (by decide)).mp hm)), hv⟩

/-- **When a lenient upstream reads the same lines.** For every request the parser
    takes to `HP_DONE`, every address and every configuration: exactly when there is
    no line feed in the method, in the path, in a header that is forwarded, and in
    the host found if it is forwarded as `x-forwarded-host`. -/
theorem forwarded_lenient_iff {data : Bytes} (hd : (feed httpReqInit data).1.state = .done)
    (ip : IpText) (cfg : Option Config) (draw : IdDraw) {out text : Bytes}
    (hs : serialized (rewritten data ip cfg draw) out = some text) :
    lfLines cr lf text = lines cr lf text ↔
      lf ∉ (feed httpReqInit data).1.method.text ∧ lf ∉ (feed httpReqInit data).1.path.text ∧
      (∀ e ∈ (feed httpReqInit data).1.headers.entries, e.cname ≠ [] → Survives cfg e →
        lf ∉ e.cname ∧ lf ∉ cstr e.value) ∧
      (∀ v, headersGet (feed httpReqInit data).1.headers hostName = some v →
        unremoved (feed httpReqInit data).1.headers ≤ 29 →
        (∀ c ∈ customOf cfg,
          normalizeLowerStrdup xForwardedHost ≠ normalizeLowerStrdup c.name.text) →
        lf ∉ cstr v) := by
  have hw := rewritten_writable hd ip cfg draw
  rw [((serialized_rewritten hd ip cfg draw).mp hs).1, serialText,
    lfLines_eq_lines_iff cr_ne_lf hw.unbroken, serialLines_lf, lf_not_mem_requestLine hw.line]
  constructor
  · intro hyp
    obtain ⟨⟨hm, hp⟩, hall⟩ := hyp
    refine ⟨hm, hp, ?_, ?_⟩
    · exact fun e he hn hsurv => hall e (rewritten_keeps he hsurv) hn
    · -- a host with a line feed in it would be forwarded with it
      intro v hv hu hc hlf
      have hin := (forwardedHost_mem ip draw hv hlf).mpr ⟨hu, hc⟩
      have := (hall _ hin (by rw [newHeader_cname]; decide +kernel)).2
      rw [newHeader_value, cstr_cstr] at this
      exact this hlf
  · intro hyp
    obtain ⟨hm, hp, hall, hhost⟩ := hyp
    refine ⟨⟨hm, hp⟩, fun e he hn => ?_⟩
    rcases mem_rewritten he with ⟨hin, hsurv⟩ | ⟨s, hsets, rfl⟩
    · exact hall e hin hn hsurv
    · have hip : lf ∉ cstr ip.text := fun hm => ip.lf_not_mem ((cstr_isPrefix _).subset hm)
      have name {n : Bytes} (hn : n ∈ gatewayNames) : lf ∉ n := (gatewayNames_plain n hn).1.2
      rcases mem_rewriteSets hsets with rfl | rfl | ⟨v, hv, rfl⟩ | hlater
      · exact newHeader_lf (name (by simp [gatewayNames, removedNames])) hip
      · exact newHeader_lf (name (by simp [gatewayNames, removedNames])) hip
      · refine newHeader_lf (name (by simp [gatewayNames, removedNames])) (fun hlf => ?_)
        obtain ⟨hu, hc⟩ := (forwardedHost_mem ip draw hv hlf).mp he
        exact hhost v hv hu hc hlf
      · obtain ⟨h1, h2⟩ := laterSets_lf hlater
        exact newHeader_lf h1 (fun hm => h2 ((cstr_isPrefix _).subset hm))

theorem forwarded_lenient_iff_short :
    lfLines cr lf (serialText (rewritten shortRequest sampleIp (some sampleConfig) sampleDraw)) =
        lines cr lf (serialText (rewritten shortRequest sampleIp (some sampleConfig) sampleDraw)) ↔
      lf ∉ (feed httpReqInit shortRequest).1.method.text ∧
      lf ∉ (feed httpReqInit shortRequest).1.path.text ∧
      (∀ e ∈ (feed httpReqInit shortRequest).1.headers.entries, e.cname ≠ [] →
        Survives (some sampleConfig) e → lf ∉ e.cname ∧ lf ∉ cstr e.value) ∧
      (∀ v, headersGet (feed httpReqInit shortRequest).1.headers hostName = some v →
        unremoved (feed httpReqInit shortRequest).1.headers ≤ 29 →
        (∀ c ∈ customOf (some sampleConfig),
          normalizeLowerStrdup xForwardedHost ≠ normalizeLowerStrdup c.name.text) →
        lf ∉ cstr v) :=
  have hd : (feed httpReqInit shortRequest).1.state = .done := by decide +kernel
  have hs := (serialized_rewritten hd sampleIp (some sampleConfig) sampleDraw).mpr
    ⟨rfl, show _ < serialBuf.length by decide +kernel⟩
  forwarded_lenient_iff hd sampleIp (some sampleConfig) sampleDraw hs

/-- One header to the parser, whose value has a line feed in it. -/
def smuggledAddressRequest : Bytes :=
  ascii "GET / HTTP/1.1\r\nA: b\nX-Real-IP: 6.6.6.6\r\n\r\n"

theorem smuggled_address :
    (feed httpReqInit smuggledAddressRequest).1.state = .done ∧
    ∃ text, serialized (rewritten smuggledAddressRequest sampleIp none sampleDraw) serialBuf =
        some text ∧
      ascii "X-Real-IP: 6.6.6.6" ∈ lfLines cr lf text ∧
      lfLines cr lf text ≠ lines cr lf text := by
  have hd : (feed httpReqInit smuggledAddressRequest).1.state = .done := by decide +kernel
  have hs := (serialized_rewritten hd sampleIp none sampleDraw).mpr
    ⟨rfl, show _ < serialBuf.length by decide +kernel⟩
  exact ⟨hd, _, hs, by decide +kernel, by decide +kernel⟩

end NexusGateway
