import NexusGateway.ForwardedRequest
import NexusGateway.RewrittenTable
import NexusGateway.RoundTrip

/- A gateway behind a gateway.

   The request that a gateway forwards may go to another one, which parses, rewrites and
   serialises it again. What the second forwards then is byte for byte what it would have
   forwarded of the client's own request (`chain_transparent`, `chain_forwards`): the first
   leaves nothing behind that the second does not replace, and what it leaves alone
   is read as it was. The request must be one that the first passes on as it is meant
   (`PassesOn`): with a custom header `Host`, say, the second takes the first's value for the
   client's host. -/
namespace NexusGateway
open CString Lines OrderedMultimap

/-! ## The text of a table -/

/-- What the text shows of a table: the pairs that have a name, their values up to a NUL. -/
def visible (pairs : List (Bytes × Bytes)) : List (Bytes × Bytes) :=
  (pairs.filter fun p => p.1 ≠ []).map fun p => (p.1, cstr p.2)

@[simp] theorem visible_append (a b : List (Bytes × Bytes)) :
    visible (a ++ b) = visible a ++ visible b := by
  simp [visible]

@[simp] theorem visible_visible (pairs : List (Bytes × Bytes)) :
    visible (visible pairs) = visible pairs := by
  simp [visible, List.filter_map, Function.comp_def, List.filter_filter, cstr_cstr]

theorem visible_keys (pairs : List (Bytes × Bytes)) :
    ((visible pairs).map Prod.fst).Sublist (pairs.map Prod.fst) := by
  have hfst : (visible pairs).map Prod.fst = (pairs.filter fun p => p.1 ≠ []).map Prod.fst := by
    rw [visible, List.map_map]
    rfl
  rw [hfst]
  exact List.filter_sublist.map Prod.fst

theorem visible_printedOf {es : List Header} (hf : ∀ e ∈ es, NulFree e.name) :
    ((printedOf es).map reprint).map (fun e => (e.name, e.value)) =
      visible (es.map fun e => (e.name, e.value)) := by
  rw [visible, List.filter_map, List.map_map, List.map_map, printedOf]
  have hsame : es.filter Header.printed = es.filter ((fun p : Bytes × Bytes => decide (p.1 ≠ [])) ∘
      fun e => (e.name, e.value)) := by
    apply List.filter_congr
    intro e he
    rw [Bool.eq_iff_iff, printed_iff, Header.cname, cstr_of_nulFree (hf e he)]
    simp
  rw [hsame]
  apply List.map_congr_left
  intro e he
  have hname := cstr_of_nulFree (hf e (List.mem_of_mem_filter he))
  rw [Function.comp_apply, Function.comp_apply, reprint_name, Header.cname, hname]
  rfl

theorem serialText_visible {r : HttpReq} (hf : r.headers.NulFreeNames) :
    serialText r = unlines cr lf (r.requestLine ::
      (visible r.headers.abs.pairs).map (fun p => p.1 ++ colon :: sp :: p.2) ++ [[]]) := by
  have hlines : (r.headers.entries.filter Header.printed).map Header.line =
      (visible r.headers.abs.pairs).map (fun p => p.1 ++ colon :: sp :: p.2) := by
    rw [Headers.abs, ← visible_printedOf hf, List.map_map, List.map_map, printedOf]
    apply List.map_congr_left
    intro e he
    rw [Function.comp_apply, Function.comp_apply, Header.line, reprint_name, Header.cname]
    rfl
  rw [serialText, serialLines, hlines]

theorem headersGet_abs (h : Headers) (n : Bytes) :
    headersGet h n = (h.abs.pairs.find? fun p =>
      hashFnv1a p.1 == hashFnv1a (normalizeLowerStrdup n)).map Prod.snd := by
  rw [headersGet, headersFind, Headers.abs, List.find?_map, Option.map_map]
  congr 2
  funext e
  rw [Function.comp_apply, e.hash_eq]

/-! ## Rewriting again -/

/-- The hash that the host is looked up by. -/
def hostHash : UInt32 := hashFnv1a (normalizeLowerStrdup hostName)

/-- No configured header is found when the host is looked up. -/
def HostLeft (cfg : Option Config) : Prop :=
  ∀ n ∈ customNames cfg, hashFnv1a (normalizeLower n) ≠ hostHash

instance (cfg : Option Config) : Decidable (HostLeft cfg) := inferInstanceAs (Decidable (∀ n ∈ _, _))

theorem find?_filter_of_imp {α : Type*} {p q : α → Bool} (h : ∀ a, q a = true → p a = true) (l : List α) :
    (l.filter p).find? q = l.find? q := by
  rw [List.find?_filter]
  congr 1
  funext a
  rw [Bool.eq_iff_iff, decide_eq_true_eq]
  exact ⟨fun ha => ha.2, fun ha => ⟨h a ha, ha⟩⟩

theorem find_visible (pairs : List (Bytes × Bytes)) :
    (visible pairs).find? (fun p => hashFnv1a p.1 == hostHash) =
      (pairs.find? fun p => hashFnv1a p.1 == hostHash).map fun p => (p.1, cstr p.2) := by
  rw [visible, List.find?_map]
  congr 1
  apply find?_filter_of_imp
  intro p hp
  apply decide_eq_true
  intro hnil
  rw [Function.comp_apply, hnil] at hp
  revert hp
  decide +kernel

theorem HostLeft.names {cfg : Option Config} (h : HostLeft cfg) :
    ∀ k ∈ (gatewayNames ++ customNames cfg).map normalizeLower, hashFnv1a k ≠ hostHash := by
  have hgateway : ∀ n ∈ gatewayNames, hashFnv1a (normalizeLower n) ≠ hostHash := by decide +kernel
  intro k hk
  obtain ⟨n, hn, rfl⟩ := List.mem_map.mp hk
  rcases List.mem_append.mp hn with hn | hn
  · exact hgateway n hn
  · exact h n hn

theorem gatewayHeaders_names {req : HttpReq} {ip version : Option Bytes} {cfg : Option Config}
    {draw : IdDraw} {p : Bytes × Bytes} (hp : p ∈ gatewayHeaders req ip version cfg draw) :
    p.1 ∈ (gatewayNames ++ customNames cfg).map normalizeLower :=
  (mem_removed_or_set req ip version cfg draw p.1).mp
    (List.mem_append_right _ (List.mem_map_of_mem hp))

/-- The host is passed on: the second gateway finds what the first did. -/
theorem headersGet_host {req q : HttpReq} {ip version : Option Bytes} {cfg : Option Config}
    {draw : IdDraw} (hhost : HostLeft cfg)
    (hread : q.headers.abs.pairs =
      visible (clientHeaders req cfg ++ gatewayHeaders req ip version cfg draw)) :
    headersGet q.headers hostName = (headersGet req.headers hostName).map cstr := by
  have hnone : (gatewayHeaders req ip version cfg draw).find? (fun p => hashFnv1a p.1 == hostHash) =
      none := by
    rw [List.find?_eq_none]
    intro p hp heq
    exact hhost.names p.1 (gatewayHeaders_names hp) (eq_of_beq heq)
  have hclient : (clientHeaders req cfg).find? (fun p => hashFnv1a p.1 == hostHash) =
      req.headers.abs.pairs.find? (fun p => hashFnv1a p.1 == hostHash) := by
    apply find?_filter_of_imp
    intro p hp
    simpa using fun hmem => hhost.names p.1 hmem (eq_of_beq hp)
  rw [headersGet_abs, hread, headersGet_abs, ← hostHash, find_visible, List.find?_append, hclient,
    hnone, Option.or_none, Option.map_map, Option.map_map]
  rfl

theorem gatewayHeaders_again {req q : HttpReq} {ip version ip' version' : Option Bytes}
    {cfg cfg' : Option Config} {draw draw' : IdDraw} (hhost : HostLeft cfg)
    (hread : q.headers.abs.pairs =
      visible (clientHeaders req cfg ++ gatewayHeaders req ip version cfg draw)) :
    gatewayHeaders q ip' version' cfg' draw' = gatewayHeaders req ip' version' cfg' draw' := by
  have hforwarded : forwardedHost q = forwardedHost req := by
    rw [forwardedHost, forwardedHost, headersGet_clean, headersGet_clean, headersGet_host hhost hread]
    cases headersGet req.headers hostName with
    | none => rfl
    | some host => simp [cstr_cstr]
  rw [gatewayHeaders, gatewayHeaders, hforwarded]

theorem gatewayHeaders_keys (req : HttpReq) {ip version ip' version' : Option Bytes}
    {cfg cfg' : Option Config} {draw draw' : IdDraw} (hcustom : customNames cfg' = customNames cfg) :
    (gatewayHeaders req ip' version' cfg' draw').map Prod.fst =
      (gatewayHeaders req ip version cfg draw).map Prod.fst := by
  have hnames (cfg : Option Config) : ((customOf cfg).map fun c =>
      (normalizeLower c.name.text, c.value.text)).map Prod.fst = (customNames cfg).map normalizeLower := by
    rw [customNames, List.map_map, List.map_map]
    rfl
  simp only [gatewayHeaders, List.map_append, List.map_cons, List.map_nil, hnames, hcustom]

theorem rewrite_abs {req : HttpReq} (hf : req.headers.NulFreeNames) (ip version : Option Bytes)
    (cfg : Option Config) (draw : IdDraw) :
    (httpRewriteRequest req ip version cfg draw).headers.abs =
      (cleanHeaders req.headers).abs.setAll (gatewayHeaders req ip version cfg draw) := by
  have hsets := setAll_abs (cleanHeaders_abs hf).2 (sets_nulFree req ip version cfg draw)
  rw [sets_pairs] at hsets
  rw [rewrite_eq]
  dsimp only
  exact hsets

theorem clientHeaders_clean {req : HttpReq} (hf : req.headers.NulFreeNames) (ip version : Option Bytes)
    (cfg : Option Config) (draw : IdDraw) :
    (cleanHeaders req.headers).abs.without ((gatewayHeaders req ip version cfg draw).map Prod.fst) =
      clientHeaders req cfg := by
  rw [cleanHeaders_without hf, clientHeaders, Multimap.without, Multimap.without]
  apply List.filter_congr
  intro p _
  rw [decide_eq_decide, mem_removed_or_set]

/-- Rewriting is absorbed. What is visible of a table that was rewritten as meant, rewritten
    again for another address, is what that rewriting makes of the first table. -/
theorem rewrite_again {req q : HttpReq} (hf : req.headers.NulFreeNames) (hq : q.headers.NulFreeNames)
    {ip version : Option Bytes} {cfg : Option Config} {draw : IdDraw}
    (hexact : RewritesExactly req ip version cfg draw) (hhost : HostLeft cfg) (ip' version' : Option Bytes)
    {cfg' : Option Config} (hcustom : customNames cfg' = customNames cfg) (draw' : IdDraw)
    (hread : q.headers.abs.pairs =
      visible (httpRewriteRequest req ip version cfg draw).headers.abs.pairs) :
    visible (httpRewriteRequest q ip' version' cfg' draw').headers.abs.pairs =
      visible (httpRewriteRequest req ip' version' cfg' draw').headers.abs.pairs := by
  rw [hexact.1] at hread
  generalize hfirst : gatewayHeaders req ip version cfg draw = first at hread
  generalize hsecond : gatewayHeaders req ip' version' cfg' draw' = second
  have hkeys : second.map Prod.fst = first.map Prod.fst := by
    rw [← hfirst, ← hsecond]
    exact gatewayHeaders_keys req hcustom
  -- the first table is as meant, so the keys are distinct and each has its place
  have hleft := clientHeaders_clean hf ip version cfg draw
  have htable := hexact.1
  rw [rewrite_abs hf, hfirst, ← hleft, hfirst, Multimap.setAll_exact_iff] at htable
  obtain ⟨hnodup, hroom⟩ := htable
  rw [hfirst] at hleft
  -- the second rewriting of the client's request
  have hdirect : (httpRewriteRequest req ip' version' cfg' draw').headers.abs.pairs =
      clientHeaders req cfg ++ second := by
    have hset := (Multimap.setAll_exact_iff (cleanHeaders req.headers).abs second).mpr
      ⟨hkeys ▸ hnodup, hroom.congr hkeys⟩
    rw [hkeys, hleft] at hset
    rw [rewrite_abs hf, hsecond, hset]
  -- and of the first's
  have hagain : (httpRewriteRequest q ip' version' cfg' draw').headers.abs.pairs =
      visible (clientHeaders req cfg) ++ second := by
    have hsecond' : gatewayHeaders q ip' version' cfg' draw' = second := by
      rw [← hsecond]
      exact gatewayHeaders_again hhost (hfirst ▸ hread)
    have hreplaced : ∀ k, k ∈ removedNames.map normalizeLower ++ second.map Prod.fst ↔
        k ∈ (gatewayNames ++ customNames cfg).map normalizeLower := by
      intro k
      rw [hkeys, ← hfirst]
      exact mem_removed_or_set req ip version cfg draw k
    have hothers : (cleanHeaders q.headers).abs.without (second.map Prod.fst) =
        visible (clientHeaders req cfg) := by
      rw [cleanHeaders_without hq, Multimap.without, hread, visible_append, List.filter_append,
        List.filter_eq_self.mpr, List.filter_eq_nil_iff.mpr, List.append_nil]
      · intro p hp
        have hkey := (visible_keys first).subset (List.mem_map_of_mem hp)
        rw [← hkeys] at hkey
        simp [hkey]
      · intro p hp
        have hkey := (visible_keys _).subset (List.mem_map_of_mem (f := Prod.fst) hp)
        obtain ⟨p', hp', hsame⟩ := List.mem_map.mp hkey
        have hclient := (List.mem_filter.mp hp').2
        rw [hsame] at hclient
        simpa [hreplaced] using hclient
    have hfits := (httpRewriteRequest req ip' version' cfg' draw').headers.abs.fits
    rw [hdirect, List.length_append] at hfits
    have hroom' : (cleanHeaders q.headers).abs.RoomForEach second := by
      refine Multimap.roomForEach_again ((clientHeaders req cfg).map Prod.fst) ?_ (hkeys ▸ hnodup) ?_
      · rw [Multimap.keys, (cleanHeaders_abs hq).1, Multimap.without, hread, hkeys, ← List.map_append]
        exact (List.filter_sublist.map Prod.fst).trans (visible_keys _)
      · rwa [List.length_map]
    have hset := (Multimap.setAll_exact_iff (cleanHeaders q.headers).abs second).mpr
      ⟨hkeys ▸ hnodup, hroom'⟩
    rw [rewrite_abs hq, hsecond', hset, hothers]
  rw [hagain, hdirect, visible_append, visible_append, visible_visible]

/-! ## Reading the first gateway's text -/

/-- The configured values begin with no blank, which a parser would skip. -/
def CustomPlain (cfg : Option Config) : Prop :=
  ∀ c ∈ customOf cfg, c.value.text.dropWhile isBlank = c.value.text

instance (cfg : Option Config) : Decidable (CustomPlain cfg) := inferInstanceAs (Decidable (∀ c ∈ _, _))

theorem newHeader_fromLine {n v : Bytes} (hplain : PlainSet (n, v))
    (hhead : (cstr v).dropWhile isBlank = cstr v)
    (hfits : (cstr n).length + (cstr v).length + 2 < lineBufSize) : FromLine (newHeader n v) := by
  have hcolon : colon ∉ cstr n := fun h => hplain.name.1 ((cstr_isPrefix n).subset h)
  have hlf : lf ∉ cstr n := fun h => hplain.name.2 ((cstr_isPrefix n).subset h)
  refine ⟨cstr n ++ colon :: sp :: cstr v, cstr n, cstr v, ?_, ?_, ?_, rfl⟩
  · exact line_unbroken (Unbroken.of_not_mem hlf) (Unbroken.cstr hplain.value)
  · simp only [List.length_append, List.length_cons]
    omega
  · rw [splitHeader_append hcolon, List.dropWhile_cons_of_pos (by decide), hhead]

theorem gatewaySets_head {data : Bytes} {ip : IpText} {draw : IdDraw} {s : Bytes × Bytes}
    (hs : s ∈ gatewaySets (feed httpReqInit data).1 (some ip.text) (some (ascii "1.0.0")) draw) :
    (cstr s.2).dropWhile isBlank = cstr s.2 := by
  have hip : (cstr ip.text).dropWhile isBlank = cstr ip.text := by
    rw [cstr_of_nulFree ip.nulFree, ip.dropWhile]
  rcases mem_gatewaySets.mp hs with rfl | rfl | ⟨v, hv, rfl⟩ | rfl | rfl | rfl
  · exact hip
  · exact hip
  · obtain ⟨e, he, rfl⟩ := mem_of_headersGet hv
    exact ((feed_wellRead data).headers e he).value_head
  · decide +kernel
  · decide +kernel
  · have hdigits : ∀ c ∈ base36, isBlank c = false := by decide +kernel
    have hid := (generateReqId_spec draw).1
    rw [cstr_of_nulFree (generateReqId_nulFree draw)]
    cases hfirst : generateReqId draw 16 with
    | nil => rfl
    | cons c t =>
      have hc := hdigits c (hid c (by rw [hfirst]; exact List.mem_cons_self))
      rw [List.dropWhile_cons_of_neg (by simp [hc])]

theorem rewritten_nulFree {data : Bytes} (hf : (feed httpReqInit data).1.headers.NulFreeNames)
    (ip : IpText) (cfg : Option Config) (draw : IdDraw) :
    (rewritten data ip cfg draw).headers.NulFreeNames := by
  intro e he
  rw [rewritten_entries] at he
  rcases mem_setAll he with ⟨hclient, _⟩ | ⟨s, _, rfl⟩
  · exact hf e (mem_cleanHeaders.mp hclient).1
  · exact normalizeLower_nulFree.mpr (cstr_nulFree s.1)

theorem rewritten_fromLine {data : Bytes} {ip : IpText} {cfg : Option Config} {draw : IdDraw}
    (hcustom : CustomPlain cfg) (hfits : Reprintable (rewritten data ip cfg draw).headers) :
    ∀ e ∈ (rewritten data ip cfg draw).headers.entries, FromLine e := by
  intro e he
  have hfit := hfits e he
  rw [rewritten_entries] at he
  rcases mem_setAll he with ⟨hclient, _⟩ | ⟨s, hs, rfl⟩
  · exact (feed_wellRead data).headers e (mem_cleanHeaders.mp hclient).1
  · have hlen : (normalizeLowerStrdup s.1).length = (cstr s.1).length := List.length_map _
    rw [newHeader_cname, newHeader_value, cstr_cstr, hlen] at hfit
    rcases List.mem_append.mp hs with hs | hs
    · have hname := (gatewaySets_names _ _ _ draw).1 s hs
      exact newHeader_fromLine (gatewaySets_plain data ip draw s hs) (gatewaySets_head hs)
        (hfit (gatewayNames_ne_nil s.1 hname))
    · obtain ⟨c, hc, rfl⟩ := List.mem_map.mp hs
      have hvalue := hcustom c hc
      have hshort := c.value.fits
      refine newHeader_fromLine (customSets_plain cfg _ hs).1 ?_ ?_
      · rwa [cstr_of_nulFree c.value.nulFree]
      · by_cases hname : cstr c.name.text = []
        · have hle := cstr_length_le c.value.text
          rw [hname]
          simp only [List.length_nil, lineBufSize]
          omega
        · apply hfit
          intro hnil
          rw [hnil] at hlen
          exact hname (List.eq_nil_of_length_eq_zero hlen.symm)

/-- A request that a gateway passes on as it is meant: no name has a NUL, every header set has found
    a place, each line fits a parser's buffer and none asks for a body, and the configured headers
    neither begin with a blank nor stand in for the host. -/
structure PassesOn (data : Bytes) (ip : IpText) (cfg : Option Config) (draw : IdDraw) : Prop where
  names : (feed httpReqInit data).1.headers.NulFreeNames
  exact : RewritesExactly (feed httpReqInit data).1 (some ip.text) (some (ascii "1.0.0")) cfg draw
  fits : Reprintable (rewritten data ip cfg draw).headers
  noBody : AsksNoBody (rewritten data ip cfg draw).headers
  plain : CustomPlain cfg
  host : HostLeft cfg

/-- What the second gateway's parser makes of the first's text. -/
structure ReadAgain (r q : HttpReq) (consumed length : Nat) : Prop where
  done : q.state = .done
  whole : consumed = length
  line : q.requestLine = r.requestLine
  table : q.headers.abs.pairs = visible r.headers.abs.pairs
  names : q.headers.NulFreeNames

/-- The forwarded text is read as it was meant. -/
theorem readAgain {data : Bytes} (hd : (feed httpReqInit data).1.state = .done) {ip : IpText}
    {cfg : Option Config} {draw : IdDraw} (h : PassesOn data ip cfg draw) :
    ReadAgain (rewritten data ip cfg draw)
      (feed httpReqInit (serialText (rewritten data ip cfg draw))).1
      (feed httpReqInit (serialText (rewritten data ip cfg draw))).2
      (serialText (rewritten data ip cfg draw)).length := by
  have hwritable := rewritten_writable hd ip cfg draw
  have hnul := rewritten_nulFree h.names ip cfg draw
  obtain ⟨r1, hs, hh, hm, hp, hv, hlen, hfeed⟩ := feed_serialText hwritable
  obtain ⟨t, ht, hlast⟩ := feed_reprintable (rewritten_fromLine h.plain h.fits) h.fits hs hh
  have hzero := (bodyLength_reprint ht).mpr h.noBody
  rw [hfeed, hlast, hlen]
  refine ⟨?_, rfl, ?_, ?_, ?_⟩
  · simp [feedHeadEnd, hzero]
  · rw [HttpReq.requestLine, HttpReq.requestLine, ← hm, ← hp, ← hv]
    rfl
  · rw [Headers.abs, Headers.abs, ← visible_printedOf hnul, ← ht]
    rfl
  · intro e he
    have hmem : e ∈ (printedOf (rewritten data ip cfg draw).headers.entries).map reprint := ht ▸ he
    obtain ⟨e', _, rfl⟩ := List.mem_map.mp hmem
    rw [reprint_name]
    exact cstr_nulFree e'.name

theorem rewritten_requestLine (data : Bytes) (ip : IpText) (cfg : Option Config) (draw : IdDraw) :
    (rewritten data ip cfg draw).requestLine = (feed httpReqInit data).1.requestLine := by
  rw [rewritten, rewrite_eq]
  rfl

/-- **A gateway in front changes nothing.** The second gateway writes of the first's text what it
    writes of the client's own request. -/
theorem chain_transparent {data : Bytes} (hd : (feed httpReqInit data).1.state = .done)
    {ip : IpText} {cfg : Option Config} {draw : IdDraw} (h : PassesOn data ip cfg draw) (ip' : IpText)
    {cfg' : Option Config} (hcustom : customNames cfg' = customNames cfg) (draw' : IdDraw) :
    serialText (rewritten (serialText (rewritten data ip cfg draw)) ip' cfg' draw') =
      serialText (rewritten data ip' cfg' draw') := by
  have hread := readAgain hd h
  have hagain := rewrite_again h.names hread.names h.exact h.host (some ip'.text)
    (some (ascii "1.0.0")) hcustom draw' hread.table
  have hline := hread.line
  rw [rewritten_requestLine] at hline
  rw [serialText_visible (rewritten_nulFree hread.names ip' cfg' draw'),
    serialText_visible (rewritten_nulFree h.names ip' cfg' draw'), rewritten_requestLine,
    rewritten_requestLine, hline]
  rw [rewritten, hagain, rewritten]

/-- **What a gateway forwards behind another one** is what it forwards of the client's own request.
    For every two workers with custom headers of the same names, every two connections and all
    results of their calls: if the first forwards a request that it passes on as it is meant (no
    NUL in a header's name, a place for every header that is set, lines that fit a parser's
    buffer, no body, no custom value that begins with a blank, no custom header that is found
    as the host), and the second forwards just what the first has prepared, the bytes are those
    that the second forwards when it reads the client's own bytes, with the same request id. -/
theorem chain_forwards {w w' : Worker} {c c' : ProxyConn} {k k' k'' : ClientReadCalls}
    (hc : c.state = .readingReq) (hc' : c'.state = .readingReq)
    (hf : (handleClientRead w c k).Forwards)
    (hpasses : PassesOn k.read.bytes c.clientIp (some w.cfg) k.draw)
    (hcustom : customNames (some w'.cfg) = customNames (some w.cfg))
    (hbehind : k'.read.bytes = (handleClientRead w c k).conn.prepared)
    (hf' : (handleClientRead w' c' k').Forwards) (hown : k''.read.bytes = k.read.bytes)
    (hdraw : k''.draw = k'.draw) (hf'' : (handleClientRead w' c' k'').Forwards) :
    (handleClientRead w' c' k').conn.prepared = (handleClientRead w' c' k'').conn.prepared := by
  obtain ⟨hd, hprepared⟩ := forwarded_text hc hf
  rw [(forwarded_text hc' hf').2, (forwarded_text hc' hf'').2, hbehind, hprepared, hown, hdraw]
  exact chain_transparent hd hpasses c'.clientIp hcustom k'.draw

/-- A client's request with a forged address. -/
def chainedRead : ClientReadCalls :=
  sampleRead (ascii "GET /a HTTP/1.1\r\nHost: h\r\nX-Real-IP: 6.6.6.6\r\nAccept: b\r\n\r\n")
    (by decide +kernel)

/-- What the first gateway makes of it. -/
def chainedText : Bytes := (handleClientRead sampleWorker sampleConn chainedRead).conn.prepared

/-- The connection of the first gateway at the second. -/
def chainedConn : ProxyConn :=
  { sampleConn with clientIp := ⟨ascii "10.0.0.1", by decide +kernel, by decide +kernel⟩ }

theorem chainedRead_passesOn :
    PassesOn chainedRead.read.bytes sampleConn.clientIp (some sampleWorker.cfg) chainedRead.draw where
  names := by decide +kernel
  exact := ⟨by decide +kernel, rfl, rfl, rfl⟩
  fits := by unfold Reprintable; decide +kernel
  noBody := by
    have hnone : (rewritten chainedRead.read.bytes sampleConn.clientIp (some sampleWorker.cfg)
        chainedRead.draw).headers.entries.find?
          (fun e => hashFnv1a e.cname == hashFnv1a contentLength) = none := by decide +kernel
    intro e he
    rw [hnone] at he
    cases he
  plain := by decide +kernel
  host := by decide +kernel

theorem chain_forwards_sample :
    (handleClientRead sampleWorker chainedConn (sampleRead chainedText (by decide +kernel))).conn.prepared =
      (handleClientRead sampleWorker chainedConn chainedRead).conn.prepared :=
  chain_forwards (w := sampleWorker) (c := sampleConn) (k := chainedRead) rfl rfl (by decide +kernel)
    chainedRead_passesOn rfl rfl (by decide +kernel) rfl rfl (by decide +kernel)

end NexusGateway
