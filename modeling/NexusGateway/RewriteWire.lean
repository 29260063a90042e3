import NexusGateway.HttpRewrite
import NexusGateway.ParserFields
import NexusGateway.ParserFraming

/- What an upstream reads of a rewritten request.

   An upstream splits the forwarded bytes into lines and reads a header off each
   (`wireHeaders`). What is proved of every request the parser takes to `HP_DONE`:

   1. a strict upstream finds the lines written, and reads of each header's line the
      name and the value (`Writable.lines`, `mem_wireHeaders`);
   2. a header forwarded is one of the client's that no name removed or set matches,
      and all of these are forwarded, or it is one the gateway set (`mem_rewritten`,
      `rewritten_keeps`). -/
namespace NexusGateway
open CString Lines

/-! ## Lines of headers -/

/-- A header prints a line that no `\r\n` cuts, and its name ends at the first colon. -/
structure Printable (e : Header) : Prop where
  name : colon ∉ e.cname
  line : Unbroken cr lf e.line
  length : e.line.length ≤ 1100

theorem line_unbroken {n v : Bytes} (hn : Unbroken cr lf n) (hv : Unbroken cr lf v) :
    Unbroken cr lf (n ++ colon :: sp :: v) := by
  apply hn.append
  · apply Unbroken.cons (by decide)
    exact Unbroken.cons (by decide) hv
  · exact fun h => absurd (Option.some.inj h) (by decide)

theorem Unbroken.cstr {b : Bytes} (h : Unbroken cr lf b) : Unbroken cr lf (cstr b) := by
  obtain ⟨t, ht⟩ := cstr_isPrefix b
  rw [← ht] at h
  exact h.of_append_left

theorem FromLine.printable {e : Header} (h : FromLine e) : Printable e where
  name := fun hm => h.colon_not_mem ((cstr_isPrefix e.name).subset hm)
  line := line_unbroken (Unbroken.cstr h.unbroken.1) (Unbroken.cstr h.unbroken.2)
  length := by
    have h1 := cstr_length_le e.name
    have h2 := cstr_length_le e.value
    have h3 := h.length
    simp only [Header.line, List.length_append, List.length_cons, lineBufSize] at h3 ⊢
    omega

theorem normalizeLower_cname (e : Header) : normalizeLower e.cname = e.cname := by
  obtain ⟨t, ht⟩ := cstr_isPrefix e.name
  have hl := e.lower_eq
  rw [← ht, normalizeLower, List.map_append] at hl
  exact (List.append_inj hl (List.length_map _)).1

theorem headerOf_line {e : Header} (h : Printable e) :
    headerOf e.line = some (e.cname, (cstr e.value).dropWhile isBlank) := by
  have hs := splitHeader_append h.name (sp :: cstr e.value)
  rw [List.dropWhile_cons_of_pos (by decide)] at hs
  rw [headerOf, Header.line, ← Header.cname, hs, Option.map_some, normalizeLower_cname]

/-! ## The lines written -/

/-- The headers a strict upstream reads off a text: a header for each line between
    the first one and the first empty one. -/
def wireHeaders (text : Bytes) : List (Option (Bytes × Bytes)) := (headLines text).tail.map headerOf

/-- What makes a request fit to be written as lines. -/
structure Writable (r : HttpReq) : Prop where
  line : RequestLineOf r
  headers : ∀ e ∈ r.headers.entries, Printable e

theorem Writable.unbroken {r : HttpReq} (h : Writable r) :
    ∀ l ∈ serialLines r ++ [[]], Unbroken cr lf l := by
  intro l hl
  rcases List.mem_append.mp hl with hl | hl
  · rcases List.mem_cons.mp hl with rfl | hl
    · obtain ⟨⟨line, hu, _, he⟩, _⟩ := h.line
      rw [he]
      exact Unbroken.cstr hu
    · obtain ⟨e, he, rfl⟩ := List.mem_map.mp hl
      exact (h.headers e (List.mem_filter.mp he).1).line
  · rw [List.mem_singleton.mp hl]
    rfl

/-- **A strict upstream finds the lines written.** -/
theorem Writable.lines {r : HttpReq} (h : Writable r) :
    lines cr lf (serialText r) = serialLines r ++ [[]] := lines_unlines cr_ne_lf h.unbroken

theorem requestLine_ne_nil (r : HttpReq) : r.requestLine ≠ [] := by
  simp [HttpReq.requestLine]

theorem Writable.headLines {r : HttpReq} (h : Writable r) :
    headLines (serialText r) = serialLines r := by
  have hl := h.lines
  rw [serialLines, List.cons_append] at hl
  apply headLines_eq hl (requestLine_ne_nil r)
  intro l hl
  obtain ⟨e, _, rfl⟩ := List.mem_map.mp hl
  simp [Header.line]

theorem Writable.wireHeaders {r : HttpReq} (h : Writable r) :
    wireHeaders (serialText r) = (r.headers.entries.filter Header.printed).map
      (fun e => some (e.cname, (cstr e.value).dropWhile isBlank)) := by
  rw [NexusGateway.wireHeaders, h.headLines, serialLines, List.tail_cons, List.map_map]
  apply List.map_congr_left
  intro e he
  exact headerOf_line (h.headers e (List.mem_filter.mp he).1)

theorem Writable.length {r : HttpReq} (h : Writable r) : (serialText r).length < 2 ^ 31 := by
  have hm := r.method.fits
  have hp := r.path.fits
  have hv := r.version.fits
  have hcount : (serialLines r ++ [[]]).length ≤ 34 := by
    have h1 := List.length_filter_le Header.printed r.headers.entries
    have h2 := r.headers.count_le
    simp only [serialLines, httpHeaderMax, List.length_append, List.length_cons, List.length_map,
      List.length_nil] at h2 ⊢
    omega
  have hle : ∀ l ∈ serialLines r ++ [[]], l.length ≤ 1100 := by
    intro l hl
    rcases List.mem_append.mp hl with hl | hl
    · rcases List.mem_cons.mp hl with rfl | hl
      · simp only [HttpReq.requestLine, List.length_append, List.length_cons]
        omega
      · obtain ⟨e, he, rfl⟩ := List.mem_map.mp hl
        exact (h.headers e (List.mem_filter.mp he).1).length
    · rw [List.mem_singleton.mp hl]
      simp
  have hlen : (unlines cr lf (serialLines r ++ [[]])).length ≤ _ := unlines_length_le hle
  rw [serialText]
  have hmul := Nat.mul_le_mul_right 1102 hcount
  omega

/-! ## The rewritten request -/

/-- A name and a value that print one line. -/
structure PlainSet (s : Bytes × Bytes) : Prop where
  name : colon ∉ s.1 ∧ lf ∉ s.1
  value : Unbroken cr lf s.2
  length : s.1.length + s.2.length ≤ 1098

theorem PlainSet.printable {s : Bytes × Bytes} (h : PlainSet s) :
    Printable (newHeader s.1 s.2) := by
  have hsub : (cstr s.1).Sublist s.1 := (cstr_isPrefix s.1).sublist
  have hcolon : colon ∉ normalizeLowerStrdup s.1 := fun hm =>
    h.name.1 (hsub.subset ((mem_map_toLower (by decide)).mp hm))
  have hlf : lf ∉ normalizeLowerStrdup s.1 := fun hm =>
    h.name.2 (hsub.subset ((mem_map_toLower (by decide)).mp hm))
  have hline : (newHeader s.1 s.2).line = normalizeLowerStrdup s.1 ++ colon :: sp :: cstr s.2 := by
    rw [Header.line, newHeader_value, cstr_cstr, ← Header.cname, newHeader_cname]
  refine ⟨?_, ?_, ?_⟩
  · rwa [newHeader_cname]
  · rw [hline]
    exact line_unbroken (Unbroken.of_not_mem hlf) (Unbroken.cstr h.value)
  · have h1 := cstr_length_le s.1
    have h2 := cstr_length_le s.2
    have h3 := h.length
    rw [hline]
    simp only [normalizeLowerStrdup, normalizeLower, List.length_append, List.length_cons,
      List.length_map]
    omega

theorem IpText.lf_not_mem (ip : IpText) : lf ∉ ip.text := by
  intro h
  rcases ip.chars _ h with h | h
  · revert h; decide
  · revert h; decide

theorem IpText.nulFree (ip : IpText) : NulFree ip.text := by
  intro h
  rcases ip.chars _ h with h | h
  · revert h; decide
  · revert h; decide

/-- What the worker makes of a parsed request before it is written out. -/
def rewritten (data : Bytes) (ip : IpText) (cfg : Option Config) (draw : IdDraw) : HttpReq :=
  httpRewriteRequest (feed httpReqInit data).1 (some ip.text) (some (ascii "1.0.0")) cfg draw

/-- The sets made for it. -/
def rewriteSets (data : Bytes) (ip : IpText) (cfg : Option Config) (draw : IdDraw) :
    List (Bytes × Bytes) :=
  gatewaySets (feed httpReqInit data).1 (some ip.text) (some (ascii "1.0.0")) draw ++ customSets cfg

theorem rewritten_entries (data : Bytes) (ip : IpText) (cfg : Option Config) (draw : IdDraw) :
    (rewritten data ip cfg draw).headers =
      setAll (cleanHeaders (feed httpReqInit data).1.headers) (rewriteSets data ip cfg draw) := by
  simp only [rewritten, rewrite_eq, rewriteSets]

theorem mem_of_headersGet {h : Headers} {n v : Bytes} (hg : headersGet h n = some v) :
    ∃ e ∈ h.entries, e.value = v := by
  obtain ⟨e, he, rfl⟩ := Option.map_eq_some_iff.mp hg
  exact ⟨e, List.mem_of_find?_eq_some he, rfl⟩

theorem gatewayNames_plain : ∀ n ∈ gatewayNames, (colon ∉ n ∧ lf ∉ n) ∧ n.length ≤ 17 := by
  decide +kernel

theorem plainSet {n v : Bytes} (hn : n ∈ gatewayNames) (hv : Unbroken cr lf v)
    (hlen : v.length ≤ 1023) : PlainSet (n, v) := by
  obtain ⟨h1, h2⟩ := gatewayNames_plain n hn
  refine ⟨h1, hv, ?_⟩
  show n.length + v.length ≤ 1098
  omega

theorem gatewaySets_plain (data : Bytes) (ip : IpText) (draw : IdDraw) :
    ∀ s ∈ gatewaySets (feed httpReqInit data).1 (some ip.text) (some (ascii "1.0.0")) draw,
      PlainSet s := by
  intro s hs
  have hip : Unbroken cr lf ip.text := Unbroken.of_not_mem ip.lf_not_mem
  have hiplen : ip.text.length ≤ 1023 := by
    have := ip.fits
    omega
  obtain ⟨hid, hidlen⟩ := generateReqId_spec draw
  rcases mem_gatewaySets.mp hs with rfl | rfl | ⟨v, hv, rfl⟩ | rfl | rfl | rfl
  · exact plainSet (by simp [gatewayNames, removedNames]) hip hiplen
  · exact plainSet (by simp [gatewayNames, removedNames]) hip hiplen
  · obtain ⟨e, he, rfl⟩ := mem_of_headersGet hv
    have hline := (feed_wellRead data).headers e he
    have hlen := hline.length
    simp only [lineBufSize] at hlen
    exact plainSet (by simp [gatewayNames, removedNames]) hline.unbroken.2 (by omega)
  · exact plainSet (by simp [gatewayNames, removedNames]) (by decide +kernel) (by decide +kernel)
  · exact plainSet (by simp [gatewayNames]) (by decide +kernel) (by decide +kernel)
  · refine plainSet (by simp [gatewayNames]) (Unbroken.of_not_mem fun hm => ?_) (by omega)
    have := hid _ hm
    revert this
    decide +kernel

theorem customSets_plain (cfg : Option Config) : ∀ s ∈ customSets cfg, PlainSet s ∧ lf ∉ s.2 := by
  intro s hs
  obtain ⟨c, _, rfl⟩ := List.mem_map.mp hs
  have h1 := c.name.fits
  have h2 := c.value.fits
  refine ⟨⟨⟨c.name_line.2, c.name_line.1.2⟩, Unbroken.of_not_mem c.value_line.2, ?_⟩, c.value_line.2⟩
  show c.name.text.length + c.value.text.length ≤ 1098
  omega

/-- A rewritten request is written as lines. -/
theorem rewritten_writable {data : Bytes} (hd : (feed httpReqInit data).1.state = .done)
    (ip : IpText) (cfg : Option Config) (draw : IdDraw) :
    Writable (rewritten data ip cfg draw) where
  line := (feed_done_line hd).congr rfl rfl rfl
  headers := by
    intro e he
    rw [rewritten_entries] at he
    rcases mem_setAll he with ⟨hm, _⟩ | ⟨s, hs, rfl⟩
    · exact ((feed_wellRead data).headers e (mem_cleanHeaders.mp hm).1).printable
    · rcases List.mem_append.mp hs with hs | hs
      · exact (gatewaySets_plain data ip draw s hs).printable
      · exact (customSets_plain cfg s hs).1.printable

theorem serialized_rewritten {data : Bytes} (hd : (feed httpReqInit data).1.state = .done)
    (ip : IpText) (cfg : Option Config) (draw : IdDraw) {out text : Bytes} :
    serialized (rewritten data ip cfg draw) out = some text ↔
      text = serialText (rewritten data ip cfg draw) ∧
      (serialText (rewritten data ip cfg draw)).length < out.length :=
  serialized_eq_some (rewritten_writable hd ip cfg draw).length

/-! ## Which headers are forwarded -/

/-- No name the gateway removes or sets matches the header. -/
def Survives (cfg : Option Config) (e : Header) : Prop :=
  (∀ n ∈ gatewayNames, e.isNamed n = false) ∧
  ∀ c ∈ customOf cfg, e.isNamed c.name.text = false

theorem gatewaySets_names (req : HttpReq) (ip version : Option Bytes) (draw : IdDraw) :
    (∀ s ∈ gatewaySets req ip version draw, s.1 ∈ gatewayNames) ∧
    ∃ v w, (via, v) ∈ gatewaySets req ip version draw ∧
      (xGatewayReqId, w) ∈ gatewaySets req ip version draw := by
  constructor
  · intro s hs
    rcases mem_gatewaySets.mp hs with rfl | rfl | ⟨v, _, rfl⟩ | rfl | rfl | rfl <;>
      simp [gatewayNames, removedNames]
  · exact ⟨viaText version, generateReqId draw 16, by simp [mem_gatewaySets],
      by simp [mem_gatewaySets]⟩

theorem rewriteSets_unmatched (data : Bytes) (ip : IpText) (cfg : Option Config) (draw : IdDraw)
    {e : Header} :
    ((∀ n ∈ removedNames, e.isNamed n = false) ∧
      ∀ s ∈ rewriteSets data ip cfg draw, e.isNamed s.1 = false) ↔ Survives cfg e := by
  obtain ⟨hnames, v, w, hv, hw⟩ := gatewaySets_names (feed httpReqInit data).1 (some ip.text)
    (some (ascii "1.0.0")) draw
  constructor
  · intro hyp
    obtain ⟨hr, hs⟩ := hyp
    refine ⟨fun n hn => ?_, fun c hc => ?_⟩
    · rcases List.mem_append.mp hn with hn | hn
      · exact hr n hn
      · rcases List.mem_cons.mp hn with rfl | hn
        · exact hs _ (List.mem_append_left _ hv)
        · rw [List.mem_singleton.mp hn]
          exact hs _ (List.mem_append_left _ hw)
    · exact hs (c.name.text, c.value.text) (List.mem_append_right _ (List.mem_map.mpr ⟨c, hc, rfl⟩))
  · intro hyp
    obtain ⟨hg, hc⟩ := hyp
    refine ⟨fun n hn => hg n (List.mem_append_left _ hn), fun s hs => ?_⟩
    rcases List.mem_append.mp hs with hs | hs
    · exact hg _ (hnames s hs)
    · obtain ⟨c, hm, rfl⟩ := List.mem_map.mp hs
      exact hc c hm

theorem mem_rewritten {data : Bytes} {ip : IpText} {cfg : Option Config} {draw : IdDraw}
    {e : Header} (he : e ∈ (rewritten data ip cfg draw).headers.entries) :
    (e ∈ (feed httpReqInit data).1.headers.entries ∧ Survives cfg e) ∨
    ∃ s ∈ rewriteSets data ip cfg draw, e = newHeader s.1 s.2 := by
  rw [rewritten_entries] at he
  rcases mem_setAll he with ⟨hm, hs⟩ | h
  · obtain ⟨h1, h2⟩ := mem_cleanHeaders.mp hm
    exact Or.inl ⟨h1, (rewriteSets_unmatched data ip cfg draw).mp ⟨h2, hs⟩⟩
  · exact Or.inr h

/-- **What no name matches is forwarded.** -/
theorem rewritten_keeps {data : Bytes} {ip : IpText} {cfg : Option Config} {draw : IdDraw}
    {e : Header} (he : e ∈ (feed httpReqInit data).1.headers.entries) (hs : Survives cfg e) :
    e ∈ (rewritten data ip cfg draw).headers.entries := by
  obtain ⟨h1, h2⟩ := (rewriteSets_unmatched data ip cfg draw).mpr hs
  rw [rewritten_entries]
  exact setAll_keeps (mem_cleanHeaders.mpr ⟨he, h1⟩) h2

theorem mem_wireHeaders {r : HttpReq} (hw : Writable r) {n v : Bytes} :
    some (n, v) ∈ wireHeaders (serialText r) ↔
      ∃ e ∈ r.headers.entries, e.cname ≠ [] ∧ e.cname = n ∧ (cstr e.value).dropWhile isBlank = v := by
  rw [hw.wireHeaders, List.mem_map]
  constructor
  · intro hyp
    obtain ⟨e, he, heq⟩ := hyp
    obtain ⟨hm, hp⟩ := List.mem_filter.mp he
    injection heq with heq
    injection heq with h1 h2
    exact ⟨e, hm, (printed_iff e).mp hp, h1, h2⟩
  · intro hyp
    obtain ⟨e, he, hp, rfl, rfl⟩ := hyp
    exact ⟨e, List.mem_filter.mpr ⟨he, (printed_iff e).mpr hp⟩, rfl⟩

end NexusGateway
