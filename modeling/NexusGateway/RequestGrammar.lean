import NexusGateway.ParserChunks
import NexusGateway.ContentLength

/- The requests the parser accepts.

   A `RequestText` is a request as a client can write it: a request line of three words that
   fit their arrays, header lines with a colon that fit the line buffer, at most 32 of them,
   and a body of the length that the table asks for. `request_read`: its text, cut in any way
   and followed by anything, is read to `HP_DONE` with exactly its fields, and what follows
   is not consumed. `feed_verdict`: on inputs whose lines fit the line buffer those texts are
   all that is accepted, and `HP_INVALID` is reached exactly for a line that cannot be one of
   them. -/
namespace NexusGateway
open CString Lines Incremental

/-! ## Header lines -/

/-- The text of a header line. -/
def headerLineText (name blanks value : Bytes) : Bytes := name ++ colon :: (blanks ++ value)

/-- A header line that a client can write. -/
structure HeaderLine where
  name : Bytes
  blanks : Bytes
  value : Bytes
  name_free : colon ∉ name
  blank : ∀ c ∈ blanks, isBlank c = true
  value_head : ∀ c, value.head? = some c → isBlank c = false
  unbroken : Unbroken cr lf (headerLineText name blanks value)
  fits : (headerLineText name blanks value).length < lineBufSize

namespace HeaderLine

def text (h : HeaderLine) : Bytes := headerLineText h.name h.blanks h.value

/-- The entry it is stored as. -/
def entry (h : HeaderLine) : Header := Header.mk' h.name h.value

theorem text_unbroken (h : HeaderLine) : Unbroken cr lf h.text := h.unbroken
theorem text_fits (h : HeaderLine) : h.text.length < lineBufSize := h.fits

theorem text_ne_nil (h : HeaderLine) : h.text ≠ [] := by
  simp [text, headerLineText]

theorem dropWhile_blanks {blanks value : Bytes} (hb : ∀ c ∈ blanks, isBlank c = true)
    (hv : ∀ c, value.head? = some c → isBlank c = false) :
    (blanks ++ value).dropWhile isBlank = value := by
  rw [List.dropWhile_append_of_pos hb]
  cases value with
  | nil => rfl
  | cons c value => rw [List.dropWhile_cons_of_neg (by simp [hv c rfl])]

theorem split (h : HeaderLine) : splitHeader h.text = some (h.name, h.value) := by
  rw [text, headerLineText, splitHeader_append h.name_free, dropWhile_blanks h.blank h.value_head]

theorem text_injective {a b : HeaderLine} (h : a.text = b.text) : a = b := by
  have hsplit : some (a.name, a.value) = some (b.name, b.value) := by
    rw [← a.split, ← b.split, h]
  obtain ⟨hname, hvalue⟩ := Prod.mk.inj (Option.some.inj hsplit)
  obtain ⟨name, blanks, value, _⟩ := a
  obtain ⟨name', blanks', value', _⟩ := b
  obtain rfl : name = name' := hname
  obtain rfl : value = value' := hvalue
  obtain rfl : blanks = blanks' := by
    simpa [text, headerLineText] using h
  rfl

theorem exists_of_split {line n v : Bytes} (hu : Unbroken cr lf line)
    (hfit : line.length < lineBufSize) (h : splitHeader line = some (n, v)) :
    ∃ l : HeaderLine, l.text = line := by
  obtain ⟨hn, blanks, hb, rfl, hv⟩ := splitHeader_some h
  exact ⟨⟨n, blanks, v, hn, hb, hv, hu, hfit⟩, rfl⟩

end HeaderLine

/-- The table of these lines. -/
def tableOf (ls : List HeaderLine) (h : ls.length ≤ httpHeaderMax) : Headers where
  entries := ls.map HeaderLine.entry
  count_le := by rwa [List.length_map]

/-! ## Requests -/

/-- The text of a request line, with what stands behind a NUL in it. -/
def lineText (method path version unseen : Bytes) : Bytes :=
  method ++ sp :: (path ++ sp :: (version ++ unseen))

/-- A request that a client can write. -/
structure RequestText where
  method : CharArray 16
  path : CharArray 1024
  version : CharArray 16
  unseen : Bytes
  headers : List HeaderLine
  body : Bytes
  method_word : sp ∉ method.text
  path_word : sp ∉ path.text
  known : IsVersion version.text
  behind_nul : ∀ c, unseen.head? = some c → c = 0
  unbroken : Unbroken cr lf (lineText method.text path.text version.text unseen)
  fits : (lineText method.text path.text version.text unseen).length < lineBufSize
  room : headers.length ≤ httpHeaderMax
  counted : body.length = bodyCount (bodyLength (tableOf headers room))

namespace RequestText

def line (q : RequestText) : Bytes :=
  lineText q.method.text q.path.text q.version.text q.unseen

theorem line_unbroken (q : RequestText) : Unbroken cr lf q.line := q.unbroken
theorem line_fits (q : RequestText) : q.line.length < lineBufSize := q.fits

def table (q : RequestText) : Headers := tableOf q.headers q.room

/-- The texts of the header lines, and the end of the head. -/
def headerTexts (q : RequestText) : List Bytes := q.headers.map HeaderLine.text ++ [[]]

def text (q : RequestText) : Bytes := unlines cr lf (q.line :: q.headerTexts) ++ q.body

/-- What the parser leaves of it. A length below zero stays in the counter. -/
def parsed (q : RequestText) : HttpReq where
  state := .done
  method := q.method
  path := q.path
  version := q.version
  headers := q.table
  bodyRemaining := if 0 < bodyLength q.table then 0 else bodyLength q.table

end RequestText

/-! ## Reading a request -/

theorem cstr_behind_nul {b : Bytes} (h : ∀ c, b.head? = some c → c = 0) : cstr b = [] := by
  cases b with
  | nil => rfl
  | cons c b => simp [cstr, h c rfl]

/-- A request line that spells three words is accepted, whatever stands behind a NUL. -/
theorem parseRequestLine_words (r : HttpReq) (m : CharArray 16) (p : CharArray 1024)
    (v : CharArray 16) (unseen : Bytes) (hm : sp ∉ m.text) (hp : sp ∉ p.text)
    (hv : IsVersion v.text) (hnul : ∀ c, unseen.head? = some c → c = 0) :
    parseRequestLine r (lineText m.text p.text v.text unseen) =
      ({ r with method := m, path := p, version := v }, 0) := by
  rw [lineText]
  generalize hV : v.text ++ unseen = V
  have hc : cstr V = v.text := by
    rw [← hV, cstr_append v.nulFree, cstr_behind_nul hnul, List.append_nil]
  have h1 := strchr_append m.nulFree hm (c := sp) (by decide) (p.text ++ sp :: V)
  have h2 := strchr_append p.nulFree hp (c := sp) (by decide) V
  have d1 : (m.text ++ sp :: (p.text ++ sp :: V)).drop (m.text.length + 1) =
      p.text ++ sp :: V := by
    rw [← List.drop_drop, List.drop_left]
    rfl
  have d2 : (p.text ++ sp :: V).drop (p.text.length + 1) = V := by
    rw [← List.drop_drop, List.drop_left]
    rfl
  have hs : startsWith V (ascii "HTTP/") = true := by
    rw [startsWith, hc]
    rcases hv with h | h <;> rw [h] <;> decide
  have hver : (!strEq V (ascii "HTTP/1.0") && !strEq V (ascii "HTTP/1.1")) = false := by
    rw [strEq, strEq, hc]
    rcases hv with h | h <;> rw [h] <;> decide
  have hl : strlen V < 16 := by
    rw [strlen, hc]
    exact v.fits
  unfold parseRequestLine
  split
  · rename_i h
    rw [h1] at h
    cases h
  rename_i sp1 h
  obtain rfl : sp1 = m.text.length := by
    rw [h1] at h
    exact (Option.some.inj h).symm
  rw [dif_pos m.fits]
  dsimp only
  split
  · rename_i h'
    rw [d1, h2] at h'
    cases h'
  rename_i sp2 h'
  obtain rfl : sp2 = p.text.length := by
    rw [d1, h2] at h'
    exact (Option.some.inj h').symm
  rw [dif_pos p.fits]
  simp only [d1, d2, hs, Bool.not_true, Bool.false_eq_true, if_false, dif_pos hl, hver, hc,
    List.take_left]

theorem feed_line {r : HttpReq} (h : r.state.inHead = true) {l : Bytes} (hu : Unbroken cr lf l)
    (hfit : l.length < lineBufSize) (hok : (feedLine r l).state ≠ .invalid) (t : Bytes) :
    feed r (l ++ cr :: lf :: t) =
      ((feed (feedLine r l) t).1, (l ++ [cr, lf]).length + (feed (feedLine r l) t).2) := by
  have hstep := feedStep_line h hu t
  have hdrop := (drop_line hfit t).1
  rw [lineLen_short hfit] at hstep hdrop
  rw [List.take_length, if_neg hok] at hstep
  rw [feed_some hstep, hdrop, List.length_append]
  rfl

/-- Header lines are stored in order. -/
theorem feed_header_lines {ls : List HeaderLine} (t : Bytes) : ∀ {r : HttpReq},
    r.state = .header → r.headers.entries.length + ls.length ≤ httpHeaderMax →
    ∃ h : Headers, h.entries = r.headers.entries ++ ls.map HeaderLine.entry ∧
      feed r (unlines cr lf (ls.map HeaderLine.text) ++ t) =
        ((feed { r with headers := h } t).1,
          (unlines cr lf (ls.map HeaderLine.text)).length + (feed { r with headers := h } t).2) := by
  induction ls with
  | nil =>
    intro r _ _
    exact ⟨r.headers, by simp, by simp⟩
  | cons l ls ih =>
    intro r hs hroom
    have hh : r.state.inHead = true := by rw [hs]; rfl
    rw [List.length_cons] at hroom
    have hc : r.headers.entries.length < httpHeaderMax := by omega
    have hadd := feedHeaderLine_add (r := r) l.text_ne_nil l.split hc
    rw [← feedLine_header hs] at hadd
    have hok : (feedLine r l.text).state ≠ .invalid := by
      rw [hadd]
      simp [hs]
    have hentries := (headersAdd_room hc l.name l.value).1
    obtain ⟨h, he, hf⟩ := ih (r := { r with headers := (headersAdd r.headers l.name l.value).1 }) hs
      (by rw [hentries, List.length_append, List.length_singleton]; omega)
    refine ⟨h, ?_, ?_⟩
    · rw [he, hentries, List.map_cons, List.append_assoc]
      rfl
    · rw [List.map_cons, unlines_cons, List.append_assoc, List.cons_append, List.cons_append,
        feed_line hh l.text_unbroken l.text_fits hok, hadd, hf]
      simp only [List.length_append, List.length_cons, List.length_nil]
      congr 1
      omega

/-- The body is counted, and nothing behind it is consumed. -/
theorem feed_body {r : HttpReq} {body : Bytes}
    (hlen : body.length = bodyCount (bodyLength r.headers)) (more : Bytes) :
    feed (feedHeadEnd r) (body ++ more) =
      ({ r with
          state := .done
          bodyRemaining := if 0 < bodyLength r.headers then 0 else bodyLength r.headers },
        body.length) := by
  by_cases hp : 0 < bodyLength r.headers
  · have hcount : body.length = sizeOfInt (bodyLength r.headers) := by rw [hlen, bodyCount_pos hp]
    have hs : (feedHeadEnd r).state = .body := by rw [feedHeadEnd, if_pos hp]
    have hpos : 0 < (feedHeadEnd r).bodyRemaining := hp
    have hne : body ++ more ≠ [] := by
      intro h0
      have hz : sizeOfInt (bodyLength r.headers) = 0 := by
        rw [← hcount, (List.append_eq_nil_iff.mp h0).1, List.length_nil]
      rw [sizeOfInt_eq_zero hz] at hp
      exact absurd hp (by decide)
    have hall : sizeOfInt (feedHeadEnd r).bodyRemaining ≤ (body ++ more).length := by
      rw [List.length_append, hcount]
      exact Nat.le_add_right _ _
    have hstep := feedStep_body hs hne
    rw [feedBody_all hpos hall] at hstep
    rw [feed_some hstep, feed_final rfl, if_pos hp, hcount]
    rfl
  · have hbody : body = [] := by
      rw [bodyCount, if_neg hp] at hlen
      exact List.length_eq_zero_iff.mp hlen
    have hend : (feedHeadEnd r).state = .done := by rw [feedHeadEnd, if_neg hp]
    rw [feed_final (by rw [hend]; rfl), if_neg hp, hbody, List.length_nil, feedHeadEnd, if_neg hp]

theorem feed_empty_line {r : HttpReq} (hs : r.state = .header) (t : Bytes) :
    feed r (cr :: lf :: t) = ((feed (feedHeadEnd r) t).1, 2 + (feed (feedHeadEnd r) t).2) := by
  have hend : feedLine r [] = feedHeadEnd r := feedLine_header hs []
  have hok : (feedLine r []).state ≠ .invalid := by
    rw [hend, feedHeadEnd]
    split <;> simp
  have hline := feed_line (by rw [hs]; rfl) (l := []) rfl (by decide) hok t
  rwa [hend] at hline

/-- The request after its first line. -/
def RequestText.begun (q : RequestText) : HttpReq :=
  { httpReqInit with state := .header, method := q.method, path := q.path, version := q.version }

theorem feedLine_begun (q : RequestText) : feedLine httpReqInit q.line = q.begun := by
  have hwords := parseRequestLine_words httpReqInit q.method q.path q.version q.unseen
    q.method_word q.path_word q.known q.behind_nul
  rw [feedLine_reqLine rfl, RequestText.line, hwords]
  rfl

/-- A request is read to its last byte and no further. -/
theorem feed_text (q : RequestText) (more : Bytes) :
    feed httpReqInit (q.text ++ more) = (q.parsed, q.text.length) := by
  have hok : (feedLine httpReqInit q.line).state ≠ .invalid := by
    rw [feedLine_begun, RequestText.begun]
    simp
  have hfirst := feed_line (r := httpReqInit) rfl q.line_unbroken q.line_fits hok
    (unlines cr lf (q.headers.map HeaderLine.text) ++ cr :: lf :: (q.body ++ more))
  rw [feedLine_begun] at hfirst
  have hroom : q.begun.headers.entries.length + q.headers.length ≤ httpHeaderMax := by
    rw [Nat.add_comm]
    exact q.room
  obtain ⟨h, hentries, hheaders⟩ := feed_header_lines (cr :: lf :: (q.body ++ more))
    (r := q.begun) rfl hroom
  obtain rfl : h = q.table := Headers.ext hentries
  have hempty := feed_empty_line (r := { q.begun with headers := q.table }) rfl (q.body ++ more)
  have hbody := feed_body (r := { q.begun with headers := q.table }) q.counted more
  have htext : q.text ++ more = q.line ++ cr :: lf ::
      (unlines cr lf (q.headers.map HeaderLine.text) ++ cr :: lf :: (q.body ++ more)) := by
    simp [RequestText.text, RequestText.headerTexts]
  have hlength : q.text.length = (q.line ++ [cr, lf]).length +
      ((unlines cr lf (q.headers.map HeaderLine.text)).length + (2 + q.body.length)) := by
    simp only [RequestText.text, RequestText.headerTexts, unlines_cons, unlines_append,
      List.length_append, List.length_cons, List.length_nil, unlines_nil]
    omega
  rw [htext, hfirst, hheaders, hempty, hbody, hlength]
  rfl

/-! ## What is accepted -/

/-- Words of a request line, as far as the parser sees the line. -/
def IsRequestLine (l : Bytes) : Prop :=
  ∃ (m : CharArray 16) (p : CharArray 1024) (v : CharArray 16),
    sp ∉ m.text ∧ sp ∉ p.text ∧ IsVersion v.text ∧
      cstr l = m.text ++ sp :: (p.text ++ sp :: v.text)

theorem cstr_split (l : Bytes) : ∃ unseen, l = cstr l ++ unseen ∧ ∀ c, unseen.head? = some c → c = 0 := by
  refine ⟨l.dropWhile (fun c => c != 0), (List.takeWhile_append_dropWhile).symm, fun c hc => ?_⟩
  have hhead := List.head?_dropWhile_not (fun c : UInt8 => c != 0) l
  rw [hc] at hhead
  simpa using hhead

theorem parseRequestLine_iff (r : HttpReq) (l : Bytes) :
    (parseRequestLine r l).2 = 0 ↔ IsRequestLine l := by
  constructor
  · intro h
    obtain ⟨hline, hm, hp, hv, _⟩ := parseRequestLine_ok h
    exact ⟨_, _, _, hm, hp, hv, hline.symm⟩
  · rintro ⟨m, p, v, hm, hp, hv, hl⟩
    obtain ⟨unseen, hsplit, hnul⟩ := cstr_split l
    have htext : l = lineText m.text p.text v.text unseen := by
      rw [hsplit, hl, lineText]
      simp
    rw [htext, parseRequestLine_words r m p v unseen hm hp hv hnul]

theorem feed_headEnd_state (r : HttpReq) (t : Bytes) :
    (feed (feedHeadEnd r) t).1.state =
      if bodyCount (bodyLength r.headers) ≤ t.length then .done else .body := by
  split
  · rename_i hle
    have hlen : (t.take (bodyCount (bodyLength r.headers))).length =
        bodyCount (bodyLength r.headers) := List.length_take_of_le hle
    have hbody := feed_body hlen (t.drop (bodyCount (bodyLength r.headers)))
    rw [List.take_append_drop] at hbody
    rw [hbody]
  · rename_i hlt
    have hp : 0 < bodyLength r.headers := by
      by_contra hp
      rw [bodyCount, if_neg hp] at hlt
      omega
    have hs : (feedHeadEnd r).state = .body := by rw [feedHeadEnd, if_pos hp]
    rw [bodyCount_pos hp] at hlt
    cases t with
    | nil => rw [feed_none (feedStep_nil _), hs]
    | cons b t =>
      have hpos : 0 < (feedHeadEnd r).bodyRemaining := hp
      have hshort : (b :: t).length < sizeOfInt (feedHeadEnd r).bodyRemaining :=
        Nat.not_le.mp hlt
      have hstep := feedStep_body hs (List.cons_ne_nil b t)
      rw [feedBody_part hpos hshort] at hstep
      rw [feed_some hstep, List.drop_length, feed_none (feedStep_nil _)]

theorem headLines_line {l : Bytes} (hu : Unbroken cr lf l) (hl : l ≠ []) (t : Bytes) :
    headLines (l ++ cr :: lf :: t) = l :: headLines t := by
  rw [headLines, headLines_cons hu rfl, List.takeWhile_cons_of_pos (by simpa using hl), headLines]

theorem header_lines_of_done {r : HttpReq} {rest : Bytes} (hs : r.state = .header)
    (hd : (feed r rest).1.state = .done) :
    (∀ l ∈ headLines rest, l.length < lineBufSize) →
    ∃ (ls : List HeaderLine) (t : Bytes),
      rest = unlines cr lf (ls.map HeaderLine.text) ++ cr :: lf :: t ∧
      r.headers.entries.length + ls.length ≤ httpHeaderMax := by
  apply header_run_induction (P := fun r rest => (∀ l ∈ headLines rest, l.length < lineBufSize) →
    ∃ (ls : List HeaderLine) (t : Bytes),
      rest = unlines cr lf (ls.map HeaderLine.text) ++ cr :: lf :: t ∧
      r.headers.entries.length + ls.length ≤ httpHeaderMax) _ _ hs hd
  · intro r t _ _ _
    exact ⟨[], t, rfl, r.headers.count_le⟩
  · intro r l t n v r' rest' hu hl hsp hc hr' hrest _ _ ih hfit
    have hhead := headLines_line hu hl t
    have hlen : l.length < lineBufSize := hfit l (by rw [hhead]; simp)
    rw [(drop_line hlen t).1] at hrest
    rw [lineLen_short hlen, List.take_length] at hsp
    subst hrest
    obtain ⟨line, rfl⟩ := HeaderLine.exists_of_split hu hlen hsp
    obtain ⟨ls, t', hrest', hroom⟩ := ih (fun m hm => hfit m (by rw [hhead]; simp [hm]))
    refine ⟨line :: ls, t', ?_, ?_⟩
    · rw [hrest']
      simp
    · rw [hr', (headersAdd_room hc n v).1, List.length_append, List.length_singleton] at hroom
      rw [List.length_cons]
      omega

/-- What is accepted begins with a request. -/
theorem text_of_done {data : Bytes} (hfit : ∀ l ∈ headLines data, l.length < lineBufSize)
    (hd : (feed httpReqInit data).1.state = .done) : ∃ q : RequestText, q.text <+: data := by
  obtain ⟨l, t, hu, rfl, hparse, r', hr', hf, _⟩ := request_line_cases rfl hd
  have hl : l ≠ [] := by
    rintro rfl
    exact absurd hparse (by decide)
  have hhead := headLines_line hu hl t
  have hlen : l.length < lineBufSize := hfit l (by rw [hhead]; simp)
  rw [lineLen_short hlen, List.take_length] at hparse hr'
  rw [(drop_line hlen t).1] at hf
  obtain ⟨hline, hm, hp, hv, hheaders, _⟩ := parseRequestLine_ok hparse
  obtain ⟨unseen, hsplit, hnul⟩ := cstr_split l
  have htext : l = lineText (parseRequestLine httpReqInit l).1.method.text
      (parseRequestLine httpReqInit l).1.path.text
      (parseRequestLine httpReqInit l).1.version.text unseen := by
    conv => lhs; rw [hsplit, ← hline]
    simp [HttpReq.requestLine, lineText]
  have hs' : r'.state = .header := by rw [hr']
  have hempty : r'.headers.entries = [] := by
    rw [hr']
    exact congrArg Headers.entries hheaders
  rw [hf] at hd
  obtain ⟨ls, rest, rfl, hroom⟩ := header_lines_of_done hs' hd
    (fun m hm => hfit m (by rw [hhead]; simp [hm]))
  obtain ⟨table, htable, hread⟩ := feed_header_lines (cr :: lf :: rest) hs' hroom
  rw [hempty, List.length_nil, Nat.zero_add] at hroom
  obtain rfl : table = tableOf ls hroom := by
    ext1
    rw [htable, hempty]
    rfl
  rw [hread, feed_empty_line (by exact hs'), feed_headEnd_state] at hd
  have hbody : bodyCount (bodyLength (tableOf ls hroom)) ≤ rest.length := by
    by_contra hshort
    rw [if_neg hshort] at hd
    cases hd
  refine ⟨⟨_, _, _, unseen, ls, rest.take (bodyCount (bodyLength (tableOf ls hroom))), hm, hp, hv,
    hnul, htext ▸ hu, htext ▸ hlen, hroom, List.length_take_of_le hbody⟩,
    rest.drop (bodyCount (bodyLength (tableOf ls hroom))), ?_⟩
  simp only [RequestText.text, RequestText.headerTexts, RequestText.line, ← htext, unlines_cons,
    unlines_append, unlines_nil]
  simp

theorem header_texts_unique {ls ms : List HeaderLine} {t u : Bytes}
    (h : unlines cr lf (ls.map HeaderLine.text) ++ cr :: lf :: t =
      unlines cr lf (ms.map HeaderLine.text) ++ cr :: lf :: u) : ls = ms ∧ t = u := by
  induction ls generalizing ms with
  | nil =>
    cases ms with
    | nil => simpa using h
    | cons m ms =>
      rw [List.map_cons, unlines_cons, List.append_assoc] at h
      obtain ⟨hnil, _⟩ := line_unique cr_ne_lf (l := []) rfl m.text_unbroken h
      exact absurd hnil.symm m.text_ne_nil
  | cons l ls ih =>
    cases ms with
    | nil =>
      rw [List.map_cons, unlines_cons, List.append_assoc] at h
      obtain ⟨hnil, _⟩ := line_unique cr_ne_lf (m := []) l.text_unbroken rfl h
      exact absurd hnil l.text_ne_nil
    | cons m ms =>
      rw [List.map_cons, unlines_cons, List.append_assoc, List.map_cons, unlines_cons,
        List.append_assoc] at h
      obtain ⟨htext, hrest⟩ := line_unique cr_ne_lf l.text_unbroken m.text_unbroken h
      obtain ⟨rfl, rfl⟩ := ih hrest
      exact ⟨by rw [HeaderLine.text_injective htext], rfl⟩

/-- No input begins with two requests. -/
theorem text_unique {q q' : RequestText} {data : Bytes} (h : q.text <+: data)
    (h' : q'.text <+: data) : q = q' := by
  obtain ⟨more, hmore⟩ := h
  obtain ⟨more', hmore'⟩ := h'
  have hread := feed_text q more
  rw [hmore, ← hmore', feed_text q' more'] at hread
  obtain ⟨hparsed, hlength⟩ := Prod.mk.inj hread
  obtain ⟨htext, _⟩ := List.append_inj (hmore.trans hmore'.symm) hlength.symm
  have hmethod : q'.method = q.method := congrArg HttpReq.method hparsed
  have hpath : q'.path = q.path := congrArg HttpReq.path hparsed
  have hversion : q'.version = q.version := congrArg HttpReq.version hparsed
  simp only [RequestText.text, unlines_cons, List.append_assoc, List.cons_append] at htext
  obtain ⟨hline, hrest⟩ := line_unique cr_ne_lf q.line_unbroken q'.line_unbroken htext
  obtain ⟨hheaders, hbody⟩ := @header_texts_unique q.headers q'.headers q.body q'.body
    (by simpa [RequestText.headerTexts] using hrest)
  obtain ⟨method, path, version, unseen, headers, body, _⟩ := q
  obtain ⟨method', path', version', unseen', headers', body', _⟩ := q'
  dsimp only at hmethod hpath hversion hheaders hbody
  subst hmethod hpath hversion hheaders hbody
  obtain rfl : unseen = unseen' := by
    simpa [RequestText.line, lineText] using hline
  rfl

/-! ## What is refused -/

/-- A head is refused for a line without a colon or for one header too many. -/
theorem header_refused_iff {r : HttpReq} {rest : Bytes} (hs : r.state = .header)
    (hfit : ∀ l ∈ headLines rest, l.length < lineBufSize) :
    (feed r rest).1.state = .invalid ↔ (∃ l ∈ headLines rest, colon ∉ l) ∨
      httpHeaderMax < r.headers.entries.length + (headLines rest).length := by
  induction hn : rest.length using Nat.strongRecOn generalizing r rest with
  | ind n ih =>
    subst hn
    have hh : r.state.inHead = true := by rw [hs]; rfl
    have hcount := r.headers.count_le
    cases he : findEol cr lf rest with
    | none =>
      -- the line is not there yet
      have hstep : feedStep r rest = none := by rw [feedStep_head hh, he]; rfl
      have hnone : headLines rest = [] := by rw [headLines, lines_eq, he]; rfl
      rw [feed_none hstep, hs, hnone, List.length_nil]
      simp only [reduceCtorEq, List.not_mem_nil, false_and, exists_false, false_or, false_iff]
      omega
    | some k =>
      obtain ⟨hr, hu⟩ := findEol_some he
      generalize rest.take k = l at hr hu
      generalize rest.drop (k + 2) = t at hr
      subst hr
      by_cases hl : l = []
      · subst hl
        have hend : headLines ([] ++ cr :: lf :: t) = [] := by
          rw [headLines, headLines_cons hu rfl]
          rfl
        have hstate : (feed r ([] ++ cr :: lf :: t)).1.state ≠ .invalid := by
          rw [List.nil_append, feed_empty_line hs, feed_headEnd_state]
          split <;> simp
        rw [hend, List.length_nil]
        simp only [hstate, List.not_mem_nil, false_and, exists_false, false_or, false_iff]
        omega
      · have hhead := headLines_line hu hl t
        have hlen : l.length < lineBufSize := hfit l (by rw [hhead]; simp)
        have hstep := feedStep_line hh hu t
        rw [lineLen_short hlen, List.take_length, feedLine_header hs] at hstep
        rw [hhead, List.length_cons]
        rcases feedHeaderLine_cases (r := r) hl with hinv | ⟨nm, v, hsp, hroom⟩
        · rw [if_pos hinv] at hstep
          have hstate : (feed r (l ++ cr :: lf :: t)).1.state = .invalid := by
            rw [feed_some hstep, feed_final (by rw [hinv]; rfl), hinv]
          simp only [hstate, List.mem_cons, exists_eq_or_imp, true_iff]
          by_cases hc : colon ∈ l
          · -- the line is a header, so the table was full
            right
            by_contra hroom
            obtain ⟨line, hline⟩ : ∃ line : HeaderLine, line.text = l := by
              cases hsp : splitHeader l with
              | none => exact absurd hc (splitHeader_none.mp hsp)
              | some p => exact HeaderLine.exists_of_split hu hlen hsp
            rw [feedHeaderLine_add hl (hline ▸ line.split) (by omega), hs] at hinv
            cases hinv
          · exact .inl (.inl hc)
        · have hc : colon ∈ l := by
            by_contra hc
            rw [splitHeader_none.mpr hc] at hsp
            cases hsp
          have hadd := feedHeaderLine_add hl hsp hroom
          have hok : (feedLine r l).state ≠ .invalid := by
            rw [feedLine_header hs, hadd, hs]
            simp
          have hread := feed_line hh hu hlen hok t
          rw [feedLine_header hs, hadd] at hread
          have hentries := (headersAdd_room hroom nm v).1
          have hshorter : t.length < (l ++ cr :: lf :: t).length := by
            simp only [List.length_append, List.length_cons]
            omega
          have hrest := ih t.length hshorter (r := { r with headers := (headersAdd r.headers nm v).1 })
            hs (fun m hm => hfit m (by rw [hhead]; simp [hm])) rfl
          rw [hentries, List.length_append, List.length_singleton] at hrest
          rw [hread, hrest]
          simp only [List.mem_cons, exists_eq_or_imp, hc, not_true_eq_false, false_or]
          rw [show r.headers.entries.length + 1 + (headLines t).length =
            r.headers.entries.length + ((headLines t).length + 1) by omega]

/-- Lines of which one cannot stand where it does. -/
def RefusedLines : List Bytes → Prop
  | [] => False
  | l :: ls => ¬ IsRequestLine l ∨ (∃ m ∈ ls.takeWhile (· ≠ []), colon ∉ m) ∨
      httpHeaderMax < (ls.takeWhile (· ≠ [])).length

theorem refused_iff {data : Bytes} (hfit : ∀ l ∈ headLines data, l.length < lineBufSize) :
    (feed httpReqInit data).1.state = .invalid ↔ RefusedLines (lines cr lf data) := by
  cases he : findEol cr lf data with
  | none =>
    have hstep : feedStep httpReqInit data = none := by rw [feedStep_head rfl, he]; rfl
    have hnone : lines cr lf data = [] := by rw [lines_eq, he]
    rw [feed_none hstep, hnone]
    simp [RefusedLines, httpReqInit]
  | some k =>
    obtain ⟨hr, hu⟩ := findEol_some he
    generalize data.take k = l at hr hu
    generalize data.drop (k + 2) = t at hr
    subst hr
    have hlen : l.length < lineBufSize := by
      by_cases hl : l = []
      · rw [hl]
        decide
      · exact hfit l (by rw [headLines_line hu hl]; simp)
    have hstep := feedStep_line (r := httpReqInit) rfl hu t
    rw [lineLen_short hlen, List.take_length, feedLine_reqLine rfl] at hstep
    rw [headLines_cons hu rfl, RefusedLines]
    by_cases hp : (parseRequestLine httpReqInit l).2 = 0
    · have hl : l ≠ [] := by
        rintro rfl
        exact absurd hp (by decide)
      have hline := (parseRequestLine_iff httpReqInit l).mp hp
      have hok : (feedLine httpReqInit l).state ≠ .invalid := by
        rw [feedLine_reqLine rfl]
        simp [hp]
      have hs : (feedLine httpReqInit l).state = .header := by
        rw [feedLine_reqLine rfl]
        simp [hp]
      have hheaders : (feedLine httpReqInit l).headers.entries = [] := by
        rw [feedLine_reqLine rfl]
        exact congrArg Headers.entries (parseRequestLine_ok hp).2.2.2.2.1
      have hfit' : ∀ m ∈ headLines t, m.length < lineBufSize := by
        intro m hm
        apply hfit
        rw [headLines_line hu hl]
        exact List.mem_cons_of_mem _ hm
      have hrest := header_refused_iff hs hfit'
      rw [hheaders, List.length_nil, Nat.zero_add] at hrest
      rw [feed_line rfl hu hlen hok, hrest]
      simp only [hline, not_true_eq_false, false_or, headLines]
    · have hline : ¬ IsRequestLine l := fun h => hp ((parseRequestLine_iff httpReqInit l).mpr h)
      simp only [hp, ne_eq, not_false_eq_true, if_true] at hstep
      rw [feed_some hstep, feed_final rfl]
      simp [hline]

/-! ## The parser as a recogniser -/

/-- **A request is read whole, however it comes.** For every request that a client can write,
    cut into chunks in any way and followed by anything: the parser reaches `HP_DONE` with
    exactly its method, path, version and headers, and consumes its text and nothing of
    what follows. -/
theorem request_read (q : RequestText) (more : Bytes) (chunks : List Bytes)
    (hcut : chunks.flatten = q.text ++ more) :
    feedChunks httpReqInit chunks = (q.parsed, q.text.length) := by
  have hdrive : feedChunks httpReqInit chunks = feed httpReqInit chunks.flatten :=
    Reader.drive_eq_run feedReader_resumable feedStep_ok chunks httpReqInit [] httpReqInit_ok rfl
  rw [hdrive, hcut, feed_text]

/-- A header line with a length. -/
def lengthLine : HeaderLine where
  name := ascii "Content-Length"
  blanks := [sp]
  value := ascii "3"
  name_free := by decide +kernel
  blank := by decide +kernel
  value_head := by decide +kernel
  unbroken := by decide +kernel
  fits := by decide +kernel

/-- A request with a body. -/
def postText : RequestText where
  method := ⟨ascii "POST", by decide +kernel, by decide +kernel⟩
  path := ⟨ascii "/a", by decide +kernel, by decide +kernel⟩
  version := ⟨ascii "HTTP/1.1", by decide +kernel, by decide +kernel⟩
  unseen := []
  headers := [lengthLine]
  body := ascii "xyz"
  method_word := by decide +kernel
  path_word := by decide +kernel
  known := .inr rfl
  behind_nul := by simp
  unbroken := by decide +kernel
  fits := by decide +kernel
  room := by decide +kernel
  counted := by decide +kernel

theorem request_read_post :
    feedChunks httpReqInit [ascii "PO", ascii "ST /a HTTP/1.1\r\nContent-Length: 3\r",
      ascii "\n\r\nxyzG"] = (postText.parsed, postText.text.length) :=
  request_read postText (ascii "G") _ (by decide +kernel)

/-- **The parser accepts the requests and nothing else.** For every input of which the lines of
    the head fit the line buffer: it is taken to `HP_DONE` exactly when it begins with a
    request, which is then the only one; and to `HP_INVALID` exactly when its first line is no
    request line, a line of its head has no colon, or the head has more lines than the table
    has places. -/
theorem feed_verdict {data : Bytes} (hfit : ∀ l ∈ headLines data, l.length < lineBufSize) :
    ((feed httpReqInit data).1.state = .done ↔ ∃! q : RequestText, q.text <+: data) ∧
    ((feed httpReqInit data).1.state = .invalid ↔ RefusedLines (lines cr lf data)) := by
  refine ⟨⟨fun hd => ?_, ?_⟩, refused_iff hfit⟩
  · obtain ⟨q, hq⟩ := text_of_done hfit hd
    exact ⟨q, hq, fun q' hq' => text_unique hq' hq⟩
  · rintro ⟨q, ⟨more, rfl⟩, _⟩
    rw [feed_text]
    rfl

theorem feed_verdict_short :
    ((feed httpReqInit shortRequest).1.state = .done ↔
      ∃! q : RequestText, q.text <+: shortRequest) ∧
    ((feed httpReqInit shortRequest).1.state = .invalid ↔
      RefusedLines (lines cr lf shortRequest)) :=
  feed_verdict (by decide +kernel)

end NexusGateway
