import NexusGateway.RewriteWire
import NexusGateway.ContentLength

/- Reading back what the serialiser writes.

   The serialiser leaves out a header whose name is empty as a C string, and puts a
   blank behind the colon that the client's line need not have had, so a line can
   come out one byte longer than the line buffer holds. `serialize_round_trip_iff`:
   the bytes written for a parsed request read back as its request line and its
   headers that have a name exactly when the line of each of them fits, and none
   that then looks like a `content-length` asks for a body. -/
namespace NexusGateway
open CString Lines Incremental

/-! ## One line -/

theorem parsed_writable {data : Bytes} (hd : (feed httpReqInit data).1.state = .done) :
    Writable (feed httpReqInit data).1 where
  line := feed_done_line hd
  headers := fun e he => ((feed_wellRead data).headers e he).printable

theorem colon_unique {a b s t : Bytes} (ha : colon ∉ a) (hb : colon ∉ b)
    (h : a ++ colon :: s = b ++ colon :: t) : a = b := by
  have h1 := idxOf?_append ha s
  rw [h, idxOf?_append hb t] at h1
  exact (List.append_inj h (Option.some.inj h1).symm).1

theorem splitHeader_take {m s n v : Bytes} {k : Nat} (hm : colon ∉ m)
    (h : splitHeader ((m ++ colon :: s).take k) = some (n, v)) : n = m := by
  obtain ⟨hn, blanks, _, he, _⟩ := splitHeader_some h
  refine colon_unique hn hm ?_ (s := blanks ++ v ++ (m ++ colon :: s).drop k) (t := s)
  conv => rhs; rw [← List.take_append_drop k (m ++ colon :: s), he]
  simp

/-- The header a printed line reads back as. -/
def reprint (e : Header) : Header := Header.mk' e.cname (cstr e.value)

theorem reprint_name (e : Header) : (reprint e).name = e.cname := normalizeLower_cname e

theorem splitHeader_line {e : Header} (h : FromLine e) :
    splitHeader e.line = some (e.cname, cstr e.value) := by
  have hs := splitHeader_append h.printable.name (sp :: cstr e.value)
  rwa [List.dropWhile_cons_of_pos (by decide), h.value_head] at hs

theorem line_ne_nil (e : Header) : e.line ≠ [] := by
  simp [Header.line]

/-! ## What is read back -/

/-- The headers whose lines are written. -/
def printedOf (es : List Header) : List Header := es.filter Header.printed

/-- Lines that fit are read back whole: the headers are added in order, and all
    of the head is consumed. -/
theorem feed_printed {es : List Header} (hes : ∀ e ∈ es, FromLine e ∧ e.line.length < lineBufSize) :
    ∀ {r : HttpReq}, r.state = .header → r.headers.entries.length + es.length ≤ httpHeaderMax →
    ∃ h : Headers, h.entries = r.headers.entries ++ es.map reprint ∧
      feed r (unlines cr lf (es.map Header.line ++ [[]])) =
        (feedHeadEnd { r with headers := h }, (unlines cr lf (es.map Header.line ++ [[]])).length) := by
  induction es with
  | nil =>
    -- only the empty line is left
    intro r hs _
    refine ⟨r.headers, by simp, ?_⟩
    have hh : r.state.inHead = true := by rw [hs]; rfl
    have hstep := feedStep_line hh (l := []) rfl []
    have h0 : feedHeaderLine r [] = feedHeadEnd r := rfl
    have hinv : ¬ (feedHeadEnd r).state = .invalid := by
      simp only [feedHeadEnd]
      split <;> simp
    rw [List.length_nil, List.take_nil, feedLine_header hs, h0, if_neg hinv,
      lineLen_short (by decide)] at hstep
    show feed r [cr, lf] = (feedHeadEnd r, 2)
    rw [List.nil_append] at hstep
    rw [feed_some hstep, show [cr, lf].drop (0 + 2) = [] from rfl, feed_none (feedStep_nil _)]
    rfl
  | cons e es ih =>
    intro r hs hroom
    obtain ⟨hline, hfit⟩ := hes e (by simp)
    have hh : r.state.inHead = true := by rw [hs]; rfl
    have hc : r.headers.entries.length < httpHeaderMax := by
      rw [List.length_cons] at hroom
      omega
    have hadd := feedHeaderLine_add (r := r) (line_ne_nil e) (splitHeader_line hline) hc
    have hstep := feedStep_line hh hline.printable.line (unlines cr lf (es.map Header.line ++ [[]]))
    have hst : ¬ (feedHeaderLine r e.line).state = .invalid := by
      rw [hadd]
      simp [hs]
    obtain ⟨hdrop, _⟩ := drop_line hfit (unlines cr lf (es.map Header.line ++ [[]]))
    rw [lineLen_short hfit] at hdrop
    rw [lineLen_short hfit, List.take_length, feedLine_header hs, if_neg hst, hadd] at hstep
    have hentries := (headersAdd_room hc e.cname (cstr e.value)).1
    obtain ⟨h, he, hf⟩ := ih (fun m hm => hes m (by simp [hm]))
      (r := { r with headers := (headersAdd r.headers e.cname (cstr e.value)).1 }) hs
      (by rw [hentries, List.length_append]; simp only [List.length_cons] at hroom ⊢; simp; omega)
    refine ⟨h, ?_, ?_⟩
    · rw [he, hentries, List.map_cons, List.append_assoc]
      rfl
    · rw [List.map_cons, List.cons_append, unlines_cons, feed_some hstep, hdrop, hf]
      simp only [List.length_append, List.length_cons]
      congr 1
      omega

/-! ## What is not read back -/

/-- The headers of a list as C strings. -/
def seenOf (es : List Header) : List (Option (Bytes × Bytes)) :=
  es.map (fun e => some (e.cname, cstr e.value))

theorem cstr_lower_cname (e : Header) : cstr (normalizeLower e.cname) = e.cname := by
  rw [normalizeLower_cname, Header.cname, cstr_cstr]

/-- The text written for a list of headers and the end of the head. -/
def headText (es : List Header) : Bytes := unlines cr lf ((printedOf es).map Header.line ++ [[]])

theorem headText_cases (es : List Header) :
    (printedOf es = [] ∧ headText es = cr :: lf :: []) ∨
    ∃ p ps, printedOf es = p :: ps ∧ p ∈ es ∧ p.cname ≠ [] ∧
      headText es = p.line ++ cr :: lf :: unlines cr lf (ps.map Header.line ++ [[]]) := by
  cases hp : printedOf es with
  | nil => exact Or.inl ⟨rfl, by rw [headText, hp]; rfl⟩
  | cons p ps =>
    have hmem : p ∈ printedOf es := by rw [hp]; simp
    obtain ⟨hm, hpr⟩ := List.mem_filter.mp hmem
    exact Or.inr ⟨p, ps, rfl, hm, (printed_iff p).mp hpr, by rw [headText, hp]; simp⟩

/-- A header read off a line that begins in the line feed of the line before is none
    of those written. -/
theorem lf_not_read_back {es : List Header} (hes : ∀ e ∈ es, FromLine e) {r : HttpReq}
    (hs : r.state = .header) (hd : (feed r (lf :: headText es)).1.state = .done)
    (hseen : (feed r (lf :: headText es)).1.headers.seen cstr = r.headers.seen cstr ++ seenOf es) :
    False := by
  obtain ⟨l, t, hu, hr, hcase⟩ := header_line_cases hs hd
  rcases headText_cases es with ⟨_, htext⟩ | ⟨p, ps, hp, hpm, hpn, htext⟩
  · have hlu : Unbroken cr lf [lf] := rfl
    obtain ⟨rfl, _⟩ := line_unique cr_ne_lf hlu hu (by rw [htext] at hr; exact hr)
    rcases hcase with ⟨h0, _⟩ | ⟨n, v, _, _, hsp, _⟩
    · cases h0
    · have hnone : splitHeader ([lf].take (lineLen [lf].length)) = none := by decide
      rw [hnone] at hsp
      cases hsp
  · have hpf := (hes p hpm).printable
    have hlu : Unbroken cr lf (lf :: p.line) := Unbroken.cons (by decide) hpf.line
    obtain ⟨rfl, _⟩ := line_unique cr_ne_lf hlu hu (by rw [htext] at hr; exact hr)
    rcases hcase with ⟨h0, _⟩ | ⟨n, v, r', _, hsp, hc, hr', hf, _⟩
    · cases h0
    · have hcol : colon ∉ lf :: p.cname := by
        rw [List.mem_cons, not_or]
        exact ⟨by decide, hpf.name⟩
      have hn : n = lf :: p.cname := splitHeader_take (s := sp :: cstr p.value) hcol hsp
      obtain ⟨ys, hys, _⟩ := seen_next hs hc hr' hf hd hseen
      have hname : cstr (normalizeLower n) = lf :: p.cname := by
        rw [hn]
        show cstr (lf :: normalizeLower p.cname) = _
        rw [view_cstr.lf_cons, cstr_lower_cname]
      cases es with
      | nil => cases hys
      | cons e es =>
        injection hys with h1 _
        injection h1 with h1
        injection h1 with h1 _
        rw [hname] at h1
        by_cases he : e.printed = true
        · rw [printedOf, List.filter_cons_of_pos he] at hp
          injection hp with hp _
          rw [hp] at h1
          exact absurd (congrArg List.length h1) (by simp)
        · rw [printed_iff, not_not] at he
          rw [he] at h1
          cases h1

/-- Headers that are read back are written, on lines that fit. -/
theorem read_back_fits {es : List Header} (hes : ∀ e ∈ es, FromLine e) :
    ∀ {r : HttpReq}, r.state = .header → (feed r (headText es)).1.state = .done →
    (feed r (headText es)).1.headers.seen cstr = r.headers.seen cstr ++ seenOf es →
    ∀ e ∈ es, e.cname ≠ [] ∧ e.line.length < lineBufSize := by
  induction es with
  | nil =>
    intro r _ _ _ e he
    cases he
  | cons e es ih =>
    intro r hs hd hseen
    have hes' : ∀ m ∈ es, FromLine m := fun m hm => hes m (by simp [hm])
    obtain ⟨l, t, hu, hr, hcase⟩ := header_line_cases hs hd
    rcases headText_cases (e :: es) with ⟨_, htext⟩ | ⟨p, ps, hp, hpm, hpn, htext⟩
    · -- nothing is written, and `e` is missing
      exfalso
      obtain ⟨rfl, _⟩ := line_unique cr_ne_lf (l := []) rfl hu (by rw [htext] at hr; exact hr)
      rcases hcase with ⟨_, hsame, _⟩ | ⟨_, _, _, h0, _⟩
      · rw [hsame.2.2.2, seenOf, List.map_cons] at hseen
        exact absurd (congrArg List.length hseen) (by simp)
      · exact h0 rfl
    · have hpf := (hes p hpm).printable
      obtain ⟨rfl, rfl⟩ := line_unique cr_ne_lf hpf.line hu (by rw [htext] at hr; exact hr)
      rcases hcase with ⟨h0, _⟩ | ⟨n, v, r', _, hsp, hc, hr', hf, _⟩
      · exact absurd h0 (line_ne_nil p)
      · have hn : n = p.cname := splitHeader_take (s := sp :: cstr p.value) hpf.name hsp
        obtain ⟨ys, hys, hseen'⟩ := seen_next hs hc hr' hf hd hseen
        injection hys with h1 hys
        injection h1 with h1
        injection h1 with h1 _
        subst hys
        rw [hn, cstr_lower_cname] at h1
        -- the line read is that of `e`
        have he : e.printed = true := by
          rw [printed_iff, h1]
          exact hpn
        rw [printedOf, List.filter_cons_of_pos he] at hp
        injection hp with hp hps
        subst hp hps
        have hs' : r'.state = .header := by rw [hr']; exact hs
        rw [hf] at hd
        rw [htext] at hd hseen'
        have hfit : e.line.length < lineBufSize := by
          apply Classical.byContradiction
          intro hlong
          -- the client's line had one byte less, so this one is over by the blank alone
          have hlen := (hes e (by simp)).length
          have h2 := cstr_length_le e.name
          have h3 := cstr_length_le e.value
          have h1024 : e.line.length = 1024 := by
            simp only [Header.line, List.length_append, List.length_cons, lineBufSize] at hlen hlong ⊢
            omega
          rw [lineLen_long (Nat.le_of_not_lt hlong)] at hd hseen'
          have hdrop : (e.line ++ cr :: lf :: headText es).drop (lineBufSize - 1 + 2) =
              lf :: headText es := by
            rw [show lineBufSize - 1 + 2 = e.line.length + 1 by rw [h1024]; rfl,
              List.drop_length_add_append]
            rfl
          exact lf_not_read_back hes' hs' (hdrop ▸ hd) (hdrop ▸ hseen')
        have hdrop : (e.line ++ cr :: lf :: headText es).drop (lineLen e.line.length + 2) =
            headText es := (drop_line hfit (headText es)).1
        have hrest := ih hes' hs' (hdrop ▸ hd) (hdrop ▸ hseen')
        intro m hm
        rcases List.mem_cons.mp hm with rfl | hm
        · exact ⟨hpn, hfit⟩
        · exact hrest m hm

/-! ## The round trip -/

/-- A fresh request that is fed the text takes all of it, reaches `HP_DONE` and has
    the request's line and its headers that have a name, in order, each buffer read
    through `view`. -/
def ReadsBack (view : Bytes → Bytes) (r : HttpReq) (text : Bytes) : Prop :=
  (feed httpReqInit text).1.state = .done ∧ (feed httpReqInit text).2 = text.length ∧
  (feed httpReqInit text).1.method = r.method ∧ (feed httpReqInit text).1.path = r.path ∧
  (feed httpReqInit text).1.version = r.version ∧
  (feed httpReqInit text).1.headers.seen view =
    (printedOf r.headers.entries).map (fun e => some (view e.name, view e.value))

/-- The printed line of every header that has a name fits the line buffer. -/
def Reprintable (h : Headers) : Prop :=
  ∀ e ∈ h.entries, e.cname ≠ [] → e.cname.length + (cstr e.value).length + 2 < lineBufSize

/-- The first header that prints a name of the hash of `content-length`, if there is
    one, gives no positive length. -/
def AsksNoBody (h : Headers) : Prop :=
  ∀ e, h.entries.find? (fun e => hashFnv1a e.cname == hashFnv1a contentLength) = some e →
    ¬ 0 < atoi e.value

theorem atoi_cstr (s : Bytes) : atoi (cstr s) = atoi s := by
  simp only [atoi, strtol, cstr_cstr]

/-- A header without a name has not the hash of `content-length`. -/
theorem printed_of_hash {e : Header}
    (h : (hashFnv1a e.cname == hashFnv1a contentLength) = true) : e.printed = true := by
  rw [printed_iff]
  intro h0
  rw [h0] at h
  revert h
  decide +kernel

theorem bodyLength_reprint {h h' : Headers}
    (he : h'.entries = (printedOf h.entries).map reprint) :
    ¬ 0 < bodyLength h' ↔ AsksNoBody h := by
  have hname : normalizeLowerStrdup contentLength = contentLength := by decide
  have hprinted : (printedOf h.entries).find? (fun e => hashFnv1a e.cname == hashFnv1a contentLength) =
      h.entries.find? (fun e => hashFnv1a e.cname == hashFnv1a contentLength) := by
    rw [printedOf, List.find?_filter]
    congr 1
    funext e
    cases hp : hashFnv1a e.cname == hashFnv1a contentLength with
    | false => simp
    | true => simp [printed_of_hash hp]
  have hfind : headersFind h' contentLength =
      (h.entries.find? (fun e => hashFnv1a e.cname == hashFnv1a contentLength)).map reprint := by
    rw [headersFind, he, List.find?_map, hname, ← hprinted]
    congr 2
    funext e
    show ((reprint e).hash == hashFnv1a contentLength) = _
    rw [(reprint e).hash_eq, reprint_name]
  rw [bodyLength_eq, hfind, AsksNoBody]
  cases h.entries.find? (fun e => hashFnv1a e.cname == hashFnv1a contentLength) with
  | none => simp
  | some e =>
    show ¬ 0 < atoi (cstr e.value) ↔ _
    rw [atoi_cstr]
    simp

/-- The serialised request line is read back, and what follows is read in `HP_HEADER`. -/
theorem feed_serialText {r : HttpReq} (hw : Writable r) :
    ∃ r1, r1.state = .header ∧ r1.headers = headersInit ∧ r1.method = r.method ∧
      r1.path = r.path ∧ r1.version = r.version ∧
      (serialText r).length = r.requestLine.length + 2 + (headText r.headers.entries).length ∧
      feed httpReqInit (serialText r) = ((feed r1 (headText r.headers.entries)).1,
        r.requestLine.length + 2 + (feed r1 (headText r.headers.entries)).2) := by
  obtain ⟨⟨line, hu, hlen, hline⟩, hm, hp, hv⟩ := hw.line
  have htext : serialText r = r.requestLine ++ cr :: lf :: headText r.headers.entries := by
    simp [serialText, serialLines, headText, printedOf]
  have hfit : r.requestLine.length < lineBufSize := by
    rw [hline]
    exact Nat.lt_of_le_of_lt (cstr_length_le line) hlen
  have hunb : Unbroken cr lf r.requestLine := by
    rw [hline]
    exact Unbroken.cstr hu
  have hstep := feedStep_line (r := httpReqInit) rfl hunb (headText r.headers.entries)
  have hparse : parseRequestLine httpReqInit r.requestLine = _ :=
    parseRequestLine_spell httpReqInit r.method r.path r.version hm hp hv
  obtain ⟨hdrop, _⟩ := drop_line hfit (headText r.headers.entries)
  rw [lineLen_short hfit] at hdrop
  rw [lineLen_short hfit, List.take_length, feedLine_reqLine rfl, hparse] at hstep
  simp only [ne_eq, not_true_eq_false, if_false, reduceCtorEq] at hstep
  refine ⟨{ httpReqInit with
    method := r.method, path := r.path, version := r.version, state := .header },
    rfl, rfl, rfl, rfl, rfl, ?_, ?_⟩
  · rw [htext]
    simp only [List.length_append, List.length_cons]
    omega
  · rw [htext, feed_some hstep, hdrop]

theorem headText_printedOf (es : List Header) : headText (printedOf es) = headText es := by
  simp only [headText, printedOf, List.filter_filter, Bool.and_self]

theorem feed_reprintable {r : HttpReq} (hf : ∀ e ∈ r.headers.entries, FromLine e)
    (hr : Reprintable r.headers) {r1 : HttpReq} (hs : r1.state = .header)
    (hh : r1.headers = headersInit) :
    ∃ h : Headers, h.entries = (printedOf r.headers.entries).map reprint ∧
      feed r1 (headText r.headers.entries) =
        (feedHeadEnd { r1 with headers := h }, (headText r.headers.entries).length) := by
  have hes : ∀ e ∈ printedOf r.headers.entries, FromLine e ∧ e.line.length < lineBufSize := by
    intro e he
    obtain ⟨hm, hp⟩ := List.mem_filter.mp he
    refine ⟨hf e hm, ?_⟩
    have := hr e hm ((printed_iff e).mp hp)
    simp only [Header.line, Header.cname, List.length_append, List.length_cons] at this ⊢
    omega
  have hroom : r1.headers.entries.length + (printedOf r.headers.entries).length ≤ httpHeaderMax := by
    have h1 := List.length_filter_le Header.printed r.headers.entries
    have h2 := r.headers.count_le
    rw [hh, printedOf]
    simp only [headersInit_entries, List.length_nil]
    omega
  obtain ⟨h, he, hfeed⟩ := feed_printed hes hs hroom
  rw [hh] at he
  exact ⟨h, he, hfeed⟩

theorem readsBack_cstr_iff {r : HttpReq} (hw : Writable r)
    (hf : ∀ e ∈ r.headers.entries, FromLine e) :
    ReadsBack cstr r (serialText r) ↔ Reprintable r.headers ∧ AsksNoBody r.headers := by
  obtain ⟨r1, hs, hh, hm, hp, hv, hlen, hfeed⟩ := feed_serialText hw
  have hempty : r1.headers.seen cstr = [] := by rw [hh]; rfl
  constructor
  · intro hyp
    obtain ⟨hd, _, _, _, _, hseen⟩ := hyp
    -- the headers alone force the lines to fit, the state then forces the length
    rw [hfeed] at hd hseen
    have hf' : ∀ e ∈ printedOf r.headers.entries, FromLine e :=
      fun e he => hf e (List.mem_filter.mp he).1
    have hd' := hd
    rw [← headText_printedOf] at hd' hseen
    have hfit := read_back_fits hf' hs hd' (by rw [hempty]; exact hseen)
    have hr : Reprintable r.headers := by
      intro e he hn
      have := (hfit e (List.mem_filter.mpr ⟨he, (printed_iff e).mpr hn⟩)).2
      simp only [Header.line, Header.cname, List.length_append, List.length_cons] at this ⊢
      omega
    refine ⟨hr, ?_⟩
    obtain ⟨h, he, hlast⟩ := feed_reprintable hf hr hs hh
    rw [hlast] at hd
    apply (bodyLength_reprint he).mp
    intro hpos
    simp [feedHeadEnd, hpos] at hd
  · intro hyp
    obtain ⟨hr, hbody⟩ := hyp
    obtain ⟨h, he, hlast⟩ := feed_reprintable hf hr hs hh
    have hzero := (bodyLength_reprint he).mpr hbody
    rw [ReadsBack, hfeed, hlast, hlen]
    refine ⟨?_, rfl, hm, hp, hv, ?_⟩
    · simp [feedHeadEnd, hzero]
    · show h.seen cstr = _
      rw [Headers.seen, he, List.map_map]
      apply List.map_congr_left
      intro e _
      show some (cstr (reprint e).name, cstr (cstr e.value)) = some (e.cname, cstr e.value)
      rw [reprint_name, cstr_cstr, Header.cname, cstr_cstr]

theorem readsBack_id_iff {r : HttpReq} (hw : Writable r)
    (hf : ∀ e ∈ r.headers.entries, FromLine e) :
    ReadsBack id r (serialText r) ↔ (Reprintable r.headers ∧ AsksNoBody r.headers) ∧
      ∀ e ∈ r.headers.entries, e.cname ≠ [] → NulFree e.name ∧ NulFree e.value := by
  obtain ⟨r1, hs, hh, _, _, _, _, hfeed⟩ := feed_serialText hw
  -- what is read back is NUL-free
  have hback (hr : Reprintable r.headers) :
      (feed httpReqInit (serialText r)).1.headers.seen id = seenOf (printedOf r.headers.entries) := by
    obtain ⟨h, he, hlast⟩ := feed_reprintable hf hr hs hh
    rw [hfeed, hlast]
    show h.seen id = _
    rw [Headers.seen, he, List.map_map, seenOf]
    apply List.map_congr_left
    intro e _
    show some ((reprint e).name, cstr e.value) = _
    rw [reprint_name]
  constructor
  · intro hyp
    obtain ⟨hd, hn, hm, hp, hv, hseen⟩ := hyp
    -- buffers that agree whole agree as C strings
    have hcstr : ReadsBack cstr r (serialText r) := by
      refine ⟨hd, hn, hm, hp, hv, ?_⟩
      have h := congrArg (List.map (Option.map (fun p : Bytes × Bytes => (cstr p.1, cstr p.2)))) hseen
      rw [Headers.seen, List.map_map, List.map_map] at h
      exact h
    have hcond := (readsBack_cstr_iff hw hf).mp hcstr
    refine ⟨hcond, fun e he hname => ?_⟩
    rw [hback hcond.1] at hseen
    have heq := List.map_inj_left.mp hseen e
      (List.mem_filter.mpr ⟨he, (printed_iff e).mpr hname⟩)
    simp only [Option.some.injEq, Prod.mk.injEq] at heq
    exact ⟨cstr_eq_self_iff.mp heq.1, cstr_eq_self_iff.mp heq.2⟩
  · intro hyp
    obtain ⟨hcond, hnul⟩ := hyp
    obtain ⟨hd, hn, hm, hp, hv, _⟩ := (readsBack_cstr_iff hw hf).mpr hcond
    refine ⟨hd, hn, hm, hp, hv, ?_⟩
    rw [hback hcond.1]
    apply List.map_inj_left.mpr
    intro e he
    obtain ⟨hmem, hpr⟩ := List.mem_filter.mp he
    obtain ⟨h1, h2⟩ := hnul e hmem ((printed_iff e).mp hpr)
    show some (cstr e.name, cstr e.value) = some (e.name, e.value)
    rw [cstr_of_nulFree h1, cstr_of_nulFree h2]

/-- **When a request survives being written and read.** For every request the parser
    takes to `HP_DONE` and every buffer it is written into: the bytes read back as
    the request line and the headers that have a name, their strings read as C
    strings, exactly when each of these has at most 1021 bytes of name and value and
    none of them asks for a body; their buffers read whole, exactly when moreover
    none of them has a NUL. -/
theorem serialize_round_trip_iff {data : Bytes} (hd : (feed httpReqInit data).1.state = .done)
    {out text : Bytes} (hs : serialized (feed httpReqInit data).1 out = some text) :
    (ReadsBack cstr (feed httpReqInit data).1 text ↔
      Reprintable (feed httpReqInit data).1.headers ∧
      AsksNoBody (feed httpReqInit data).1.headers) ∧
    (ReadsBack id (feed httpReqInit data).1 text ↔
      (Reprintable (feed httpReqInit data).1.headers ∧
      AsksNoBody (feed httpReqInit data).1.headers) ∧
      ∀ e ∈ (feed httpReqInit data).1.headers.entries, e.cname ≠ [] →
        NulFree e.name ∧ NulFree e.value) := by
  have hw := parsed_writable hd
  have hf := (feed_wellRead data).headers
  rw [((serialized_eq_some hw.length).mp hs).1]
  exact ⟨readsBack_cstr_iff hw hf, readsBack_id_iff hw hf⟩

theorem serialize_round_trip_iff_short :
    (ReadsBack cstr (feed httpReqInit shortRequest).1 (serialText (feed httpReqInit shortRequest).1) ↔
      Reprintable (feed httpReqInit shortRequest).1.headers ∧
      AsksNoBody (feed httpReqInit shortRequest).1.headers) ∧
    (ReadsBack id (feed httpReqInit shortRequest).1 (serialText (feed httpReqInit shortRequest).1) ↔
      (Reprintable (feed httpReqInit shortRequest).1.headers ∧
      AsksNoBody (feed httpReqInit shortRequest).1.headers) ∧
      ∀ e ∈ (feed httpReqInit shortRequest).1.headers.entries, e.cname ≠ [] →
        NulFree e.name ∧ NulFree e.value) :=
  have hd : (feed httpReqInit shortRequest).1.state = .done := by decide +kernel
  have hs := (serialized_eq_some (parsed_writable hd).length).mpr
    ⟨rfl, show _ < (List.replicate 4096 (0 : UInt8)).length by decide +kernel⟩
  serialize_round_trip_iff hd hs

/-- A header without a name is stored and not written. -/
def namelessRequest : Bytes := ascii "GET / HTTP/1.1\r\n: x\r\n\r\n"

theorem serialize_drops_nameless :
    (feed httpReqInit namelessRequest).1.state = .done ∧
    (feed httpReqInit namelessRequest).2 = (headTaken httpReqInit namelessRequest).length ∧
    serialized (feed httpReqInit namelessRequest).1 (List.replicate 4096 0) =
      some (ascii "GET / HTTP/1.1\r\n\r\n") ∧
    (feed httpReqInit namelessRequest).1.headers.seen cstr = [some ([], ascii "x")] ∧
    (feed httpReqInit (ascii "GET / HTTP/1.1\r\n\r\n")).1.headers.seen cstr = [] := by
  exact ⟨by decide +kernel, by decide +kernel, by decide +kernel, by decide +kernel,
    by decide +kernel⟩

end NexusGateway
