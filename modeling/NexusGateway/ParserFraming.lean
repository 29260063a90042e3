import NexusGateway.HttpParser

/- How the parser cuts its input into a request line, header lines and a body.

   `headTaken` and `bodyTaken` are the bytes a call consumes while it reads lines
   and while it counts the body. `HeadFaithful` says that the stored request is the
   whole first line of the input and one header for each whole line after it, and
   that the head ends with the first empty line. `feed_framing_iff`: on inputs that
   reach `HP_DONE` this holds exactly when every line of the head fits the line
   buffer and the request line has no NUL. A longer line is stored cut, and the
   loop goes on in the middle of it. -/
namespace NexusGateway
open CString Lines Incremental

/-! ## Runs -/

theorem feed_none {r : HttpReq} {data : Bytes} (h : feedStep r data = none) :
    feed r data = (r, 0) := Reader.run_none h

theorem feed_some {r r' : HttpReq} {data : Bytes} {n : Nat} (h : feedStep r data = some (r', n)) :
    feed r data = ((feed r' (data.drop n)).1, n + (feed r' (data.drop n)).2) :=
  Reader.run_some h

theorem feed_final {r : HttpReq} (h : r.state.final = true) (data : Bytes) :
    feed r data = (r, 0) := feed_none (feedStep_final h data)

/-- The bytes consumed in the passes that begin in a state with `p`. -/
def takenIn (p : HpState → Bool) (r : HttpReq) (data : Bytes) : Bytes :=
  (((feedReader.trace r data).filter (fun t => p t.1.state)).map Prod.snd).flatten

/-- The bytes consumed as lines. -/
def headTaken (r : HttpReq) (data : Bytes) : Bytes := takenIn HpState.inHead r data

/-- The bytes counted as body. -/
def bodyTaken (r : HttpReq) (data : Bytes) : Bytes := takenIn (· == .body) r data

theorem takenIn_none {p : HpState → Bool} {r : HttpReq} {data : Bytes}
    (h : feedStep r data = none) : takenIn p r data = [] := by
  rw [takenIn, Reader.trace_none (m := feedReader) h]
  rfl

theorem takenIn_some {p : HpState → Bool} {r r' : HttpReq} {data : Bytes} {n : Nat}
    (h : feedStep r data = some (r', n)) :
    takenIn p r data = (if p r.state then data.take n else []) ++ takenIn p r' (data.drop n) := by
  rw [takenIn, Reader.trace_some (m := feedReader) h]
  cases hp : p r.state <;> simp [hp, takenIn]

/-- The request line and the table of one request are another's. -/
def SameHead (r r' : HttpReq) : Prop :=
  r'.method = r.method ∧ r'.path = r.path ∧ r'.version = r.version ∧ r'.headers = r.headers

theorem SameHead.refl (r : HttpReq) : SameHead r r := ⟨rfl, rfl, rfl, rfl⟩

theorem SameHead.trans {r s t : HttpReq} (h : SameHead r s) (k : SameHead s t) : SameHead r t :=
  ⟨k.1.trans h.1, k.2.1.trans h.2.1, k.2.2.1.trans h.2.2.1, k.2.2.2.trans h.2.2.2⟩

theorem step_after_head {r r' : HttpReq} {rest : Bytes} {n : Nat}
    (h : r.state.inHead = false) (hs : feedStep r rest = some (r', n)) :
    r'.state.inHead = false ∧ SameHead r r' := by
  rcases feedStep_cases hs with ⟨_, _, he⟩ | ⟨hh, _⟩
  · have hr : r' = (feedBody r rest.length).1 := congrArg Prod.fst he
    rw [hr]
    refine ⟨?_, rfl, rfl, rfl, rfl⟩
    simp only [feedBody]
    split <;> split <;> rfl
  · rw [h] at hh
    cases hh

theorem feed_after_head {r : HttpReq} (h : r.state.inHead = false) (rest : Bytes) :
    SameHead r (feed r rest).1 ∧ headTaken r rest = [] := by
  let I : HttpReq → Prop := fun s => s.state.inHead = false ∧ SameHead r s
  have hstep : ∀ s xs s' n, I s → feedReader.step s xs = some (s', n) → I s' := by
    intro s xs s' n hi hs
    obtain ⟨h1, h2⟩ := step_after_head hi.1 hs
    exact ⟨h1, hi.2.trans h2⟩
  have hI : I r := ⟨h, SameHead.refl r⟩
  refine ⟨(Reader.run_inv hstep r rest hI).2, ?_⟩
  have ht := Reader.trace_inv hstep r rest hI
  have : (feedReader.trace r rest).filter (fun t => t.1.state.inHead) = [] := by
    rw [List.filter_eq_nil_iff]
    intro t hm
    simp [(ht t hm).1]
  rw [headTaken, takenIn, this]
  rfl

/-! ## One line -/

/-- What stands in front of the parser when it has found a line: the line, its end
    and the rest. -/
theorem feedStep_line {r : HttpReq} (h : r.state.inHead = true) {l : Bytes}
    (hl : Unbroken cr lf l) (t : Bytes) :
    feedStep r (l ++ cr :: lf :: t) =
      some (feedLine r (l.take (lineLen l.length)),
        if (feedLine r (l.take (lineLen l.length))).state = .invalid then 0
        else lineLen l.length + 2) := by
  rw [feedStep_head h, findEol_line cr_ne_lf hl, Option.map_some,
    List.take_append_of_le_length (lineLen_le _)]

theorem drop_line {l : Bytes} (h : l.length < lineBufSize) (t : Bytes) :
    (l ++ cr :: lf :: t).drop (lineLen l.length + 2) = t ∧
    (l ++ cr :: lf :: t).take (lineLen l.length + 2) = l ++ [cr, lf] := by
  rw [lineLen_short h]
  constructor
  · rw [← List.drop_drop, List.drop_left]
    rfl
  · rw [List.take_add, List.take_left, List.drop_left]
    rfl

/-- In a state of the head, an input that reaches `HP_DONE` has a line in front. It is
    not refused, and the loop goes on behind as much of it as fitted the buffer. -/
theorem line_in_front {r : HttpReq} (h : r.state.inHead = true) {rest : Bytes}
    (hd : (feed r rest).1.state = .done) :
    ∃ l t r', Unbroken cr lf l ∧ rest = l ++ cr :: lf :: t ∧
      r' = feedLine r (l.take (lineLen l.length)) ∧ r'.state ≠ .invalid ∧
      (feed r rest).1 = (feed r' (rest.drop (lineLen l.length + 2))).1 ∧
      headTaken r rest = rest.take (lineLen l.length + 2) ++
        headTaken r' (rest.drop (lineLen l.length + 2)) := by
  cases he : findEol cr lf rest with
  | none =>
    have hn : feedStep r rest = none := by rw [feedStep_head h, he]; rfl
    rw [feed_none hn] at hd
    rw [hd] at h
    cases h
  | some k =>
    obtain ⟨hr, hu⟩ := findEol_some he
    have hk := findEol_le he
    have hlen : (rest.take k).length = k := by rw [List.length_take]; omega
    generalize rest.take k = l at hr hu hlen
    generalize rest.drop (k + 2) = t at hr
    have hstep := feedStep_line h hu t
    rw [← hr] at hstep
    -- a refused line would leave the request in `HP_INVALID`
    have hok : (feedLine r (l.take (lineLen l.length))).state ≠ .invalid := by
      intro hinv
      rw [feed_some hstep, feed_final (by rw [hinv]; rfl), hinv] at hd
      cases hd
    rw [if_neg hok] at hstep
    refine ⟨l, t, _, hu, hr, rfl, hok, ?_, ?_⟩
    · rw [feed_some hstep]
    · rw [headTaken, takenIn_some hstep, if_pos h, headTaken]

/-- In `HP_HEADER` the line ends the head or adds a header. -/
theorem header_line_cases {r : HttpReq} (hs : r.state = .header) {rest : Bytes}
    (hd : (feed r rest).1.state = .done) :
    ∃ l t, Unbroken cr lf l ∧ rest = l ++ cr :: lf :: t ∧
      ((l = [] ∧ SameHead r (feed r rest).1 ∧ headTaken r rest = [cr, lf]) ∨
       ∃ n v r', l ≠ [] ∧ splitHeader (l.take (lineLen l.length)) = some (n, v) ∧
        r.headers.entries.length < httpHeaderMax ∧
        r' = { r with headers := (headersAdd r.headers n v).1 } ∧
        (feed r rest).1 = (feed r' (rest.drop (lineLen l.length + 2))).1 ∧
        headTaken r rest = rest.take (lineLen l.length + 2) ++
          headTaken r' (rest.drop (lineLen l.length + 2))) := by
  obtain ⟨l, t, r', hu, hr, hr', hok, hf, htk⟩ := line_in_front (by rw [hs]; rfl) hd
  rw [feedLine_header hs] at hr'
  refine ⟨l, t, hu, hr, ?_⟩
  by_cases hl : l = []
  · left
    subst hl
    have hend : r' = feedHeadEnd r := hr'.trans (by rw [List.take_nil]; rfl)
    have hin : r'.state.inHead = false := by
      rw [hend]
      simp only [feedHeadEnd]
      split <;> rfl
    have hsame : SameHead r r' := by
      rw [hend]
      exact ⟨rfl, rfl, rfl, rfl⟩
    obtain ⟨h1, h2⟩ := feed_after_head hin (rest.drop (lineLen 0 + 2))
    refine ⟨rfl, ?_, ?_⟩
    · rw [hf]
      exact hsame.trans h1
    · rw [htk, List.length_nil, h2, hr]
      rfl
  · right
    -- a line that is not empty is not cut to nothing
    have hbuf : l.take (lineLen l.length) ≠ [] := by
      have hpos := List.length_pos_of_ne_nil hl
      have hlen : lineLen l.length ≠ 0 := by
        unfold lineLen lineBufSize
        split <;> omega
      rw [ne_eq, List.take_eq_nil_iff, not_or]
      exact ⟨hlen, hl⟩
    rcases feedHeaderLine_cases (r := r) hbuf with hi | ⟨n, v, hsp, hc⟩
    · exact absurd (hr' ▸ hi) hok
    · exact ⟨n, v, r', hl, hsp, hc, hr'.trans (feedHeaderLine_add hbuf hsp hc), hf, htk⟩

/-- In `HP_REQ_LINE` it is a request line. -/
theorem request_line_cases {r : HttpReq} (hs : r.state = .reqLine) {rest : Bytes}
    (hd : (feed r rest).1.state = .done) :
    ∃ l t, Unbroken cr lf l ∧ rest = l ++ cr :: lf :: t ∧
      (parseRequestLine r (l.take (lineLen l.length))).2 = 0 ∧
      ∃ r', r' = { (parseRequestLine r (l.take (lineLen l.length))).1 with state := .header } ∧
        (feed r rest).1 = (feed r' (rest.drop (lineLen l.length + 2))).1 ∧
        headTaken r rest = rest.take (lineLen l.length + 2) ++
          headTaken r' (rest.drop (lineLen l.length + 2)) := by
  obtain ⟨l, t, r', hu, hr, hr', hok, hf, htk⟩ := line_in_front (by rw [hs]; rfl) hd
  rw [feedLine_reqLine hs] at hr'
  by_cases hp : (parseRequestLine r (l.take (lineLen l.length))).2 = 0
  · refine ⟨l, t, hu, hr, hp, r', ?_, hf, htk⟩
    rw [hr', if_neg (not_not.mpr hp)]
  · rw [if_pos hp] at hr'
    exact absurd (by rw [hr']) hok

/-- Induction over the header lines of an input that reaches `HP_DONE`: the line in
    front is the empty one, or it adds a header and what is left is shorter. -/
theorem header_run_induction {P : HttpReq → Bytes → Prop}
    (last : ∀ r t, SameHead r (feed r (cr :: lf :: t)).1 →
      headTaken r (cr :: lf :: t) = [cr, lf] → P r (cr :: lf :: t))
    (next : ∀ r l t n v r' rest', Unbroken cr lf l → l ≠ [] →
      splitHeader (l.take (lineLen l.length)) = some (n, v) →
      r.headers.entries.length < httpHeaderMax →
      r' = { r with headers := (headersAdd r.headers n v).1 } →
      rest' = (l ++ cr :: lf :: t).drop (lineLen l.length + 2) →
      (feed r (l ++ cr :: lf :: t)).1 = (feed r' rest').1 →
      headTaken r (l ++ cr :: lf :: t) =
        (l ++ cr :: lf :: t).take (lineLen l.length + 2) ++ headTaken r' rest' →
      P r' rest' → P r (l ++ cr :: lf :: t))
    {r : HttpReq} {rest : Bytes} (hs : r.state = .header) (hd : (feed r rest).1.state = .done) :
    P r rest := by
  induction hn : rest.length using Nat.strongRecOn generalizing r rest with
  | ind n ih =>
    subst hn
    obtain ⟨l, t, hu, rfl, hcase⟩ := header_line_cases hs hd
    rcases hcase with ⟨rfl, hsame, htk⟩ | ⟨nm, v, r', hl, hsp, hc, hr', hf, htk⟩
    · exact last r t hsame htk
    · apply next r l t nm v r' _ hu hl hsp hc hr' rfl hf htk
      refine ih _ ?_ ?_ (hf ▸ hd) rfl
      · rw [List.length_drop]
        simp only [List.length_append, List.length_cons]
        omega
      · rw [hr']
        exact hs

/-! ## The head the input has -/

/-- The lines of an input before its first empty one. -/
def headLines (data : Bytes) : List Bytes := (lines cr lf data).takeWhile (· ≠ [])

/-- The header a whole line stands for: the lower-cased text before the first colon,
    and the text after it without the blanks in front. -/
def headerOf (line : Bytes) : Option (Bytes × Bytes) :=
  (splitHeader line).map (fun p => (normalizeLower p.1, p.2))

/-- The headers of a table, each buffer read through `view`. -/
def Headers.seen (view : Bytes → Bytes) (h : Headers) : List (Option (Bytes × Bytes)) :=
  h.entries.map (fun e => some (view e.name, view e.value))

/-- The head of an input that the parser took to `HP_DONE` is stored as it stands:
    the first line is what the request spells, each line after it is one header,
    and the parser read lines up to the first empty one and no further. -/
def HeadFaithful (view : Bytes → Bytes) (data : Bytes) : Prop :=
  ∃ l0 hs rest, lines cr lf data = l0 :: (hs ++ [] :: rest) ∧ (∀ l ∈ hs, l ≠ []) ∧
    (feed httpReqInit data).1.requestLine = l0 ∧
    (feed httpReqInit data).1.headers.seen view = hs.map headerOf ∧
    headTaken httpReqInit data = unlines cr lf (l0 :: (hs ++ [[]]))

/-- How a stored buffer is read: whole, or as the C string in it. -/
structure View (view : Bytes → Bytes) : Prop where
  isPrefix : ∀ b, view b <+: b
  idem : ∀ b, view (view b) = view b
  lf_cons : ∀ b, view (lf :: b) = lf :: view b

theorem view_id : View id := ⟨List.prefix_refl, fun _ => rfl, fun _ => rfl⟩

theorem view_cstr : View cstr :=
  ⟨cstr_isPrefix, cstr_cstr, fun b => cstr_append (a := [lf]) (by decide) b⟩

theorem headLines_cons {data l t : Bytes} (hu : Unbroken cr lf l) (h : data = l ++ cr :: lf :: t) :
    lines cr lf data = l :: lines cr lf t := by
  rw [h, lines_line cr_ne_lf hu]

theorem headLines_eq {data : Bytes} {l0 : Bytes} {hs rest : List Bytes}
    (h : lines cr lf data = l0 :: (hs ++ [] :: rest)) (h0 : l0 ≠ []) (hh : ∀ l ∈ hs, l ≠ []) :
    headLines data = l0 :: hs := by
  have hall : ∀ l ∈ l0 :: hs, decide (l ≠ []) = true := by
    intro l hl
    rcases List.mem_cons.mp hl with rfl | hl
    · simpa using h0
    · simpa using hh l hl
  rw [headLines, h, ← List.cons_append, List.takeWhile_append_of_pos hall]
  simp

@[simp] theorem seen_add {h : Headers} (hc : h.entries.length < httpHeaderMax)
    (view : Bytes → Bytes) (n v : Bytes) :
    (headersAdd h n v).1.seen view =
      h.seen view ++ [some (view (normalizeLower n), view v)] := by
  rw [Headers.seen, (headersAdd_room hc n v).1]
  simp [Headers.seen]

theorem header_run_keeps {r : HttpReq} (hs : r.state = .header) {rest : Bytes}
    (hd : (feed r rest).1.state = .done) :
    (feed r rest).1.requestLine = r.requestLine ∧
    ∃ more, (feed r rest).1.headers.entries = r.headers.entries ++ more := by
  apply header_run_induction (P := fun r rest => (feed r rest).1.requestLine = r.requestLine ∧
    ∃ more, (feed r rest).1.headers.entries = r.headers.entries ++ more) _ _ hs hd
  · intro r t hsame _
    obtain ⟨h1, h2, h3, h4⟩ := hsame
    refine ⟨?_, [], ?_⟩
    · simp only [HttpReq.requestLine, h1, h2, h3]
    · rw [h4, List.append_nil]
  · intro r l t n v r' rest' _ _ _ hc hr' _ hf _ ih
    obtain ⟨hline, more, hmore⟩ := ih
    refine ⟨?_, Header.mk' n v :: more, ?_⟩
    · rw [hf, hline, hr']
      rfl
    · rw [hf, hmore, hr']
      simp only [(headersAdd_room hc n v).1, List.append_assoc, List.singleton_append]

/-! ## Lines that fit the buffer -/

/-- What a call reads as header lines are the lines up to the first empty one, and each
    is stored whole. -/
def StoredWhole (r : HttpReq) (rest : Bytes) : Prop :=
  ∃ (hs rest' : List Bytes), lines cr lf rest = hs ++ [] :: rest' ∧ (∀ l ∈ hs, l ≠ []) ∧
    (feed r rest).1.headers.seen id = r.headers.seen id ++ hs.map headerOf ∧
    headTaken r rest = unlines cr lf (hs ++ [[]])

/-- Header lines that fit are stored whole, one header each. -/
theorem header_run_short {r : HttpReq} (hs : r.state = .header) {rest : Bytes}
    (hd : (feed r rest).1.state = .done) (hfit : ∀ l ∈ headLines rest, l.length < lineBufSize) :
    StoredWhole r rest := by
  revert hfit
  apply header_run_induction
    (P := fun r rest => (∀ l ∈ headLines rest, l.length < lineBufSize) → StoredWhole r rest) _ _ hs hd
  · intro r t hsame htk _
    refine ⟨[], lines cr lf t, headLines_cons (l := []) rfl rfl, by simp, ?_, ?_⟩
    · rw [hsame.2.2.2]
      simp
    · rw [htk]
      simp
  · intro r l t n v r' rest' hu hl hsp hc hr' hrest hf htk ih hfit
    have hlines := headLines_cons hu (t := t) rfl
    have hhead : headLines (l ++ cr :: lf :: t) = l :: headLines t := by
      simp only [headLines, hlines]
      rw [List.takeWhile_cons_of_pos (by simpa using hl)]
    have hlen : l.length < lineBufSize := hfit l (by rw [hhead]; simp)
    obtain ⟨hdrop, htake⟩ := drop_line hlen t
    rw [hdrop] at hrest
    rw [htake] at htk
    rw [lineLen_short hlen, List.take_length] at hsp
    subst hrest
    obtain ⟨hs0, rest'', e1, e2, e3, e4⟩ := ih (fun m hm => hfit m (by rw [hhead]; simp [hm]))
    refine ⟨l :: hs0, rest'', ?_, ?_, ?_, ?_⟩
    · rw [hlines, e1]
      rfl
    · intro m hm
      rcases List.mem_cons.mp hm with rfl | hm
      · exact hl
      · exact e2 m hm
    · rw [hf, e3, hr', List.map_cons, headerOf, hsp]
      simp only [seen_add hc, List.append_assoc, Option.map_some]
      rfl
    · rw [htk, e4]
      simp

/-! ## Lines that do not fit -/

theorem View.nil {view : Bytes → Bytes} (V : View view) : view [] = [] :=
  List.prefix_nil.mp (V.isPrefix [])

/-- No buffer is read as itself with an `lf` in front. -/
theorem View.lf_ne {view : Bytes → Bytes} (V : View view) (b : Bytes) : view (lf :: b) ≠ b := by
  intro h
  have h1 : view b = b := by
    conv => lhs; rw [← h]
    rw [V.idem, h]
  rw [V.lf_cons, h1] at h
  exact absurd (congrArg List.length h) (by simp)

theorem seen_append (view : Bytes → Bytes) {h h' : Headers} {more : List Header}
    (e : h'.entries = h.entries ++ more) :
    h'.seen view = h.seen view ++ more.map (fun e => some (view e.name, view e.value)) := by
  rw [Headers.seen, e, List.map_append, Headers.seen]

theorem seen_next {view : Bytes → Bytes} {r r' : HttpReq} {n v : Bytes} {rest rest' : Bytes}
    {xs : List (Option (Bytes × Bytes))} (hs : r.state = .header)
    (hc : r.headers.entries.length < httpHeaderMax)
    (hr' : r' = { r with headers := (headersAdd r.headers n v).1 })
    (hf : (feed r rest).1 = (feed r' rest').1) (hd : (feed r rest).1.state = .done)
    (hx : (feed r rest).1.headers.seen view = r.headers.seen view ++ xs) :
    ∃ ys, xs = some (view (normalizeLower n), view v) :: ys ∧
      (feed r' rest').1.headers.seen view = r'.headers.seen view ++ ys := by
  have hs' : r'.state = .header := by rw [hr']; exact hs
  rw [hf] at hd
  obtain ⟨more, hm⟩ := (header_run_keeps hs' hd).2
  have h1 := seen_append view hm
  have h2 : r'.headers.seen view =
      r.headers.seen view ++ [some (view (normalizeLower n), view v)] := by
    rw [hr']
    exact seen_add hc view n v
  refine ⟨more.map (fun e => some (view e.name, view e.value)), ?_, h1⟩
  rw [hf, h1, h2, List.append_assoc] at hx
  exact (List.append_cancel_left hx).symm

/-- A line stored cut has the header of the whole line only if what follows the
    colon is blank to the end. -/
theorem cut_line_blank {view : Bytes → Bytes} (V : View view) {l n v : Bytes} {k : Nat}
    (hk : k < l.length) (hsp : splitHeader (l.take k) = some (n, v))
    (hv : headerOf l = some (view (normalizeLower n), view v)) :
    ∀ c ∈ l.drop k, isBlank c = true := by
  obtain ⟨hn, blanks, hb, he, hh⟩ := splitHeader_some hsp
  have hl : l = n ++ colon :: (blanks ++ (v ++ l.drop k)) := by
    conv => lhs; rw [← List.take_append_drop k l, he]
    simp
  have hs := splitHeader_append hn (blanks ++ (v ++ l.drop k))
  rw [← hl, List.dropWhile_append_of_pos hb] at hs
  rw [headerOf, hs] at hv
  simp only [Option.map_some, Option.some.injEq, Prod.mk.injEq] at hv
  have hlen : (view v).length ≤ v.length := (V.isPrefix v).length_le
  cases v with
  | nil =>
    have h0 : (l.drop k).dropWhile isBlank = [] := by
      rw [V.nil] at hv
      simpa using hv.2
    exact fun c hc => List.dropWhile_eq_nil_iff.mp h0 c hc
  | cons a v =>
    have ha : isBlank a = false := hh a rfl
    have hd := hv.2
    rw [List.cons_append, List.dropWhile_cons_of_neg (by simp [ha]), ← List.cons_append] at hd
    have := congrArg List.length hd
    simp only [List.length_append, List.length_drop] at this
    omega

theorem splitHeader_blank {l : Bytes} (h : ∀ c ∈ l, isBlank c = true) (k : Nat) :
    splitHeader (l.take k) = none := by
  rw [splitHeader_none]
  intro hc
  have := h colon (List.mem_of_mem_take hc)
  revert this
  decide

theorem blank_line_refused {r : HttpReq} (hs : r.state = .header) {b : Bytes}
    (hu : Unbroken cr lf b) (hb : b ≠ []) (hblank : ∀ c ∈ b, isBlank c = true) (t : Bytes) :
    (feed r (b ++ cr :: lf :: t)).1.state ≠ .done := by
  intro hd
  obtain ⟨l, _, hu2, hr, hcase⟩ := header_line_cases hs hd
  obtain ⟨rfl, _⟩ := line_unique cr_ne_lf hu hu2 hr
  rcases hcase with ⟨h0, _⟩ | ⟨_, _, _, _, hsp, _⟩
  · exact hb h0
  · rw [splitHeader_blank hblank] at hsp
    cases hsp

/-- Where the line feed of a line end is taken into the next line, what is stored
    for that line is not its header. -/
theorem lf_line_unfaithful {view : Bytes → Bytes} (V : View view) {r : HttpReq}
    (hs : r.state = .header) {t : Bytes} {hl rest : List Bytes}
    (hlines : lines cr lf t = hl ++ [] :: rest)
    (hd : (feed r (lf :: t)).1.state = .done)
    (hseen : (feed r (lf :: t)).1.headers.seen view = r.headers.seen view ++ hl.map headerOf) :
    False := by
  obtain ⟨l, t', hu, hr, hcase⟩ := header_line_cases hs hd
  cases l with
  | nil =>
    injection hr with h0
    exact cr_ne_lf h0.symm
  | cons a l =>
    rw [List.cons_append] at hr
    injection hr with ha ht
    subst ha
    have hul : Unbroken cr lf l := hu.of_append_right (a := [lf])
    rw [ht, lines_line cr_ne_lf hul] at hlines
    rcases hcase with ⟨h0, _⟩ | ⟨n, v, r', _, hsp, hc, hr', hf, _⟩
    · cases h0
    obtain ⟨k, hk⟩ : ∃ k, lineLen (lf :: l).length = k + 1 := by
      refine ⟨lineLen (lf :: l).length - 1, ?_⟩
      have : 0 < lineLen (lf :: l).length := by
        unfold lineLen lineBufSize
        split <;> simp
      omega
    rw [hk, List.take_succ_cons] at hsp
    obtain ⟨hn, blanks, _, he, _⟩ := splitHeader_some hsp
    -- the name begins with the line feed, that of the line behind it does not
    cases n with
    | nil =>
      injection he with h0
      exact absurd h0 (by decide)
    | cons b n =>
      injection he with hb he
      subst hb
      cases hl with
      | nil =>
        injection hlines with h0 _
        rw [h0, List.take_nil] at he
        simp at he
      | cons l' hl =>
        injection hlines with h0 _
        subst h0
        obtain ⟨ys, hys, _⟩ := seen_next hs hc hr' hf hd hseen
        injection hys with hh _
        have hcol : colon ∉ n := fun hm => hn (List.mem_cons_of_mem _ hm)
        have hl : l = n ++ colon :: (blanks ++ v ++ l.drop k) := by
          conv => lhs; rw [← List.take_append_drop k l, he]
          simp
        have hsl := splitHeader_append hcol (blanks ++ v ++ l.drop k)
        rw [← hl] at hsl
        rw [headerOf, hsl] at hh
        simp only [Option.map_some, Option.some.injEq, Prod.mk.injEq] at hh
        exact V.lf_ne _ hh.1.symm

/-- A header line that does not fit is not stored as it stands: what the loop
    finds in the middle of it is refused, or ends the head there, or begins the next
    header with a line feed. -/
theorem long_line_unfaithful {view : Bytes → Bytes} (V : View view) {r : HttpReq}
    (hs : r.state = .header) {l t : Bytes} {hl rest : List Bytes} (hu : Unbroken cr lf l)
    (hlen : lineBufSize ≤ l.length) (hlines : lines cr lf t = hl ++ [] :: rest)
    (hd : (feed r (l ++ cr :: lf :: t)).1.state = .done)
    (hseen : (feed r (l ++ cr :: lf :: t)).1.headers.seen view =
      r.headers.seen view ++ headerOf l :: hl.map headerOf) :
    headTaken r (l ++ cr :: lf :: t) ≠ unlines cr lf (l :: (hl ++ [[]])) := by
  intro htk
  obtain ⟨l1, t1, hu1, hr1, hcase⟩ := header_line_cases hs hd
  obtain ⟨rfl, rfl⟩ := line_unique cr_ne_lf hu hu1 hr1
  have hbig : 1024 ≤ l.length := hlen
  rcases hcase with ⟨rfl, _⟩ | ⟨n, v, r', _, hsp, hc, hr', hf, htk'⟩
  · simp at hbig
  have hs' : r'.state = .header := by rw [hr']; exact hs
  obtain ⟨ys, hys, hseen'⟩ := seen_next hs hc hr' hf hd hseen
  injection hys with hv hys
  subst hys
  have hdrop : (l ++ cr :: lf :: t).drop (lineLen l.length + 2) =
      l.drop 1025 ++ (cr :: lf :: t).drop (1025 - l.length) := by
    rw [lineLen_long hlen]
    exact List.drop_append
  rw [hdrop] at hf htk' hseen'
  rw [hf] at hd
  rw [lineLen_long hlen] at hsp htk'
  -- the value was stored whole only if nothing but blanks was cut off
  have hblank := cut_line_blank V (k := 1023) (by omega) hsp hv
  rcases Nat.lt_trichotomy l.length 1025 with h | h | h
  · -- the loop goes on at the line feed of the line's end
    have h1024 : l.length = 1024 := by omega
    have e : l.drop 1025 ++ (cr :: lf :: t).drop (1025 - l.length) = lf :: t := by
      rw [List.drop_eq_nil_of_le (by omega), h1024]
      rfl
    rw [e] at hd hseen'
    exact lf_line_unfaithful V hs' hlines hd hseen'
  · -- the line's own end is taken for the end of the head
    have e : l.drop 1025 ++ (cr :: lf :: t).drop (1025 - l.length) = [] ++ cr :: lf :: t := by
      rw [List.drop_eq_nil_of_le (by omega), h]
      rfl
    rw [e] at hd htk'
    obtain ⟨l2, _, hu2, hr2, hcase⟩ := header_line_cases hs' hd
    obtain ⟨rfl, _⟩ := line_unique cr_ne_lf (l := []) rfl hu2 hr2
    rcases hcase with ⟨_, _, htk2⟩ | ⟨_, _, _, h0, _⟩
    · rw [htk', htk2] at htk
      have hlen2 := congrArg List.length htk
      simp only [List.length_append, List.length_take, List.length_cons, unlines_append,
        unlines_cons, unlines_nil, List.length_nil, lineBufSize] at hlen2
      omega
    · exact h0 rfl
  · -- what is left of the line is blank
    have e : l.drop 1025 ++ (cr :: lf :: t).drop (1025 - l.length) =
        l.drop 1025 ++ cr :: lf :: t := by
      rw [show 1025 - l.length = 0 by omega, List.drop_zero]
    rw [e] at hd
    have hub : Unbroken cr lf (l.drop 1025) := by
      rw [← List.take_append_drop 1025 l] at hu
      exact hu.of_append_right
    refine blank_line_refused hs' hub ?_ ?_ t hd
    · intro h0
      have := congrArg List.length h0
      simp only [List.length_drop, List.length_nil] at this
      omega
    · intro c hc
      refine hblank c ?_
      rw [show 1025 = 1023 + 2 from rfl, ← List.drop_drop] at hc
      exact List.mem_of_mem_drop hc

/-- A head stored as it stands has only lines that fit. -/
theorem header_run_fits {view : Bytes → Bytes} (V : View view) {hl rest' : List Bytes} :
    ∀ {r : HttpReq} {rest : Bytes}, r.state = .header → (feed r rest).1.state = .done →
    lines cr lf rest = hl ++ [] :: rest' → (∀ l ∈ hl, l ≠ []) →
    (feed r rest).1.headers.seen view = r.headers.seen view ++ hl.map headerOf →
    headTaken r rest = unlines cr lf (hl ++ [[]]) → ∀ l ∈ hl, l.length < lineBufSize := by
  induction hl with
  | nil =>
    intro r rest _ _ _ _ _ _ l hl
    cases hl
  | cons l0 hl ih =>
    intro r rest hs hd hlines hne hseen htk
    obtain ⟨l, t, hu, hr, hcase⟩ := header_line_cases hs hd
    have hl0 : l0 = l ∧ lines cr lf t = hl ++ [] :: rest' := by
      rw [headLines_cons hu hr] at hlines
      injection hlines with h1 h2
      exact ⟨h1.symm, h2⟩
    obtain ⟨rfl, ht⟩ := hl0
    have hfit : l0.length < lineBufSize := by
      apply Classical.byContradiction
      intro hlong
      rw [hr] at hd hseen htk
      exact long_line_unfaithful V hs hu (Nat.le_of_not_lt hlong) ht hd hseen htk
    rcases hcase with ⟨h0, _⟩ | ⟨n, v, r', _, hsp, hc, hr', hf, htk'⟩
    · exact absurd h0 (hne l0 (by simp))
    · obtain ⟨ys, hys, hseen'⟩ := seen_next hs hc hr' hf hd hseen
      injection hys with _ hys
      subst hys
      obtain ⟨hdrop, htake⟩ := drop_line hfit t
      rw [← hr] at hdrop htake
      rw [hdrop] at hf htk' hseen'
      rw [htake, htk] at htk'
      have hs' : r'.state = .header := by rw [hr']; exact hs
      have htk2 : headTaken r' t = unlines cr lf (hl ++ [[]]) := by
        rw [List.cons_append, unlines_cons] at htk'
        simpa using htk'.symm
      rw [hf] at hd
      have hrest := ih hs' hd ht (fun m hm => hne m (by simp [hm])) hseen' htk2
      intro m hm
      rcases List.mem_cons.mp hm with rfl | hm
      · exact hfit
      · exact hrest m hm

/-! ## The whole head -/

theorem request_line_spelled {data : Bytes} (hd : (feed httpReqInit data).1.state = .done) :
    ∃ l t r', Unbroken cr lf l ∧ data = l ++ cr :: lf :: t ∧ l ≠ [] ∧
      r'.state = .header ∧ r'.headers = headersInit ∧
      r'.requestLine = cstr (l.take (lineLen l.length)) ∧
      (feed httpReqInit data).1 = (feed r' (data.drop (lineLen l.length + 2))).1 ∧
      headTaken httpReqInit data = data.take (lineLen l.length + 2) ++
        headTaken r' (data.drop (lineLen l.length + 2)) := by
  obtain ⟨l, t, hu, hr, hp, r', hr', hf, htk⟩ := request_line_cases rfl hd
  obtain ⟨h1, _, _, _, h5, _⟩ := parseRequestLine_ok hp
  refine ⟨l, t, r', hu, hr, ?_, by rw [hr'], ?_, ?_, hf, htk⟩
  · rintro rfl
    rw [List.take_nil] at hp
    exact absurd hp (by decide)
  · rw [hr']
    exact h5
  · rw [hr', ← h1]
    rfl

theorem cstr_take_eq_iff (l : Bytes) :
    cstr (l.take (lineLen l.length)) = l ↔ l.length < lineBufSize ∧ NulFree l := by
  constructor
  · intro h
    have hfit : l.length < lineBufSize := by
      apply Classical.byContradiction
      intro hlong
      have hlen := congrArg List.length h
      have hle := cstr_length_le (l.take (lineLen l.length))
      rw [lineLen_long (Nat.le_of_not_lt hlong), List.length_take] at hle
      rw [lineLen_long (Nat.le_of_not_lt hlong)] at hlen
      simp only [lineBufSize] at hle hlong
      simp only [lineBufSize] at hlen
      omega
    rw [lineLen_short hfit, List.take_length] at h
    exact ⟨hfit, h ▸ cstr_nulFree l⟩
  · intro hyp
    obtain ⟨hfit, hnul⟩ := hyp
    rw [lineLen_short hfit, List.take_length, cstr_of_nulFree hnul]

theorem headFaithful_fits {view : Bytes → Bytes} (V : View view) {data : Bytes}
    (hd : (feed httpReqInit data).1.state = .done) (hf : HeadFaithful view data) :
    ∃ l0 hs, headLines data = l0 :: hs ∧ NulFree l0 ∧ ∀ l ∈ l0 :: hs, l.length < lineBufSize := by
  obtain ⟨l0, hs, rest, hlines, hne, hreq, hseen, htk⟩ := hf
  obtain ⟨l, t, r', hu, hr, hl, hs', hh', hsp, hf, htk'⟩ := request_line_spelled hd
  have hl0 : l = l0 ∧ lines cr lf t = hs ++ [] :: rest := by
    rw [headLines_cons hu hr] at hlines
    injection hlines with h1 h2
    exact ⟨h1, h2⟩
  obtain ⟨rfl, ht⟩ := hl0
  have hd' := hd
  rw [hf] at hd' hreq hseen
  rw [(header_run_keeps hs' hd').1, hsp, cstr_take_eq_iff] at hreq
  obtain ⟨hfit, hnul⟩ := hreq
  obtain ⟨hdrop, htake⟩ := drop_line hfit t
  rw [← hr] at hdrop htake
  rw [hdrop] at hd' hseen htk'
  rw [htake, htk] at htk'
  have hempty : r'.headers.seen view = [] := by rw [hh']; rfl
  have hrun := header_run_fits V hs' hd' ht hne (by rw [hseen, hempty, List.nil_append])
    (by simpa using htk'.symm)
  refine ⟨l, hs, headLines_eq hlines hl hne, hnul, ?_⟩
  intro m hm
  rcases List.mem_cons.mp hm with rfl | hm
  · exact hfit
  · exact hrun m hm

/-- A head of lines that fit, without a NUL in the first, is stored as it stands. -/
theorem headFaithful_of_fits {data : Bytes} (hd : (feed httpReqInit data).1.state = .done)
    (hnul : ∀ l0, (headLines data).head? = some l0 → NulFree l0)
    (hfit : ∀ l ∈ headLines data, l.length < lineBufSize) : HeadFaithful id data := by
  obtain ⟨l, t, r', hu, hr, hl, hs', hh', hsp, hf, htk'⟩ := request_line_spelled hd
  have hlines := headLines_cons hu hr
  have hhead : headLines data = l :: headLines t := by
    simp only [headLines, hlines]
    rw [List.takeWhile_cons_of_pos (by simpa using hl)]
  have hlen : l.length < lineBufSize := hfit l (by rw [hhead]; simp)
  have hnull : NulFree l := hnul l (by rw [hhead]; rfl)
  obtain ⟨hdrop, htake⟩ := drop_line hlen t
  rw [← hr] at hdrop htake
  rw [hdrop] at hf htk'
  rw [htake] at htk'
  have hd' := hd
  rw [hf] at hd'
  obtain ⟨hs, rest', e1, e2, e3, e4⟩ := header_run_short hs' hd'
    (fun m hm => hfit m (by rw [hhead]; simp [hm]))
  refine ⟨l, hs, rest', by rw [hlines, e1], e2, ?_, ?_, ?_⟩
  · rw [hf, (header_run_keeps hs' hd').1, hsp]
    exact (cstr_take_eq_iff l).mpr ⟨hlen, hnull⟩
  · rw [hf, e3, hh']
    rfl
  · rw [htk', e4]
    simp

theorem headerOf_nulFree {l n v : Bytes} (h : headerOf l = some (n, v)) :
    NulFree l ↔ NulFree n ∧ NulFree v := by
  rw [headerOf, Option.map_eq_some_iff] at h
  obtain ⟨⟨m, w⟩, hsp, he⟩ := h
  injection he with hn hv
  subst hn hv
  obtain ⟨_, blanks, hb, hl, _⟩ := splitHeader_some hsp
  have hblank : NulFree blanks := fun h0 => by
    have := hb 0 h0
    revert this
    decide
  rw [normalizeLower_nulFree, hl]
  simp only [NulFree, List.mem_append, List.mem_cons, not_or] at hblank ⊢
  constructor
  · intro hyp
    obtain ⟨h1, _, _, h2⟩ := hyp
    exact ⟨h1, h2⟩
  · intro hyp
    obtain ⟨h1, h2⟩ := hyp
    exact ⟨h1, by decide, hblank, h2⟩

theorem takeWhile_head {hs : List Bytes} (hne : ∀ l ∈ hs, l ≠ []) (rest : List Bytes) :
    (hs ++ [] :: rest).takeWhile (· ≠ []) = hs := by
  rw [List.takeWhile_append_of_pos (fun l hl => by simpa using hne l hl)]
  simp

theorem headFaithful_cstr_iff {data : Bytes} (hd : (feed httpReqInit data).1.state = .done)
    (hf : HeadFaithful id data) :
    HeadFaithful cstr data ↔ ∀ l ∈ headLines data, NulFree l := by
  obtain ⟨l0, ls, hhead, hnul, _⟩ := headFaithful_fits view_id hd hf
  obtain ⟨l, t, _, hu, hr, hl, _⟩ := request_line_spelled hd
  have hlines' := headLines_cons hu hr
  obtain ⟨_, hs, rest, hlines, hne, hreq, hseen, htk⟩ := hf
  obtain ⟨rfl, ht⟩ : _ = l ∧ hs ++ [] :: rest = lines cr lf t := by
    rw [hlines'] at hlines
    injection hlines with h1 h2
    exact ⟨h1.symm, h2.symm⟩
  obtain ⟨rfl, rfl⟩ : _ = l0 ∧ hs = ls := by
    rw [headLines_eq hlines hl hne] at hhead
    injection hhead with h1 h2
    exact ⟨h1, h2⟩
  rw [hhead]
  constructor
  · intro hyp
    obtain ⟨_, hs', rest', hlines2, hne', _, hseen', _⟩ := hyp
    obtain rfl : hs = hs' := by
      rw [hlines] at hlines2
      injection hlines2 with _ h2
      rw [← takeWhile_head hne rest, h2, takeWhile_head hne' rest']
    intro m hm
    rcases List.mem_cons.mp hm with rfl | hm
    · exact hnul
    · -- the line's header is that of an entry, read whole and as a C string
      rw [← hseen] at hseen'
      obtain ⟨e, he, heq⟩ : ∃ e ∈ (feed httpReqInit data).1.headers.entries,
          some (e.name, e.value) = headerOf m := by
        have := List.mem_map_of_mem (f := headerOf) hm
        rw [← hseen] at this
        simpa [Headers.seen] using this
      have hview := List.map_inj_left.mp hseen' e he
      simp only [Option.some.injEq, Prod.mk.injEq, id] at hview
      exact (headerOf_nulFree heq.symm).mpr
        ⟨cstr_eq_self_iff.mp hview.1, cstr_eq_self_iff.mp hview.2⟩
  · intro hall
    refine ⟨_, hs, rest, hlines, hne, hreq, ?_, htk⟩
    rw [← hseen]
    apply List.map_inj_left.mpr
    intro e he
    have hm : some (e.name, e.value) ∈ hs.map headerOf := by
      rw [← hseen]
      exact List.mem_map_of_mem (f := fun e : Header => some (e.name, e.value)) he
    obtain ⟨m, hm, heq⟩ := List.mem_map.mp hm
    obtain ⟨h1, h2⟩ := (headerOf_nulFree heq).mp (hall m (by simp [hm]))
    simp only [id, cstr_of_nulFree h1, cstr_of_nulFree h2]

/-! ## What the parser frames -/

/-- **When the parser frames a request right.** On an input it takes to `HP_DONE`,
    the head is stored as it stands exactly when every line of the head fits the
    line buffer and the request line has no NUL; and it is what C strings read of
    the table exactly when moreover no header line has a NUL. -/
theorem feed_framing_iff (data : Bytes) (hd : (feed httpReqInit data).1.state = .done) :
    (HeadFaithful id data ↔ (∀ l ∈ headLines data, l.length < lineBufSize) ∧
      ∀ l, (headLines data).head? = some l → NulFree l) ∧
    (HeadFaithful cstr data ↔ ∀ l ∈ headLines data, l.length < lineBufSize ∧ NulFree l) := by
  have hid : HeadFaithful id data ↔ (∀ l ∈ headLines data, l.length < lineBufSize) ∧
      ∀ l, (headLines data).head? = some l → NulFree l := by
    constructor
    · intro hf
      obtain ⟨l0, hs, hh, hnul, hfit⟩ := headFaithful_fits view_id hd hf
      rw [hh]
      exact ⟨hfit, fun l hl => Option.some.inj hl ▸ hnul⟩
    · intro hyp
      obtain ⟨hfit, hnul⟩ := hyp
      exact headFaithful_of_fits hd hnul hfit
  refine ⟨hid, ?_, ?_⟩
  · intro hf
    obtain ⟨l0, hs, hh, hnul, hfit⟩ := headFaithful_fits view_cstr hd hf
    have hid' : HeadFaithful id data := by
      refine hid.mpr ⟨by rw [hh]; exact hfit, ?_⟩
      rw [hh]
      exact fun l hl => Option.some.inj hl ▸ hnul
    have hall := (headFaithful_cstr_iff hd hid').mp hf
    exact fun l hl => ⟨by rw [hh] at hl; exact hfit l hl, hall l hl⟩
  · intro hall
    have hid' : HeadFaithful id data :=
      hid.mpr ⟨fun l hl => (hall l hl).1, fun l hl => (hall l (List.mem_of_mem_head? hl)).2⟩
    exact (headFaithful_cstr_iff hd hid').mpr (fun l hl => (hall l hl).2)

/-- A request of two header lines. -/
def shortRequest : Bytes :=
  ascii "GET /api HTTP/1.1\r\nHost: a.example\r\nAccept:\r\n\r\n"

theorem feed_framing_iff_short :
    (feed httpReqInit shortRequest).1.state = .done ∧
    (HeadFaithful id shortRequest ↔
      (∀ l ∈ headLines shortRequest, l.length < lineBufSize) ∧
        ∀ l, (headLines shortRequest).head? = some l → NulFree l) ∧
    (HeadFaithful cstr shortRequest ↔
      ∀ l ∈ headLines shortRequest, l.length < lineBufSize ∧ NulFree l) :=
  have h : (feed httpReqInit shortRequest).1.state = .done := by decide +kernel
  ⟨h, feed_framing_iff shortRequest h⟩

/-- A header line of 1026 bytes and more is read as two: here the second is one the
    client's text does not have. -/
def smuggledRequest : Bytes :=
  ascii "GET /api HTTP/1.1\r\nA:" ++ List.replicate 1023 97 ++
    ascii "X-Admin: 1\r\n\r\n"

theorem feed_smuggles :
    (feed httpReqInit smuggledRequest).1.state = .done ∧
    (headLines smuggledRequest).length = 2 ∧
    (feed httpReqInit smuggledRequest).1.headers.entries.map Header.name =
      [ascii "a", ascii "x-admin"] ∧
    ¬ HeadFaithful id smuggledRequest ∧ ¬ HeadFaithful cstr smuggledRequest := by
  have h : (feed httpReqInit smuggledRequest).1.state = .done := by decide +kernel
  have hlong : ¬ ∀ l ∈ headLines smuggledRequest, l.length < lineBufSize := by decide +kernel
  refine ⟨h, by decide +kernel, by decide +kernel, fun hf => ?_, fun hf => ?_⟩
  · obtain ⟨_, _, hh, _, hfit⟩ := headFaithful_fits view_id h hf
    exact hlong (hh ▸ hfit)
  · obtain ⟨_, _, hh, _, hfit⟩ := headFaithful_fits view_cstr h hf
    exact hlong (hh ▸ hfit)

end NexusGateway
