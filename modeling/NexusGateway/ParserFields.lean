import NexusGateway.HttpSerialize

/- What the fields of a parsed request are made of.

   Every header of a parsed request is the split of a line that fits the line
   buffer and has no `\r\n` in it (`FromLine`), and the request line is spelled by
   another (`RequestLineOf`); `feed_wellRead` keeps both over any run. From them,
   what is needed of a header when it is printed: its name has no colon, and the
   line printed for it has no `\r\n` and reads back as the name and the value. -/
namespace NexusGateway
open CString Lines Incremental

/-- The entry is what a line in the line buffer gives. -/
def FromLine (e : Header) : Prop :=
  ∃ line n v, Unbroken cr lf line ∧ line.length < lineBufSize ∧
    splitHeader line = some (n, v) ∧ e = Header.mk' n v

/-- The request line is what a line in the line buffer spells. -/
def RequestLineOf (r : HttpReq) : Prop :=
  (∃ line, Unbroken cr lf line ∧ line.length < lineBufSize ∧ r.requestLine = cstr line) ∧
  sp ∉ r.method.text ∧ sp ∉ r.path.text ∧ IsVersion r.version.text

/-- What holds of a request between passes. A refused request line can leave some of
    its fields written. -/
structure WellRead (r : HttpReq) : Prop where
  headers : ∀ e ∈ r.headers.entries, FromLine e
  line : r.state = .reqLine ∨ r.state = .invalid ∨ RequestLineOf r

theorem httpReqInit_wellRead : WellRead httpReqInit where
  headers := by intro e he; cases he
  line := Or.inl rfl

theorem lineBuf_unbroken {rest : Bytes} {eol : Nat} (h : findEol cr lf rest = some eol) :
    Unbroken cr lf (rest.take (lineLen eol)) ∧ (rest.take (lineLen eol)).length < lineBufSize := by
  obtain ⟨_, hu⟩ := findEol_some h
  constructor
  · have hcut : rest.take eol = rest.take (lineLen eol) ++ (rest.take eol).drop (lineLen eol) := by
      conv => lhs; rw [← List.take_append_drop (lineLen eol) (rest.take eol)]
      rw [List.take_take, Nat.min_eq_left (lineLen_le eol)]
    rw [hcut] at hu
    exact hu.of_append_left
  · have hlen : lineLen eol < lineBufSize := by
      unfold lineLen lineBufSize
      split <;> omega
    exact Nat.lt_of_le_of_lt (List.length_take_le _ _) hlen

theorem parseRequestLine_headers (r : HttpReq) (line : Bytes) :
    (parseRequestLine r line).1.headers = r.headers := by
  unfold parseRequestLine
  split
  · rfl
  · split
    · dsimp only
      split
      · rfl
      · split
        · split
          · rfl
          · split
            · split <;> rfl
            · rfl
        · rfl
    · rfl

/-- A line read in `HP_HEADER` leaves the request line, and adds a header or none. -/
theorem feedHeaderLine_fields (r : HttpReq) (line : Bytes) :
    (feedHeaderLine r line).requestLine = r.requestLine ∧
    (feedHeaderLine r line).method = r.method ∧ (feedHeaderLine r line).path = r.path ∧
    (feedHeaderLine r line).version = r.version ∧
    ((feedHeaderLine r line).headers = r.headers ∨
      ∃ n v, splitHeader line = some (n, v) ∧ r.headers.entries.length < httpHeaderMax ∧
        (feedHeaderLine r line).headers = (headersAdd r.headers n v).1) := by
  by_cases hl : line = []
  · subst hl
    exact ⟨rfl, rfl, rfl, rfl, Or.inl rfl⟩
  · cases hs : splitHeader line with
    | none =>
      simp only [feedHeaderLine, List.isEmpty_iff, hl, if_false, hs]
      exact ⟨rfl, trivial, trivial, trivial, Or.inl trivial⟩
    | some p =>
      by_cases hc : r.headers.entries.length < httpHeaderMax
      · rw [feedHeaderLine_add hl hs hc]
        exact ⟨rfl, rfl, rfl, rfl, Or.inr ⟨p.1, p.2, rfl, hc, rfl⟩⟩
      · have hfull := Nat.le_antisymm r.headers.count_le (Nat.le_of_not_lt hc)
        simp only [feedHeaderLine, List.isEmpty_iff, hl, if_false, hs, headersAdd_full hfull]
        split <;> exact ⟨rfl, rfl, rfl, rfl, Or.inl rfl⟩

theorem RequestLineOf.congr {r r' : HttpReq} (h : RequestLineOf r) (hm : r'.method = r.method)
    (hp : r'.path = r.path) (hv : r'.version = r.version) : RequestLineOf r' := by
  have hl : r'.requestLine = r.requestLine := by simp only [HttpReq.requestLine, hm, hp, hv]
  obtain ⟨h1, h2, h3, h4⟩ := h
  exact ⟨by rwa [hl], by rwa [hm], by rwa [hp], by rwa [hv]⟩

theorem feedStep_wellRead (r : HttpReq) (rest : Bytes) (r' : HttpReq) (n : Nat) (h : WellRead r)
    (hs : feedStep r rest = some (r', n)) : WellRead r' := by
  rcases feedStep_cases hs with ⟨hb, _, he⟩ | ⟨hh, eol, heol, hr', _⟩
  · -- a body pass touches only the counter and the state
    have hr : r' = (feedBody r rest.length).1 := congrArg Prod.fst he
    have hline : RequestLineOf r := by
      rcases h.line with h0 | h0 | h0
      · rw [hb] at h0; cases h0
      · rw [hb] at h0; cases h0
      · exact h0
    rw [hr]
    exact ⟨h.headers, Or.inr (Or.inr (hline.congr rfl rfl rfl))⟩
  · obtain ⟨hu, hlen⟩ := lineBuf_unbroken heol
    rw [hr']
    -- only what the line is made of matters from here on
    generalize rest.take (lineLen eol) = line at hu hlen
    cases hst : r.state with
    | reqLine =>
      rw [feedLine_reqLine hst]
      refine ⟨?_, ?_⟩
      · simp only [parseRequestLine_headers]
        exact h.headers
      · by_cases hp : (parseRequestLine r line).2 = 0
        · obtain ⟨h1, h2, h3, h4, _⟩ := parseRequestLine_ok hp
          have hl : RequestLineOf (parseRequestLine r line).1 := ⟨⟨line, hu, hlen, h1⟩, h2, h3, h4⟩
          exact Or.inr (Or.inr (hl.congr rfl rfl rfl))
        · exact Or.inr (Or.inl (by simp only [hp, ne_eq, not_false_eq_true, if_true]))
    | header =>
      have hline : RequestLineOf r := by
        rcases h.line with h0 | h0 | h0
        · rw [hst] at h0; cases h0
        · rw [hst] at h0; cases h0
        · exact h0
      rw [feedLine_header hst]
      obtain ⟨_, hm, hp, hv, hadd⟩ := feedHeaderLine_fields r line
      refine ⟨?_, Or.inr (Or.inr (hline.congr hm hp hv))⟩
      rcases hadd with hsame | ⟨nm, v, hsp, hc, hadd⟩
      · rw [hsame]
        exact h.headers
      · rw [hadd, (headersAdd_room hc nm v).1]
        intro e he
        rcases List.mem_append.mp he with he | he
        · exact h.headers e he
        · exact ⟨line, nm, v, hu, hlen, hsp, List.mem_singleton.mp he⟩
    | body => rw [hst] at hh; cases hh
    | done => rw [hst] at hh; cases hh
    | invalid => rw [hst] at hh; cases hh

/-- **Every parsed request is made of lines of the input.** -/
theorem feed_wellRead (data : Bytes) : WellRead (feed httpReqInit data).1 :=
  Reader.run_inv feedStep_wellRead httpReqInit data httpReqInit_wellRead

theorem feed_done_line {data : Bytes} (hd : (feed httpReqInit data).1.state = .done) :
    RequestLineOf (feed httpReqInit data).1 := by
  rcases (feed_wellRead data).line with h | h | h
  · rw [hd] at h; cases h
  · rw [hd] at h; cases h
  · exact h

/-! ## What is printed of a header -/

theorem FromLine.colon_not_mem {e : Header} (h : FromLine e) : colon ∉ e.name := by
  obtain ⟨line, n, v, _, _, hs, rfl⟩ := h
  obtain ⟨hn, _⟩ := splitHeader_some hs
  exact fun hm => hn ((mem_map_toLower (by decide)).mp hm)

theorem FromLine.length {e : Header} (h : FromLine e) :
    e.name.length + e.value.length + 1 < lineBufSize := by
  obtain ⟨line, n, v, _, hlen, hs, rfl⟩ := h
  obtain ⟨_, blanks, _, he, _⟩ := splitHeader_some hs
  rw [he] at hlen
  simp only [List.length_append, List.length_cons] at hlen
  simp only [Header.mk'_name, Header.mk'_value, normalizeLower, List.length_map]
  omega

theorem FromLine.unbroken {e : Header} (h : FromLine e) :
    Unbroken cr lf e.name ∧ Unbroken cr lf e.value := by
  obtain ⟨line, n, v, hu, _, hs, rfl⟩ := h
  obtain ⟨_, blanks, _, he, _⟩ := splitHeader_some hs
  rw [he] at hu
  constructor
  · have hn := hu.of_append_left
    unfold Unbroken at hn ⊢
    rw [Header.mk'_name, normalizeLower, findEol_map (fun c => toLower_eq_iff (by decide))
      (fun c => toLower_eq_iff (by decide)), hn]
  · have hcut : n ++ colon :: (blanks ++ v) = (n ++ colon :: blanks) ++ v := by simp
    rw [hcut] at hu
    exact hu.of_append_right

theorem FromLine.value_head {e : Header} (h : FromLine e) :
    (cstr e.value).dropWhile isBlank = cstr e.value := by
  obtain ⟨line, n, v, _, _, hs, rfl⟩ := h
  obtain ⟨_, _, _, _, hh⟩ := splitHeader_some hs
  rw [Header.mk'_value]
  cases hv : cstr v with
  | nil => rfl
  | cons a t =>
    have ha : v.head? = some a := by
      obtain ⟨u, hu⟩ := cstr_isPrefix v
      rw [← hu, hv]
      rfl
    rw [List.dropWhile_cons_of_neg (by simp [hh a ha])]

end NexusGateway
