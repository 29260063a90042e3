import NexusGateway.HttpHeader
import NexusGateway.Lib.Lines
import NexusGateway.Lib.Incremental

/- The HTTP request parser (`http_parser.c`).

   `feedStep` is one pass of the loop of `nexus_http_req_feed` over the bytes not
   yet consumed; the loop is the run of a resumable reader (`feedReader`), so it
   needs no fuel: every pass consumes bytes or ends in a final state. A line is
   copied into a 1024-byte buffer, which holds at most 1023 bytes of it, and the
   loop then advances by the bytes copied and two more.

   Lengths and offsets are `size_t` (`Nat`), the body counter is an `int`
   (`Int32`), and the conversions between them are written out. -/
namespace NexusGateway
open CString Lines

/-- `hp_state_t`. -/
inductive HpState where
  | reqLine
  | header
  | body
  | done
  | invalid
  deriving DecidableEq, Repr

/-- `nexus_http_req_t`. -/
structure HttpReq where
  state : HpState
  method : CharArray 16
  path : CharArray 1024
  version : CharArray 16
  headers : Headers
  bodyRemaining : Int32
  deriving DecidableEq, Repr

/-- `nexus_http_req_init`. -/
def httpReqInit : HttpReq where
  state := .reqLine
  method := .zero size16_pos
  path := .zero size1024_pos
  version := .zero size16_pos
  headers := headersInit
  bodyRemaining := 0

/-- The blanks skipped in front of a header value. -/
def isBlank (c : UInt8) : Bool := c == sp || c == 9

/-- `sizeof(line_buf)`. -/
def lineBufSize : Nat := 1024

/-- `parse_request_line`: it writes each field as soon as it has it, so a line
    refused later leaves the fields before. -/
def parseRequestLine (r : HttpReq) (line : Bytes) : HttpReq × Int :=
  match h1 : strchr line sp with
  | none => (r, -1)
  | some sp1 =>
    if hm : sp1 < 16 then
      let r := { r with method := ⟨line.take sp1, (strchr_some h1).1, take_length_lt hm⟩ }
      let p := line.drop (sp1 + 1)
      match h2 : strchr p sp with
      | none => (r, -1)
      | some sp2 =>
        if hp : sp2 < 1024 then
          let r := { r with path := ⟨p.take sp2, (strchr_some h2).1, take_length_lt hp⟩ }
          let v := p.drop (sp2 + 1)
          if !startsWith v (ascii "HTTP/") then (r, -1)
          else if hv : strlen v < 16 then
            if !strEq v (ascii "HTTP/1.0") && !strEq v (ascii "HTTP/1.1") then (r, -1)
            else ({ r with version := ⟨cstr v, cstr_nulFree v, hv⟩ }, 0)
          else (r, -1)
        else (r, -1)
    else (r, -1)

/-- A header line's name, and its value without the blanks in front, cut at the
    first colon. The colon is looked for in the whole line, NULs included. -/
def splitHeader (line : Bytes) : Option (Bytes × Bytes) :=
  match line.idxOf? colon with
  | none => none
  | some nameLen => some (line.take nameLen, (line.drop (nameLen + 1)).dropWhile isBlank)

/-- The body length read at the end of the head: `atoi` of the header found. -/
def bodyLength (h : Headers) : Int32 :=
  match headersGet h (ascii "content-length") with
  | none => 0
  | some cl => atoi cl

/-- The end of the head. A length that is not positive means no body. -/
def feedHeadEnd (r : HttpReq) : HttpReq :=
  { r with
    bodyRemaining := bodyLength r.headers
    state := if 0 < bodyLength r.headers then .body else .done }

/-- What a line in `line_buf` does in `HP_HEADER`. -/
def feedHeaderLine (r : HttpReq) (line : Bytes) : HttpReq :=
  if line.isEmpty then feedHeadEnd r
  else
    match splitHeader line with
    | none => { r with state := .invalid }
    | some (name, value) =>
      -- never so: the table holds 32, and its own check below refuses the 33rd
      if r.headers.entries.length ≥ 100 then { r with state := .invalid }
      else
        let a := headersAdd r.headers name value
        if a.2 ≠ 0 then { r with state := .invalid }
        else { r with headers := a.1 }

/-- What a line in `line_buf` does, by the state. -/
def feedLine (r : HttpReq) (line : Bytes) : HttpReq :=
  match r.state with
  | .reqLine =>
    let p := parseRequestLine r line
    if p.2 ≠ 0 then { p.1 with state := .invalid } else { p.1 with state := .header }
  | .header => feedHeaderLine r line
  | _ => r

/-- `(size_t)n` of an `int`. -/
def sizeOfInt (n : Int32) : Nat := (n.toInt % 2 ^ 64).toNat

/-- `(int)n` of a `size_t`. -/
def intOfSize (n : Nat) : Int32 := Int32.ofNat n

/-- The pass in `HP_BODY`: the bytes are counted and skipped. -/
def feedBody (r : HttpReq) (len : Nat) : HttpReq × Nat :=
  let take := if len < sizeOfInt r.bodyRemaining then len else sizeOfInt r.bodyRemaining
  let b := r.bodyRemaining - intOfSize take
  ({ r with bodyRemaining := b, state := if b = 0 then .done else .body }, take)

/-- What of a line of `eol` bytes fits `line_buf`. -/
def lineLen (eol : Nat) : Nat := if eol ≥ lineBufSize then lineBufSize - 1 else eol

/-- One pass of the loop of `nexus_http_req_feed` over the bytes not yet consumed:
    `none` where the loop ends or the function returns, else the request and how
    many bytes were consumed. A refused line is not consumed. -/
def feedStep (r : HttpReq) (rest : Bytes) : Option (HttpReq × Nat) :=
  if rest.isEmpty then none
  else
    match r.state with
    | .done => none
    | .invalid => none
    | .body => some (feedBody r rest.length)
    | _ =>
      match findEol cr lf rest with
      -- no line end yet: the bytes wait for the next call
      | none => none
      | some eol =>
        let r' := feedLine r (rest.take (lineLen eol))
        some (r', if r'.state = .invalid then 0 else lineLen eol + 2)

/-! ## Lines -/

/-- What a request's fields spell as a request line. -/
def HttpReq.requestLine (r : HttpReq) : Bytes :=
  r.method.text ++ sp :: (r.path.text ++ sp :: r.version.text)

/-- The versions accepted. -/
def IsVersion (v : Bytes) : Prop := v = ascii "HTTP/1.0" ∨ v = ascii "HTTP/1.1"

theorem IsVersion.nulFree {v : Bytes} (h : IsVersion v) : NulFree v := by
  rcases h with rfl | rfl <;> decide

/-- An accepted request line is what its fields spell, up to its first NUL. -/
theorem parseRequestLine_ok {r : HttpReq} {line : Bytes} (h : (parseRequestLine r line).2 = 0) :
    (parseRequestLine r line).1.requestLine = cstr line ∧
    sp ∉ (parseRequestLine r line).1.method.text ∧
    sp ∉ (parseRequestLine r line).1.path.text ∧
    IsVersion (parseRequestLine r line).1.version.text ∧
    (parseRequestLine r line).1.headers = r.headers ∧
    (parseRequestLine r line).1.bodyRemaining = r.bodyRemaining := by
  unfold parseRequestLine at h ⊢
  split at h
  · cases h
  rename_i sp1 h1
  obtain ⟨n1, s1, e1⟩ := strchr_some h1
  split at h
  · rename_i hm
    simp only [dif_pos hm]
    dsimp only at h ⊢
    split at h
    · cases h
    rename_i sp2 h2
    obtain ⟨n2, s2, e2⟩ := strchr_some h2
    split at h
    · rename_i hp
      simp only [dif_pos hp]
      split at h
      · cases h
      rename_i hs
      simp only [hs]
      split at h
      · rename_i hv
        simp only [dif_pos hv]
        split at h
        · cases h
        rename_i hver
        simp only [hver]
        refine ⟨?_, s1, s2, ?_, rfl, rfl⟩
        · -- both spaces stand in front of the first NUL, so only the version is cut
          have hsp : NulFree [sp] := by decide
          have c1 := cstr_append (n1.append hsp) (line.drop (sp1 + 1))
          have c2 := cstr_append (n2.append hsp) ((line.drop (sp1 + 1)).drop (sp2 + 1))
          simp only [List.append_assoc, List.singleton_append] at c1 c2
          rw [← e1] at c1
          rw [← e2] at c2
          rw [c1, c2]
          rfl
        · simp only [strEq, Bool.and_eq_true, Bool.not_eq_true', beq_eq_false_iff_ne, ne_eq,
            not_and_or, not_not] at hver
          exact hver
      · cases h
    · cases h
  · cases h

/-- What the fields spell is accepted, and gives the fields back. -/
theorem parseRequestLine_spell (r : HttpReq) (m : CharArray 16) (p : CharArray 1024)
    (v : CharArray 16) (hm : sp ∉ m.text) (hp : sp ∉ p.text) (hv : IsVersion v.text) :
    parseRequestLine r (m.text ++ sp :: (p.text ++ sp :: v.text)) =
      ({ r with method := m, path := p, version := v }, 0) := by
  have h1 := strchr_append m.nulFree hm (c := sp) (by decide) (p.text ++ sp :: v.text)
  have h2 := strchr_append p.nulFree hp (c := sp) (by decide) v.text
  have d1 : (m.text ++ sp :: (p.text ++ sp :: v.text)).drop (m.text.length + 1) =
      p.text ++ sp :: v.text := by
    rw [← List.drop_drop, List.drop_left]; rfl
  have d2 : (p.text ++ sp :: v.text).drop (p.text.length + 1) = v.text := by
    rw [← List.drop_drop, List.drop_left]; rfl
  have hc := cstr_of_nulFree v.nulFree
  have hs : startsWith v.text (ascii "HTTP/") = true := by
    rcases hv with h | h <;> rw [h] <;> decide
  have hver : (!strEq v.text (ascii "HTTP/1.0") && !strEq v.text (ascii "HTTP/1.1")) = false := by
    rcases hv with h | h <;> rw [h] <;> decide
  unfold parseRequestLine
  split
  · rename_i h; rw [h1] at h; cases h
  rename_i sp1 h
  obtain rfl : sp1 = m.text.length := by rw [h1] at h; exact (Option.some.inj h).symm
  rw [dif_pos m.fits]
  dsimp only
  split
  · rename_i h'; rw [d1, h2] at h'; cases h'
  rename_i sp2 h'
  obtain rfl : sp2 = p.text.length := by rw [d1, h2] at h'; exact (Option.some.inj h').symm
  rw [dif_pos p.fits]
  have hl : strlen v.text < 16 := by rw [strlen, hc]; exact v.fits
  simp only [d1, d2, hs, Bool.not_true, Bool.false_eq_true, if_false, dif_pos hl, hver, hc,
    List.take_left]

theorem splitHeader_some {line n v : Bytes} (h : splitHeader line = some (n, v)) :
    colon ∉ n ∧ ∃ blanks, (∀ c ∈ blanks, isBlank c = true) ∧ line = n ++ colon :: (blanks ++ v) ∧
      ∀ c, v.head? = some c → isBlank c = false := by
  unfold splitHeader at h
  split at h
  · cases h
  rename_i k hk
  obtain ⟨e, hc⟩ := idxOf?_some hk
  injection h with h
  injection h with hn hv
  subst hn; subst hv
  refine ⟨hc, (line.drop (k + 1)).takeWhile isBlank, fun c hc => List.mem_takeWhile_imp hc, ?_, ?_⟩
  · rw [List.takeWhile_append_dropWhile]
    exact e
  · intro c hc
    have := List.head?_dropWhile_not isBlank (line.drop (k + 1))
    rw [hc] at this
    simpa using this

theorem splitHeader_append {n : Bytes} (hn : colon ∉ n) (v : Bytes) :
    splitHeader (n ++ colon :: v) = some (n, v.dropWhile isBlank) := by
  rw [splitHeader, idxOf?_append hn]
  simp only [List.take_left]
  rw [← List.drop_drop, List.drop_left]
  rfl

theorem splitHeader_none {line : Bytes} : splitHeader line = none ↔ colon ∉ line := by
  unfold splitHeader
  split
  · rename_i h
    simpa using idxOf?_eq_none.mp h
  · rename_i k hk
    simp only [reduceCtorEq, false_iff, not_not]
    rw [(idxOf?_some hk).1]
    simp

/-! ## The loop -/

@[simp] theorem lineLen_le (eol : Nat) : lineLen eol ≤ eol := by
  unfold lineLen lineBufSize
  split <;> omega

theorem lineLen_short {eol : Nat} (h : eol < lineBufSize) : lineLen eol = eol :=
  if_neg (by omega)

theorem lineLen_long {eol : Nat} (h : lineBufSize ≤ eol) : lineLen eol = lineBufSize - 1 :=
  if_pos h

theorem sizeOfInt_eq_zero {n : Int32} (h : sizeOfInt n = 0) : n = 0 := by
  have h1 := Int32.le_toInt n
  have h2 := Int32.toInt_lt n
  unfold sizeOfInt at h
  apply Int32.toInt_inj.mp
  simp only [Int32.toInt_zero]
  omega

/-- A final state: the loop is left. -/
def HpState.final : HpState → Bool
  | .done => true
  | .invalid => true
  | _ => false

theorem feedStep_nil (r : HttpReq) : feedStep r [] = none := rfl

theorem feedStep_final {r : HttpReq} (h : r.state.final = true) (rest : Bytes) :
    feedStep r rest = none := by
  unfold feedStep
  split
  · rfl
  · cases hs : r.state <;> simp_all [HpState.final]

theorem feedStep_body {r : HttpReq} (h : r.state = .body) {rest : Bytes} (hr : rest ≠ []) :
    feedStep r rest = some (feedBody r rest.length) := by
  simp [feedStep, h, hr]

/-- A state that reads lines. -/
def HpState.inHead : HpState → Bool
  | .reqLine => true
  | .header => true
  | _ => false

theorem feedStep_head {r : HttpReq} (h : r.state.inHead = true) (rest : Bytes) :
    feedStep r rest = (findEol cr lf rest).map (fun eol =>
      (feedLine r (rest.take (lineLen eol)),
        if (feedLine r (rest.take (lineLen eol))).state = .invalid then 0
        else lineLen eol + 2)) := by
  cases rest with
  | nil => rfl
  | cons a t =>
    cases hs : r.state <;> simp [HpState.inHead, hs] at h <;>
      cases he : findEol cr lf (a :: t) <;> simp [feedStep, hs, he]

theorem feedStep_cases {r r' : HttpReq} {rest : Bytes} {n : Nat}
    (h : feedStep r rest = some (r', n)) :
    (r.state = .body ∧ rest ≠ [] ∧ (r', n) = feedBody r rest.length) ∨
    (r.state.inHead = true ∧ ∃ eol, findEol cr lf rest = some eol ∧
      r' = feedLine r (rest.take (lineLen eol)) ∧
      n = if r'.state = .invalid then 0 else lineLen eol + 2) := by
  have hne : rest ≠ [] := by rintro rfl; cases h
  have head (hh : r.state.inHead = true) : r.state.inHead = true ∧
      ∃ eol, findEol cr lf rest = some eol ∧ r' = feedLine r (rest.take (lineLen eol)) ∧
        n = if r'.state = .invalid then 0 else lineLen eol + 2 := by
    rw [feedStep_head hh] at h
    obtain ⟨eol, he, hp⟩ := Option.map_eq_some_iff.mp h
    injection hp with h1 h2
    exact ⟨hh, eol, he, h1.symm, by rw [← h2, ← h1]⟩
  cases hs : r.state with
  | reqLine => exact Or.inr (by simpa [hs] using head (by rw [hs]; rfl))
  | header => exact Or.inr (by simpa [hs] using head (by rw [hs]; rfl))
  | body =>
    rw [feedStep_body hs hne] at h
    exact Or.inl ⟨rfl, hne, (Option.some.inj h).symm⟩
  | done => rw [feedStep_final (by rw [hs]; rfl)] at h; cases h
  | invalid => rw [feedStep_final (by rw [hs]; rfl)] at h; cases h

theorem feedBody_le (r : HttpReq) (len : Nat) : (feedBody r len).2 ≤ len := by
  simp only [feedBody]
  split <;> omega

/-- The loop of `nexus_http_req_feed`. Two units for a byte and one for a state
    that is not final bound the passes: a line takes at least its two end bytes,
    and a pass that takes nothing ends in a final state. -/
def feedReader : Incremental.Reader HttpReq UInt8 where
  step := feedStep
  rank r rest := 2 * rest.length + if r.state.final then 0 else 1
  step_le := by
    intro r rest r' n h
    rcases feedStep_cases h with ⟨_, _, hb⟩ | ⟨_, eol, he, _, rfl⟩
    · have hn : n = (feedBody r rest.length).2 := congrArg Prod.snd hb
      exact hn ▸ feedBody_le r _
    · have h1 := findEol_le he
      have h2 := lineLen_le eol
      split <;> omega
  rank_lt := by
    intro r rest r' n h
    rw [List.length_drop]
    rcases feedStep_cases h with ⟨hs, hne, hb⟩ | ⟨hh, eol, he, _, hn⟩
    · have hlen : 0 < rest.length := List.length_pos_of_ne_nil hne
      have hr : r' = (feedBody r rest.length).1 := congrArg Prod.fst hb
      have hn : n = (feedBody r rest.length).2 := congrArg Prod.snd hb
      have hf : r.state.final = false := by rw [hs]; rfl
      simp only [hf, Bool.false_eq_true, if_false]
      by_cases h0 : n = 0
      · -- nothing was left of the body: the state becomes `HP_DONE`
        have hz : sizeOfInt r.bodyRemaining = 0 := by
          simp only [h0, feedBody] at hn
          split at hn <;> omega
        have hdone : r'.state = .done := by
          rw [hr]
          simp [feedBody, sizeOfInt_eq_zero hz, intOfSize, sizeOfInt]
        rw [hdone, h0]
        simp [HpState.final]
      · split <;> omega
    · have hf : r.state.final = false := by
        cases hs : r.state <;> simp [HpState.inHead, HpState.final, hs] at hh ⊢
      simp only [hf, Bool.false_eq_true, if_false]
      have h1 := findEol_le he
      split at hn
      · rename_i hi
        rw [hi, hn]
        simp [HpState.final]
      · have := lineLen_le eol
        split <;> omega

/-! ## The body counter -/

theorem sizeOfInt_pos {n : Int32} (h : 0 < n) :
    (sizeOfInt n : Int) = n.toInt ∧ sizeOfInt n < 2 ^ 31 := by
  have h1 := Int32.toInt_lt n
  have h2 : (0 : Int) < n.toInt := by simpa [Int32.lt_iff_toInt_lt] using h
  unfold sizeOfInt
  omega

/-- Counting `t` bytes off a body of more than that many leaves the rest of it. -/
theorem toInt_sub_intOfSize {n : Int32} (h : 0 < n) {t : Nat} (ht : t ≤ sizeOfInt n) :
    (n - intOfSize t).toInt = n.toInt - t := by
  obtain ⟨h1, h2⟩ := sizeOfInt_pos h
  rw [Int32.toInt_sub, intOfSize, Int32.toInt_ofNat']
  have e1 : ((t : Int).bmod Int32.size) = t :=
    Int.bmod_eq_of_le (by simp [Int32.size]) (by simp [Int32.size]; omega)
  rw [e1]
  exact Int.bmod_eq_of_le (by omega) (by omega)

theorem sub_intOfSize_pos {n : Int32} (h : 0 < n) {t : Nat} (ht : t < sizeOfInt n) :
    0 < n - intOfSize t ∧ sizeOfInt (n - intOfSize t) = sizeOfInt n - t := by
  have e := toInt_sub_intOfSize h (Nat.le_of_lt ht)
  have h1 := (sizeOfInt_pos h).1
  have hp : 0 < n - intOfSize t := by
    rw [Int32.lt_iff_toInt_lt, e]
    simp only [Int32.toInt_zero]
    omega
  have h2 := (sizeOfInt_pos hp).1
  exact ⟨hp, by omega⟩

theorem sub_intOfSize_self {n : Int32} (h : 0 < n) : n - intOfSize (sizeOfInt n) = 0 := by
  have e := toInt_sub_intOfSize h (Nat.le_refl _)
  have h1 := (sizeOfInt_pos h).1
  apply Int32.toInt_inj.mp
  rw [e, Int32.toInt_zero]
  omega

theorem feedBody_part {r : HttpReq} (h : 0 < r.bodyRemaining) {len : Nat}
    (hl : len < sizeOfInt r.bodyRemaining) :
    feedBody r len =
      ({ r with bodyRemaining := r.bodyRemaining - intOfSize len, state := .body }, len) := by
  have hp := (sub_intOfSize_pos h hl).1
  have hne : ¬ r.bodyRemaining - intOfSize len = 0 := fun e => by simp [e] at hp
  simp [feedBody, hl, hne]

theorem feedBody_all {r : HttpReq} (h : 0 < r.bodyRemaining) {len : Nat}
    (hl : sizeOfInt r.bodyRemaining ≤ len) :
    feedBody r len =
      ({ r with bodyRemaining := 0, state := .done }, sizeOfInt r.bodyRemaining) := by
  simp [feedBody, Nat.not_lt.mpr hl, sub_intOfSize_self h]

/-! ## The state between calls -/

/-- What holds of a request between passes: a body that is being read has bytes to come. -/
def HttpReq.Ok (r : HttpReq) : Prop := r.state = .body → 0 < r.bodyRemaining

theorem httpReqInit_ok : httpReqInit.Ok := by
  intro h
  cases h

theorem feedHeadEnd_ok (r : HttpReq) : (feedHeadEnd r).Ok := by
  intro h
  by_cases hp : 0 < bodyLength r.headers
  · exact hp
  · simp [feedHeadEnd, hp] at h

theorem feedLine_reqLine {r : HttpReq} (h : r.state = .reqLine) (line : Bytes) :
    feedLine r line = { (parseRequestLine r line).1 with
      state := if (parseRequestLine r line).2 ≠ 0 then .invalid else .header } := by
  simp only [feedLine, h]
  split <;> rfl

theorem feedLine_header {r : HttpReq} (h : r.state = .header) (line : Bytes) :
    feedLine r line = feedHeaderLine r line := by
  simp only [feedLine, h]

theorem feedHeaderLine_state {r : HttpReq} (h : r.state = .header) {line : Bytes}
    (hl : line ≠ []) :
    (feedHeaderLine r line).state = .header ∨ (feedHeaderLine r line).state = .invalid := by
  simp only [feedHeaderLine, List.isEmpty_iff, hl, if_false]
  split
  · exact Or.inr rfl
  · split
    · exact Or.inr rfl
    · split
      · exact Or.inr rfl
      · exact Or.inl h

/-- A header line with a colon and a place in the table adds its entry; every
    other line that is not empty is refused. -/
theorem feedHeaderLine_add {r : HttpReq} {line n v : Bytes} (hl : line ≠ [])
    (hs : splitHeader line = some (n, v)) (hc : r.headers.entries.length < httpHeaderMax) :
    feedHeaderLine r line = { r with headers := (headersAdd r.headers n v).1 } := by
  have h100 : ¬ r.headers.entries.length ≥ 100 := by unfold httpHeaderMax at hc; omega
  simp only [feedHeaderLine, List.isEmpty_iff, hl, if_false, hs, h100, (headersAdd_room hc n v).2,
    ne_eq, not_true_eq_false]

theorem feedHeaderLine_cases {r : HttpReq} {line : Bytes} (hl : line ≠ []) :
    (feedHeaderLine r line).state = .invalid ∨
    ∃ n v, splitHeader line = some (n, v) ∧ r.headers.entries.length < httpHeaderMax := by
  cases hs : splitHeader line with
  | none => simp [feedHeaderLine, List.isEmpty_iff, hl, hs]
  | some p =>
    by_cases hc : r.headers.entries.length < httpHeaderMax
    · exact Or.inr ⟨p.1, p.2, rfl, hc⟩
    · have hfull : r.headers.entries.length = httpHeaderMax :=
        Nat.le_antisymm r.headers.count_le (by omega)
      refine Or.inl ?_
      simp only [feedHeaderLine, List.isEmpty_iff, hl, if_false, hs, headersAdd_full hfull]
      split <;> rfl

theorem feedLine_ok {r : HttpReq} (hh : r.state.inHead = true) (line : Bytes) :
    (feedLine r line).Ok := by
  intro hb
  cases hs : r.state with
  | reqLine =>
    rw [feedLine_reqLine hs] at hb
    dsimp only at hb
    split at hb <;> cases hb
  | header =>
    rw [feedLine_header hs] at hb ⊢
    by_cases hl : line = []
    · subst hl
      exact feedHeadEnd_ok r hb
    · rcases feedHeaderLine_state hs hl with h | h <;> rw [h] at hb <;> cases hb
  | body => simp [hs, HpState.inHead] at hh
  | done => simp [hs, HpState.inHead] at hh
  | invalid => simp [hs, HpState.inHead] at hh

theorem feedStep_ok (r : HttpReq) (rest : Bytes) (r' : HttpReq) (n : Nat) (h : r.Ok)
    (hs : feedStep r rest = some (r', n)) : r'.Ok := by
  rcases feedStep_cases hs with ⟨hb, _, he⟩ | ⟨hh, eol, _, rfl, _⟩
  · have hr : r' = (feedBody r rest.length).1 := congrArg Prod.fst he
    have hpos := h hb
    by_cases hl : rest.length < sizeOfInt r.bodyRemaining
    · rw [hr, feedBody_part hpos hl]
      exact fun _ => (sub_intOfSize_pos hpos hl).1
    · rw [hr, feedBody_all hpos (Nat.not_lt.mp hl)]
      intro hd
      cases hd
  · exact feedLine_ok hh _

/-- The request after `nexus_http_req_feed`, and the bytes it consumed. -/
def feed (r : HttpReq) (data : Bytes) : HttpReq × Nat := feedReader.run r data

theorem feed_le (r : HttpReq) (data : Bytes) : (feed r data).2 ≤ data.length :=
  feedReader.run_le r data

/-- `nexus_http_req_feed`, and what it returns. -/
def httpReqFeed (r : HttpReq) (data : Bytes) : HttpReq × Int32 :=
  ((feed r data).1, intOfSize (feed r data).2)

end NexusGateway
