import NexusGateway.ParserChunks
import NexusGateway.ParserFraming
import NexusGateway.HttpRewrite

/- The body length: what the table says and what the parser counts.

   The parser reads the length with `atoi` off the first header whose hash is that
   of `content-length`. `body_count`: it counts that many bytes, and none for a
   length that is not positive. `content_length_iff`: every `content-length` of the
   table is a numeral of the number of bytes counted exactly when all are numerals
   of one number that an `int` holds, and the header the length was read off, if it
   is another one, gives that number too. -/
namespace NexusGateway
open CString Lines Incremental

/-! ## What is counted -/

/-- The body bytes a length asks for. -/
def bodyCount (n : Int32) : Nat := if 0 < n then n.toInt.toNat else 0

theorem bodyCount_pos {n : Int32} (h : 0 < n) : bodyCount n = sizeOfInt n := by
  have := (sizeOfInt_pos h).1
  rw [bodyCount, if_pos h]
  omega

theorem bodyCount_lt (n : Int32) : bodyCount n < 2 ^ 31 := by
  have := Int32.toInt_lt n
  unfold bodyCount
  split <;> omega

theorem feed_taken (r : HttpReq) (data : Bytes) :
    (feed r data).2 = (headTaken r data).length + (bodyTaken r data).length := by
  induction r, data using Reader.run_induction (m := feedReader) with
  | stop r data h =>
    have h : feedStep r data = none := h
    rw [feed_none h, headTaken, bodyTaken, takenIn_none h, takenIn_none h]
    rfl
  | pass r data r' n h ih =>
    have h : feedStep r data = some (r', n) := h
    have hle : n ≤ data.length := feedReader.step_le h
    rw [feed_some h, headTaken, bodyTaken, takenIn_some h, takenIn_some h, ← headTaken, ← bodyTaken]
    rcases feedStep_cases h with ⟨hb, _⟩ | ⟨hh, _⟩
    · simp only [hb, HpState.inHead, Bool.false_eq_true, if_false, beq_self_eq_true, if_true,
        List.length_append, List.length_take, List.length_nil, ih]
      omega
    · have hb : (r.state == .body) = false := by
        cases hs : r.state <;> simp [hs, HpState.inHead] at hh ⊢
      simp only [hh, hb, Bool.false_eq_true, if_true, if_false, List.length_append,
        List.length_take, List.length_nil, ih]
      omega

/-- What a call that reaches `HP_DONE` still counts, by the state it begins in. -/
def bodyToCome (r : HttpReq) (table : Headers) : Nat :=
  match r.state with
  | .body => sizeOfInt r.bodyRemaining
  | .done => 0
  | _ => bodyCount (bodyLength table)

theorem bodyToCome_headEnd (r : HttpReq) :
    bodyToCome (feedHeadEnd r) r.headers = bodyCount (bodyLength r.headers) := by
  by_cases h : 0 < bodyLength r.headers
  · simp [bodyToCome, feedHeadEnd, h, bodyCount_pos]
  · simp [bodyToCome, feedHeadEnd, h, bodyCount]

theorem bodyToCome_line {r : HttpReq} (h : r.state.inHead = true) (line : Bytes) (table : Headers)
    (ht : (feedLine r line).state.inHead = false → table = (feedLine r line).headers) :
    (feedLine r line).state = .invalid ∨ bodyToCome (feedLine r line) table = bodyToCome r table := by
  cases hs : r.state with
  | reqLine =>
    rw [feedLine_reqLine hs]
    by_cases hp : (parseRequestLine r line).2 = 0
    · exact Or.inr (by simp [bodyToCome, hp, hs])
    · exact Or.inl (by simp [hp])
  | header =>
    rw [feedLine_header hs] at ht ⊢
    by_cases hl : line = []
    · subst hl
      have h0 : feedHeaderLine r [] = feedHeadEnd r := rfl
      have hin : (feedHeadEnd r).state.inHead = false := by
        simp only [feedHeadEnd]
        split <;> rfl
      rw [h0] at ht ⊢
      have htable : table = r.headers := ht hin
      rw [htable, bodyToCome_headEnd]
      exact Or.inr (by simp [bodyToCome, hs])
    · rcases feedHeaderLine_state hs hl with hst | hst
      · exact Or.inr (by simp [bodyToCome, hst, hs])
      · exact Or.inl hst
  | body => rw [hs] at h; cases h
  | done => rw [hs] at h; cases h
  | invalid => rw [hs] at h; cases h

/-- The body counted is the length read. -/
theorem body_run (r : HttpReq) (data : Bytes) (hok : r.Ok) (hd : (feed r data).1.state = .done) :
    (bodyTaken r data).length = bodyToCome r (feed r data).1.headers := by
  induction r, data using Reader.run_induction (m := feedReader) with
  | stop r data h =>
    -- the call made no pass, so it began in `HP_DONE`
    have h : feedStep r data = none := h
    rw [feed_none h] at hd ⊢
    rw [bodyTaken, takenIn_none h, bodyToCome, hd]
    rfl
  | pass r data r' n h ih =>
    have h : feedStep r data = some (r', n) := h
    have hle : n ≤ data.length := feedReader.step_le h
    have hok' := feedStep_ok r data r' n hok h
    rw [feed_some h] at hd ⊢
    have ih := ih hok' hd
    rw [bodyTaken, takenIn_some h, ← bodyTaken, List.length_append, ih]
    rcases feedStep_cases h with ⟨hb, hne, he⟩ | ⟨hh, eol, heol, hr', hn⟩
    · have hr : r' = (feedBody r data.length).1 := congrArg Prod.fst he
      have hn : n = (feedBody r data.length).2 := congrArg Prod.snd he
      have hpos := hok hb
      simp only [hb, beq_self_eq_true, if_true, List.length_take]
      by_cases hlt : data.length < sizeOfInt r.bodyRemaining
      · -- the data ends inside the body: the call does not reach the end
        exfalso
        rw [feedBody_part hpos hlt] at hr hn
        rw [hn, List.drop_length, feed_none (feedStep_nil r'), hr] at hd
        cases hd
      · rw [feedBody_all hpos (Nat.not_lt.mp hlt)] at hr hn
        simp only [bodyToCome, hr, hb]
        omega
    · have hb : (r.state == .body) = false := by
        cases hs : r.state <;> simp [hs, HpState.inHead] at hh ⊢
      simp only [hb, Bool.false_eq_true, if_false, List.length_nil, Nat.zero_add]
      -- the length is read off the table at the end of the head, which is the last one
      have htable : r'.state.inHead = false → (feed r' (data.drop n)).1.headers = r'.headers :=
        fun hin => (feed_after_head hin _).1.2.2.2
      rcases bodyToCome_line hh (data.take (lineLen eol)) (feed r' (data.drop n)).1.headers
        (by rw [← hr']; exact htable) with hinv | hsame
      · rw [← hr'] at hinv
        rw [feed_final (by rw [hinv]; rfl), hinv] at hd
        cases hd
      · rw [← hr'] at hsame
        exact hsame

/-- **How many body bytes a request consumed.** -/
theorem body_count {data : Bytes} (hd : (feed httpReqInit data).1.state = .done) :
    (feed httpReqInit data).2 - (headTaken httpReqInit data).length =
      bodyCount (bodyLength (feed httpReqInit data).1.headers) := by
  have h := body_run httpReqInit data httpReqInit_ok hd
  rw [feed_taken, Nat.add_sub_cancel_left, h]
  rfl

/-! ## What the table says -/

def contentLength : Bytes := ascii "content-length"

/-- Every header that prints as `content-length` is a numeral of `len`. -/
def LengthsAre (h : Headers) (len : Nat) : Prop :=
  ∀ e ∈ h.entries, e.cname = contentLength →
    IsNumeral (cstr e.value) ∧ digitsValue (cstr e.value) = len

/-- The header the length is read off, if it is not one of these, gives `len` too. -/
def LookupAgrees (h : Headers) (len : Nat) : Prop :=
  match headersFind h contentLength with
  | none => len = 0
  | some e => e.cname ≠ contentLength →
      (atoi e.value).toInt = len ∨ (len = 0 ∧ (atoi e.value).toInt ≤ 0)

/-- The lengths of a table agree: there is none, or all are one number that an
    `int` holds, and no other header is taken for them. -/
def LengthsAgree (h : Headers) : Prop :=
  (∀ e ∈ h.entries, e.cname ≠ contentLength) ∨
  ∃ len < 2 ^ 31, LengthsAre h len ∧ LookupAgrees h len

theorem bodyCount_eq (n : Int32) (len : Nat) :
    bodyCount n = len ↔ n.toInt = len ∨ (len = 0 ∧ n.toInt ≤ 0) := by
  have hpos : 0 < n ↔ 0 < n.toInt := by simp [Int32.lt_iff_toInt_lt]
  unfold bodyCount
  split <;> rename_i h <;> rw [hpos] at h <;> omega

theorem bodyCount_eq_zero (n : Int32) : bodyCount n = 0 ↔ ¬ 0 < n := by
  rw [bodyCount_eq, Int32.lt_iff_toInt_lt]
  simp only [Int32.toInt_zero, true_and]
  omega

theorem bodyLength_eq (h : Headers) :
    bodyLength h = match headersFind h contentLength with
      | none => 0
      | some e => atoi e.value := by
  unfold bodyLength headersGet
  rw [show ascii "content-length" = contentLength from rfl]
  cases headersFind h contentLength <;> rfl

theorem bodyLength_agrees {h : Headers} {len : Nat} (hlen : len < 2 ^ 31) (hare : LengthsAre h len) :
    bodyCount (bodyLength h) = len ↔ LookupAgrees h len := by
  rw [bodyLength_eq, LookupAgrees]
  cases hf : headersFind h contentLength with
  | none =>
    show bodyCount 0 = len ↔ len = 0
    exact eq_comm
  | some e =>
    show bodyCount (atoi e.value) = len ↔ _
    rw [bodyCount_eq]
    constructor
    · exact fun h _ => h
    · intro hother
      by_cases hname : e.cname = contentLength
      · obtain ⟨hnum, hval⟩ := hare e (List.mem_of_find?_eq_some hf) hname
        refine Or.inl ?_
        rw [atoi_numeral hnum (by rw [hval]; exact hlen), hval]
      · exact hother hname

/-- **When the lengths of a request are those of its body.** For every way to cut an
    input into chunks that the parser takes to `HP_DONE`: every `content-length` of
    the table is a numeral of the number of bytes consumed behind the head exactly
    when the lengths of the table agree. -/
theorem content_length_iff (chunks : List Bytes)
    (hd : (feedChunks httpReqInit chunks).1.state = .done) :
    LengthsAre (feedChunks httpReqInit chunks).1.headers
        ((feedChunks httpReqInit chunks).2 - (headTaken httpReqInit chunks.flatten).length) ↔
      LengthsAgree (feedChunks httpReqInit chunks).1.headers := by
  -- the chunks count what one call counts
  have heq : feedChunks httpReqInit chunks = feed httpReqInit chunks.flatten :=
    Reader.drive_eq_run feedReader_resumable feedStep_ok chunks httpReqInit [] httpReqInit_ok rfl
  rw [heq] at hd ⊢
  rw [body_count hd]
  generalize (feed httpReqInit chunks.flatten).1.headers = h
  constructor
  · intro hare
    have hlt := bodyCount_lt (bodyLength h)
    exact Or.inr ⟨_, hlt, hare, (bodyLength_agrees hlt hare).mp rfl⟩
  · intro hyp
    rcases hyp with hnone | ⟨len, hlt, hare, hlook⟩
    · exact fun e he hname => absurd hname (hnone e he)
    · rw [(bodyLength_agrees hlt hare).mpr hlook]
      exact hare

/-- A request with a body, cut inside it. -/
def bodyChunks : List Bytes :=
  [ascii "POST / HTTP/1.1\r\nContent-Length: 5\r\n\r\nab", ascii "cde"]

theorem content_length_iff_body :
    LengthsAre (feedChunks httpReqInit bodyChunks).1.headers
        ((feedChunks httpReqInit bodyChunks).2 -
          (headTaken httpReqInit bodyChunks.flatten).length) ↔
      LengthsAgree (feedChunks httpReqInit bodyChunks).1.headers :=
  content_length_iff bodyChunks (by decide +kernel)

/-- The length is 2^32 + 1, of which `atoi` leaves 1. -/
def wrappedLength : List Bytes :=
  [ascii "POST / HTTP/1.1\r\nContent-Length: 4294967297\r\n\r\na"]

theorem content_length_wraps :
    (feedChunks httpReqInit wrappedLength).1.state = .done ∧
    (feedChunks httpReqInit wrappedLength).2 -
      (headTaken httpReqInit wrappedLength.flatten).length = 1 ∧
    ¬ LengthsAre (feedChunks httpReqInit wrappedLength).1.headers
      ((feedChunks httpReqInit wrappedLength).2 -
        (headTaken httpReqInit wrappedLength.flatten).length) := by
  refine ⟨by decide +kernel, by decide +kernel, ?_⟩
  unfold LengthsAre
  decide +kernel

end NexusGateway
