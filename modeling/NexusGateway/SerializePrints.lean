import NexusGateway.HttpSerialize
import NexusGateway.Lib.Prints

/- The prints of `nexus_http_req_serialize` (`http_parser.c`).

   The function adds up what `snprintf` reports for each line, and then prints every line
   behind the ones before, with `out_len - pos` for the room that is left. Both sums are
   `size_t`; a report is an `int`, and so is what is returned. A text shorter than 2^31 is
   measured right and printed whole, or refused as a whole; a longer one only if it is
   refused (`serializes_exactly_iff`). On the shorter ones the prints do what `serialize` says
   (`serializeRun_eq`).

   What is read of the request is its strings, whatever else it holds. -/
namespace NexusGateway
open CString Prints

/-- The strings of a request that `%s` prints. -/
structure ReqStrings where
  method : Bytes
  path : Bytes
  version : Bytes
  headers : List (Bytes × Bytes)

/-- Those of a `nexus_http_req_t`. -/
def HttpReq.strings (r : HttpReq) : ReqStrings where
  method := r.method.text
  path := r.path.text
  version := r.version.text
  headers := r.headers.entries.map fun h => (h.name, h.value)

/-- `"%s %s %s\r\n"`. -/
def ReqStrings.requestLine (s : ReqStrings) : Bytes :=
  crlfLine (cstr s.method ++ sp :: (cstr s.path ++ sp :: cstr s.version))

/-- `"%s: %s\r\n"`. -/
def headerLine (h : Bytes × Bytes) : Bytes := crlfLine (cstr h.1 ++ colon :: sp :: cstr h.2)

/-- `h->name[0] != '\0'`. -/
def namePrinted (h : Bytes × Bytes) : Bool := h.1.headD 0 != 0

/-- The lines of the headers that are printed. -/
def ReqStrings.headerLines (s : ReqStrings) : List Bytes := (s.headers.filter namePrinted).map headerLine

/-- The texts of the second pass, one for each call. -/
def ReqStrings.pieces (s : ReqStrings) : List Bytes := s.requestLine :: (s.headerLines ++ [[cr, lf]])

/-- Their concatenation. -/
def ReqStrings.text (s : ReqStrings) : Bytes := s.pieces.flatten

/-- A number as a `size_t`. -/
def sizeT (n : Int) : Int := n % 2 ^ 64

/-- `needed` after the first pass. -/
def serialMeasured (s : ReqStrings) : Int :=
  let needed := s.headers.foldl
    (fun needed h => if namePrinted h then sizeT (needed + reported (headerLine h)) else needed)
    (sizeT (reported s.requestLine))
  sizeT (needed + 2)

/-- What a call does: its prints into the buffer, the buffer after them (`none` if one of
    them wrote outside), and what is returned. -/
structure SerialRun where
  calls : List PrintCall
  out : Option Bytes
  result : Int32

/-- `nexus_http_req_serialize` into this buffer, of `out_len` bytes. -/
def serializeRun (s : ReqStrings) (out : Bytes) : SerialRun :=
  if out.length = 0 then ⟨[], some out, -1⟩
  else if serialMeasured s ≥ out.length then ⟨[], some out, -1⟩
  else
    let calls := printCalls sizeT out.length 0 s.pieces
    ⟨calls, applyCalls out calls, Int32.ofInt (printEnd sizeT 0 s.pieces)⟩

/-- It returns -1 without writing anything exactly when the text and its NUL do not fit, and
    otherwise prints everything whole, puts the text and a NUL into the buffer and returns
    the length. -/
def SerializesExactly (s : ReqStrings) (out : Bytes) : Prop :=
  ((serializeRun s out).result = -1 ∧ (serializeRun s out).calls = [] ↔
    out.length ≤ s.text.length) ∧
  (s.text.length < out.length →
    (∀ c ∈ (serializeRun s out).calls, c.Whole) ∧
    (serializeRun s out).out = some (s.text ++ 0 :: out.drop (s.text.length + 1)) ∧
    (serializeRun s out).result.toInt = s.text.length)

/-! ## The two passes -/

theorem keepsSmall_sizeT : KeepsSmall sizeT := fun n _ _ => by
  unfold sizeT
  omega

theorem serialMeasured_eq (s : ReqStrings) : serialMeasured s = printEnd sizeT 0 s.pieces := by
  have htwo : reported [cr, lf] = 2 := rfl
  simp [serialMeasured, printEnd, ReqStrings.pieces, ReqStrings.headerLines, List.foldl_append,
    List.foldl_map, List.foldl_filter, htwo]

/-- A text shorter than 2^31 is measured right. -/
theorem serialMeasured_text {s : ReqStrings} (h : s.text.length < 2 ^ 31) :
    serialMeasured s = s.text.length := by
  have hend := printEnd_eq keepsSmall_sizeT s.pieces 0 (by rw [Nat.zero_add]; exact h)
  rw [serialMeasured_eq]
  simpa [ReqStrings.text] using hend

theorem serializeRun_refused {s : ReqStrings} {out : Bytes} (h : serialMeasured s ≥ out.length) :
    serializeRun s out = ⟨[], some out, -1⟩ := by
  rw [serializeRun, if_pos h, ite_self]

theorem serializeRun_calls {s : ReqStrings} {out : Bytes} (hout : 0 < out.length)
    (h : serialMeasured s < out.length) :
    serializeRun s out = ⟨printCalls sizeT out.length 0 s.pieces,
      applyCalls out (printCalls sizeT out.length 0 s.pieces),
      Int32.ofInt (printEnd sizeT 0 s.pieces)⟩ := by
  rw [serializeRun, if_neg (by omega), if_neg (by omega)]

/-- What fits is printed whole. -/
theorem serializeRun_fits {s : ReqStrings} {out : Bytes} (hout : out.length < 2 ^ 64)
    (hsmall : s.text.length < 2 ^ 31) (hfits : s.text.length < out.length) :
    (∀ c ∈ (serializeRun s out).calls, c.Inside out.length) ∧
    (serializeRun s out).out = some (s.text ++ 0 :: out.drop (s.text.length + 1)) ∧
    (serializeRun s out).result = intOfSize s.text.length := by
  have hmeasured := serialMeasured_text hsmall
  have hcalls := serializeRun_calls (show 0 < out.length by omega)
    (show serialMeasured s < out.length by omega)
  have hinside := printCalls_inside keepsSmall_sizeT hout s.pieces 0
    (by rw [← ReqStrings.text]; omega) (by rw [← ReqStrings.text]; omega)
  have hemit := applyCalls_eq_emit keepsSmall_sizeT hout s.pieces 0 out
    (by rw [← ReqStrings.text]; omega) (by rw [← ReqStrings.text]; omega) (Nat.le_refl _)
  have hholds : Holds out s.text (s.pieces.foldl emit (out, 0)) :=
    emits_hold s.requestLine (s.headerLines ++ [[cr, lf]]) hfits
  rw [hcalls]
  refine ⟨hinside, ?_, ?_⟩
  · rw [Holds] at hholds
    rw [hholds] at hemit
    exact hemit
  · rw [← serialMeasured_eq, hmeasured]
    rfl

/-- **When the text is measured and printed right.** For every request and every buffer: the
    call is exact if and only if the text is shorter than 2^31 bytes, or it does not fit and
    the sum of the reports, in which a line of 2^31 bytes or more counts -1, says so too. -/
theorem serializes_exactly_iff (s : ReqStrings) {out : Bytes} (hout : 0 < out.length)
    (hsize : out.length < 2 ^ 64) :
    SerializesExactly s out ↔ s.text.length < 2 ^ 31 ∨
      (out.length ≤ s.text.length ∧ out.length ≤ serialMeasured s) := by
  constructor
  · rintro ⟨hrefused, hprinted⟩
    by_cases hsmall : s.text.length < 2 ^ 31
    · exact Or.inl hsmall
    have hfull : out.length ≤ s.text.length := by
      -- the length of what fits is returned, and an `int` holds it
      by_contra hfits
      have hresult := (hprinted (by omega)).2.2
      have hint := Int32.toInt_lt (serializeRun s out).result
      omega
    refine Or.inr ⟨hfull, ?_⟩
    by_contra hmeasured
    have hnone := (hrefused.mpr hfull).2
    rw [serializeRun_calls hout (by omega)] at hnone
    simp [ReqStrings.pieces, printCalls] at hnone
  · intro h
    by_cases hfits : s.text.length < out.length
    · have hsmall : s.text.length < 2 ^ 31 := h.resolve_right (by omega)
      obtain ⟨hinside, hbuf, hresult⟩ := serializeRun_fits hsize hsmall hfits
      have hint : (serializeRun s out).result.toInt = s.text.length := by
        rw [hresult]
        exact (toInt_intOfSize hsmall).1
      refine ⟨⟨fun hminus => ?_, fun hfull => by omega⟩,
        fun _ => ⟨fun c hc => (hinside c hc).whole, hbuf, hint⟩⟩
      rw [hminus.1] at hint
      simp at hint
    · have hmeasured : serialMeasured s ≥ out.length := by
        obtain hsmall | ⟨_, hmeasured⟩ := h
        · rw [serialMeasured_text hsmall]
          omega
        · exact hmeasured
      rw [SerializesExactly, serializeRun_refused hmeasured]
      refine ⟨⟨fun _ => by omega, fun _ => ⟨rfl, rfl⟩⟩, fun h => absurd h hfits⟩

/-- A request that is refused for a buffer of 8 bytes. -/
theorem serializes_exactly_iff_refused :
    let s : ReqStrings := ⟨ascii "GET", ascii "/", ascii "HTTP/1.1", [(ascii "host", ascii "a")]⟩
    SerializesExactly s (List.replicate 8 0) ↔ s.text.length < 2 ^ 31 ∨
      ((List.replicate 8 (0 : UInt8)).length ≤ s.text.length ∧
        (List.replicate 8 (0 : UInt8)).length ≤ serialMeasured s) :=
  serializes_exactly_iff _ (by simp) (by simp)

/-- A request with a header value of this length. -/
def longStrings (n : Nat) : ReqStrings :=
  ⟨ascii "GET", ascii "/", ascii "HTTP/1.1", [(ascii "x", List.replicate n 97)]⟩

theorem longStrings_line (n : Nat) : (headerLine (ascii "x", List.replicate n 97)).length = n + 5 := by
  have hvalue : NulFree (List.replicate n (97 : UInt8)) :=
    fun h => absurd (List.eq_of_mem_replicate h) (by decide)
  have hname : (cstr (ascii "x")).length = 1 := by decide
  simp only [headerLine, crlfLine, cstr_of_nulFree hvalue, List.length_append, List.length_cons,
    List.length_nil, hname, List.length_replicate]
  omega

/-- What an `int` cannot say counts -1. -/
theorem longStrings_measured {n : Nat} (hn : 2 ^ 31 ≤ n) : serialMeasured (longStrings n) = 17 := by
  have hreport : reported (headerLine (ascii "x", List.replicate n 97)) = -1 := by
    apply if_neg
    rw [longStrings_line]
    omega
  have hfirst : reported (longStrings n).requestLine = 16 := rfl
  have hprinted (value : Bytes) : namePrinted (ascii "x", value) = true := by
    simp [namePrinted, ascii]
  rw [serialMeasured, hfirst]
  simp only [longStrings, List.foldl_cons, List.foldl_nil, hprinted, if_true, hreport]
  rfl

theorem longStrings_printed {n : Nat} (hn : 2 ^ 31 ≤ n) {out : Bytes} (hout : 17 < out.length)
    (hfull : out.length ≤ n) :
    out.length ≤ (longStrings n).text.length ∧
    (serializeRun (longStrings n) out).result = 17 ∧ ¬ SerializesExactly (longStrings n) out := by
  have hlong : out.length ≤ (longStrings n).text.length := by
    have hline : headerLine (ascii "x", List.replicate n 97) ∈ (longStrings n).pieces := by
      simp [ReqStrings.pieces, ReqStrings.headerLines, longStrings, namePrinted, ascii]
    have hle := (List.sublist_flatten_of_mem hline).length_le
    rw [longStrings_line, ← ReqStrings.text] at hle
    omega
  have hresult : (serializeRun (longStrings n) out).result = 17 := by
    have hmeasured := longStrings_measured hn
    rw [serializeRun_calls (by omega) (by omega), ← serialMeasured_eq, hmeasured]
    rfl
  refine ⟨hlong, hresult, fun h => ?_⟩
  have hminus := (h.1.mpr hlong).1
  rw [hresult] at hminus
  exact absurd hminus (by decide)

/-- One of 2^31 bytes, and a buffer of 8192. -/
theorem huge_value_printed :
    (List.replicate 8192 (0 : UInt8)).length ≤ (longStrings (2 ^ 31)).text.length ∧
    (serializeRun (longStrings (2 ^ 31)) (List.replicate 8192 0)).result = 17 ∧
    ¬ SerializesExactly (longStrings (2 ^ 31)) (List.replicate 8192 0) :=
  longStrings_printed (Nat.le_refl _) (by rw [List.length_replicate]; omega)
    (by rw [List.length_replicate]; omega)

/-! ## A parsed request -/

theorem HttpReq.strings_text (r : HttpReq) : r.strings.text = serialText r := by
  have hname (h : Header) : namePrinted (h.name, h.value) = h.printed := rfl
  have hline (h : Header) : headerLine (h.name, h.value) = crlfLine h.line := rfl
  have hrequest : r.strings.requestLine = crlfLine r.requestLine := by
    simp [ReqStrings.requestLine, strings, requestLine, cstr_of_nulFree r.method.nulFree,
      cstr_of_nulFree r.path.nulFree, cstr_of_nulFree r.version.nulFree]
  have hheaders : r.strings.headerLines =
      (r.headers.entries.filter Header.printed).map (fun h => crlfLine h.line) := by
    simp [ReqStrings.headerLines, strings, List.filter_map, hname, hline, Function.comp_def]
  rw [serialText_eq, serialPart, ReqStrings.text, ReqStrings.pieces, hrequest, hheaders]
  simp [Lines.unlines, crlfLine, List.flatMap_def, Function.comp_def]

/-- **On texts shorter than 2^31** the prints do what `serialize` says. -/
theorem serializeRun_eq (r : HttpReq) {out : Bytes} (hout : out.length < 2 ^ 64)
    (hsmall : (serialText r).length < 2 ^ 31) :
    (serializeRun r.strings out).out = some (serialize r out).1 ∧
    (serializeRun r.strings out).result = (serialize r out).2 := by
  rw [← r.strings_text] at hsmall
  by_cases hfits : r.strings.text.length < out.length
  · obtain ⟨_, hbuf, hresult⟩ := serializeRun_fits hout hsmall hfits
    rw [hbuf, hresult]
    rw [r.strings_text] at hfits ⊢
    rw [serialize_fits hfits]
    exact ⟨rfl, rfl⟩
  · have hmeasured := serialMeasured_text hsmall
    rw [serializeRun_refused (by omega), serialize_full (by rw [← r.strings_text]; omega)]
    exact ⟨rfl, rfl⟩

end NexusGateway
