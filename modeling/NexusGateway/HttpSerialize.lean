import NexusGateway.HttpParser

/- Writing a request out (`nexus_http_req_serialize`).

   The function measures the text in one pass and writes it in a second one, each
   piece with an `snprintf` into what is left of the buffer. `serialize_fits` and
   `serialize_full`: the measure is the length of the text, so either nothing is
   written or no piece is cut. The text is the request line, a line for each header
   whose name is not empty as a C string, and an empty line (`serialText_eq`). -/
namespace NexusGateway
open CString Lines

/-- `h->name[0] != '\0'`. -/
def Header.printed (h : Header) : Bool := h.name.headD 0 != 0

/-- What `"%s: %s"` prints of a header. -/
def Header.line (h : Header) : Bytes := cstr h.name ++ colon :: sp :: cstr h.value

/-- A piece of the output, with its line end. -/
def crlfLine (l : Bytes) : Bytes := l ++ [cr, lf]

/-- The length the first pass computes. -/
def serialNeeded (r : HttpReq) : Nat :=
  r.headers.entries.foldl
    (fun needed h => if h.printed then needed + (crlfLine h.line).length else needed)
    (crlfLine r.requestLine).length + 2

/-- The second pass. -/
def serialWrite (r : HttpReq) (out : Bytes) : Bytes × Nat :=
  let w := emit (out, 0) (crlfLine r.requestLine)
  let w := r.headers.entries.foldl (fun w h => if h.printed then emit w (crlfLine h.line) else w) w
  emit w [cr, lf]

/-- `nexus_http_req_serialize` into a buffer that holds `out`: the buffer after it and
    what it returns. -/
def serialize (r : HttpReq) (out : Bytes) : Bytes × Int32 :=
  if out.length = 0 then (out, -1)
  else if serialNeeded r ≥ out.length then (out, -1)
  else ((serialWrite r out).1, intOfSize (serialWrite r out).2)

/-- The lines written: the request line, and the headers that are printed. -/
def serialLines (r : HttpReq) : List Bytes :=
  r.requestLine :: (r.headers.entries.filter Header.printed).map Header.line

/-- The text written. -/
def serialText (r : HttpReq) : Bytes := unlines cr lf (serialLines r ++ [[]])

theorem printed_iff (h : Header) : h.printed = true ↔ h.cname ≠ [] := by
  unfold Header.printed Header.cname
  cases hn : h.name with
  | nil => simp
  | cons c n => by_cases hc : c = 0 <;> simp [cstr, hc]

/-- The text after the request line and the headers `hs`. -/
def serialPart (r : HttpReq) (hs : List Header) : Bytes :=
  unlines cr lf (r.requestLine :: (hs.filter Header.printed).map Header.line)

theorem serialPart_nil (r : HttpReq) : serialPart r [] = crlfLine r.requestLine := by
  simp [serialPart, crlfLine]

theorem serialPart_append (r : HttpReq) (hs : List Header) (h : Header) :
    serialPart r (hs ++ [h]) =
      if h.printed then serialPart r hs ++ crlfLine h.line else serialPart r hs := by
  cases hp : h.printed <;> simp [serialPart, crlfLine, hp]

theorem serialText_eq (r : HttpReq) :
    serialText r = serialPart r r.headers.entries ++ [cr, lf] := by
  simp [serialText, serialPart, serialLines]

theorem serialPart_le (r : HttpReq) (hs ms : List Header) :
    (serialPart r hs).length ≤ (serialPart r (hs ++ ms)).length := by
  simp only [serialPart, List.filter_append, List.map_append, ← List.cons_append, unlines_append,
    List.length_append]
  omega

/-- The first pass computes the length of the text. -/
theorem serialNeeded_eq (r : HttpReq) : serialNeeded r = (serialText r).length := by
  have h : ∀ hs ms : List Header,
      ms.foldl (fun needed h => if h.printed then needed + (crlfLine h.line).length else needed)
        (serialPart r hs).length = (serialPart r (hs ++ ms)).length := by
    intro hs ms
    induction ms generalizing hs with
    | nil => rw [List.append_nil]; rfl
    | cons m ms ih =>
      have hm : (if m.printed then (serialPart r hs).length + (crlfLine m.line).length
          else (serialPart r hs).length) = (serialPart r (hs ++ [m])).length := by
        rw [serialPart_append]
        split
        · rw [List.length_append]
        · rfl
      rw [List.foldl_cons, hm, ih, List.append_assoc]
      rfl
  have h0 := h [] r.headers.entries
  rw [serialPart_nil, List.nil_append] at h0
  rw [serialNeeded, h0, serialText_eq, List.length_append]
  rfl

/-- No piece is cut when the whole text fits. -/
theorem serialWrite_holds {r : HttpReq} {out : Bytes} (h : (serialText r).length < out.length) :
    Holds out (serialText r) (serialWrite r out) := by
  rw [serialText_eq] at h ⊢
  have hpart : (serialPart r r.headers.entries).length < out.length := by
    rw [List.length_append] at h
    omega
  -- after the headers `hs`, the buffer holds the text up to them
  have run : ∀ (hs ms : List Header) (w : Bytes × Nat), hs ++ ms = r.headers.entries →
      Holds out (serialPart r hs) w →
      Holds out (serialPart r (hs ++ ms))
        (ms.foldl (fun w h => if h.printed then emit w (crlfLine h.line) else w) w) := by
    intro hs ms
    induction ms generalizing hs with
    | nil =>
      intro w _ hw
      rwa [List.append_nil]
    | cons m ms ih =>
      intro w he hw
      have hlt : (serialPart r (hs ++ [m])).length < out.length := by
        refine Nat.lt_of_le_of_lt (serialPart_le r (hs ++ [m]) ms) ?_
        rw [List.append_assoc, List.singleton_append, he]
        exact hpart
      have hnext : Holds out (serialPart r (hs ++ [m]))
          (if m.printed then emit w (crlfLine m.line) else w) := by
        rw [serialPart_append] at hlt ⊢
        split
        · rename_i hp
          rw [if_pos hp] at hlt
          exact emit_next hw hlt
        · exact hw
      have := ih (hs ++ [m]) _ (by rw [List.append_assoc]; exact he) hnext
      rwa [List.append_assoc] at this
  have hfirst : Holds out (serialPart r []) (emit (out, 0) (crlfLine r.requestLine)) := by
    rw [serialPart_nil]
    apply emit_first
    have := serialPart_le r [] r.headers.entries
    rw [serialPart_nil, List.nil_append] at this
    omega
  exact emit_next (run [] r.headers.entries _ rfl hfirst) h

/-- **What fits is written whole**, with its terminator, and nothing behind it changes. -/
theorem serialize_fits {r : HttpReq} {out : Bytes} (h : (serialText r).length < out.length) :
    serialize r out = (serialText r ++ 0 :: out.drop ((serialText r).length + 1),
      intOfSize (serialText r).length) := by
  have hw := serialWrite_holds h
  rw [serialize, if_neg (by omega), serialNeeded_eq, if_neg (by omega), hw]

/-- **What does not fit is not written at all.** -/
theorem serialize_full {r : HttpReq} {out : Bytes} (h : out.length ≤ (serialText r).length) :
    serialize r out = (out, -1) := by
  rw [serialize, serialNeeded_eq, if_pos h, ite_self]

/-- The bytes a call has written for its caller, when it succeeds. -/
def serialized (r : HttpReq) (out : Bytes) : Option Bytes :=
  let s := serialize r out
  if s.2 < 0 then none else some (s.1.take (sizeOfInt s.2))

theorem toInt_intOfSize {n : Nat} (h : n < 2 ^ 31) :
    (intOfSize n).toInt = n ∧ sizeOfInt (intOfSize n) = n := by
  have e : (intOfSize n).toInt = n := by
    rw [intOfSize, Int32.toInt_ofNat']
    exact Int.bmod_eq_of_le (by simp [Int32.size]) (by simp [Int32.size]; omega)
  refine ⟨e, ?_⟩
  rw [sizeOfInt, e]
  omega

theorem serialized_eq_some {r : HttpReq} {out text : Bytes} (hlen : (serialText r).length < 2 ^ 31) :
    serialized r out = some text ↔ text = serialText r ∧ (serialText r).length < out.length := by
  obtain ⟨h1, h2⟩ := toInt_intOfSize hlen
  by_cases h : (serialText r).length < out.length
  · have hpos : ¬ intOfSize (serialText r).length < 0 := by
      rw [Int32.lt_iff_toInt_lt, h1]
      simp
    simp only [serialized, serialize_fits h, if_neg hpos, h2, List.take_left, Option.some.injEq, h,
      and_true]
    exact eq_comm
  · have hfull := serialize_full (Nat.le_of_not_lt h)
    simp only [serialized, hfull]
    rw [if_pos (by decide)]
    simp [h]

theorem serialized_length {r : HttpReq} {out text : Bytes} (hout : out.length < 2 ^ 31)
    (h : serialized r out = some text) : text.length < out.length := by
  by_cases hfit : (serialText r).length < out.length
  · have heq := (serialized_eq_some (Nat.lt_trans hfit hout)).mp h
    rw [heq.1]
    exact hfit
  · rw [serialized, serialize_full (Nat.le_of_not_lt hfit)] at h
    cases h

end NexusGateway
