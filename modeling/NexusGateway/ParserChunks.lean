import NexusGateway.HttpParser

/- Feeding the parser in segments.

   A driver hands `nexus_http_req_feed` what the calls before left unconsumed and
   the next chunk. `feedChunks_eq_feed`: however the input is cut, the request in
   every field and the number of bytes consumed are those of one call on the whole
   input. A pass over a line is not changed by text behind the line end it found;
   a pass over the body is cut short by the end of the chunk, and the next call
   takes the rest of the same count. -/
namespace NexusGateway
open CString Lines Incremental

/-- A call for each chunk, on the bytes left unconsumed and the chunk; the bytes
    consumed are summed over the calls. -/
def feedChunks (r : HttpReq) (chunks : List Bytes) : HttpReq × Nat :=
  feedReader.drive r [] chunks

theorem feedBody_split {r : HttpReq} (h : 0 < r.bodyRemaining) {len : Nat}
    (hl : len < sizeOfInt r.bodyRemaining) (more : Nat) :
    feedBody r (len + more) =
      ((feedBody (feedBody r len).1 more).1, len + (feedBody (feedBody r len).1 more).2) := by
  obtain ⟨hp, hz⟩ := sub_intOfSize_pos h hl
  rw [feedBody_part h hl]
  by_cases hm : more < sizeOfInt r.bodyRemaining - len
  · have h1 : len + more < sizeOfInt r.bodyRemaining := by omega
    rw [feedBody_part h h1, feedBody_part (r := { r with bodyRemaining := _, state := _ }) hp
      (by rw [hz]; exact hm)]
    have e : intOfSize (len + more) = intOfSize len + intOfSize more := Int32.ofNat_add ..
    simp only [e, Int32.sub_eq_add_neg, Int32.neg_add, Int32.add_assoc]
  · have h1 : sizeOfInt r.bodyRemaining ≤ len + more := by omega
    rw [feedBody_all h h1, feedBody_all (r := { r with bodyRemaining := _, state := _ }) hp
      (by rw [hz]; omega)]
    simp only [hz]
    congr 1
    omega

/-- Every pass can be resumed. -/
theorem feedReader_resumable : feedReader.Resumable HttpReq.Ok := by
  intro r rest more r' n hok hs
  rcases feedStep_cases hs with ⟨hb, hne, he⟩ | ⟨hh, eol, heol, hr', hn⟩
  · have hr : r' = (feedBody r rest.length).1 := congrArg Prod.fst he
    have hn : n = (feedBody r rest.length).2 := congrArg Prod.snd he
    have hpos := hok hb
    by_cases hl : rest.length < sizeOfInt r.bodyRemaining
    · cases more with
      | nil => exact Reader.resume_of_stable hs [] (by simpa using hs)
      | cons b more =>
        -- the chunk ended inside the body
        have hn' : n = rest.length := by rw [hn, feedBody_part hpos hl]
        have hb' : r'.state = .body := by rw [hr, feedBody_part hpos hl]
        have hsplit := feedBody_split hpos hl (b :: more).length
        rw [← hr] at hsplit
        rcases hq : feedBody r' (b :: more).length with ⟨r2, t⟩
        rw [hq] at hsplit
        have h1 : feedReader.step r (rest ++ b :: more) = some (r2, rest.length + t) := by
          show feedStep r (rest ++ b :: more) = _
          rw [feedStep_body hb (by simp), List.length_append, hsplit]
        have h2 : feedReader.step r' (b :: more) = some (r2, t) := by
          show feedStep r' (b :: more) = _
          rw [feedStep_body hb' (by simp), hq]
        have hd : rest.drop n ++ b :: more = b :: more := by
          rw [hn', List.drop_length, List.nil_append]
        rw [hd, Reader.run_some h1, Reader.run_some h2, hn', ← List.drop_drop, List.drop_left,
          Nat.add_assoc]
    · -- all of the body is here: what is behind it is not looked at
      refine Reader.resume_of_stable hs more ?_
      have hle := Nat.not_lt.mp hl
      have h1 : sizeOfInt r.bodyRemaining ≤ (rest ++ more).length := by
        rw [List.length_append]; omega
      show feedStep r (rest ++ more) = some (r', n)
      rw [feedStep_body hb (by simp [hne]), feedBody_all hpos h1, hr, hn, feedBody_all hpos hle]
  · refine Reader.resume_of_stable hs more ?_
    have hle : lineLen eol ≤ rest.length := by
      have h1 := findEol_le heol
      have h2 := lineLen_le eol
      omega
    show feedStep r (rest ++ more) = some (r', n)
    rw [feedStep_head hh, findEol_append heol more, Option.map_some,
      List.take_append_of_le_length hle, ← hr', ← hn]

/-- **Cutting the input changes nothing.** For every way to cut an input into
    chunks, the request and the bytes consumed are those of one call, and the one
    call returns that number as an `int`. -/
theorem feedChunks_eq_feed (chunks : List Bytes) :
    feedChunks httpReqInit chunks = feed httpReqInit chunks.flatten ∧
    httpReqFeed httpReqInit chunks.flatten =
      ((feedChunks httpReqInit chunks).1, intOfSize (feedChunks httpReqInit chunks).2) := by
  have h : feedChunks httpReqInit chunks = feed httpReqInit chunks.flatten :=
    Reader.drive_eq_run feedReader_resumable feedStep_ok chunks httpReqInit [] httpReqInit_ok rfl
  exact ⟨h, by rw [h]; rfl⟩

end NexusGateway
