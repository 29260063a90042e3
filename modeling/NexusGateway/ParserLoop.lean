import Mathlib.Data.List.Induction
import NexusGateway.HttpSerialize

/- The loop of `nexus_http_req_feed` over any calls (`http_parser.c`).

   Whatever calls have been made on a request since `nexus_http_req_init`, the next one
   comes to its end in at most two passes for each byte and one more, returns a count that
   is neither negative nor above the length it was given, and leaves a request of which
   the same can be said (`feed_ends`). What carries it is that a body that is being read has
   bytes to come (`HttpReq.Sound.body`): with none the loop would go round without
   consuming, and a negative count would be a huge one as `size_t`. -/
namespace NexusGateway
open CString Incremental

/-- The request after these calls of `nexus_http_req_feed`, from `nexus_http_req_init`. -/
def fedReq (calls : List Bytes) : HttpReq :=
  calls.foldl (fun r data => (httpReqFeed r data).1) httpReqInit

/-- The loop of `nexus_http_req_feed`, a unit of fuel for each pass. -/
def feedLoop (fuel : Nat) (r : HttpReq) (data : Bytes) : Option (Reader.Walk HttpReq UInt8) :=
  feedReader.walk fuel r data

/-- The text is terminated within an array of this size. -/
def TerminatedWithin (size : Nat) (text : Bytes) : Prop := NulFree text ∧ text.length < size

theorem charArray_terminated {size : Nat} (a : CharArray size) :
    TerminatedWithin size a.text :=
  ⟨a.nulFree, a.fits⟩

/-- What holds of a request between calls. -/
structure HttpReq.Sound (r : HttpReq) : Prop where
  body : r.state = .body → 0 < r.bodyRemaining.toInt
  headers : r.headers.entries.length ≤ 32
  method : TerminatedWithin 16 r.method.text
  path : TerminatedWithin 1024 r.path.text
  version : TerminatedWithin 16 r.version.text

theorem HttpReq.Ok.sound {r : HttpReq} (h : r.Ok) : r.Sound where
  body hb := by simpa [Int32.lt_iff_toInt_lt] using h hb
  headers := r.headers.count_le
  method := charArray_terminated r.method
  path := charArray_terminated r.path
  version := charArray_terminated r.version

theorem feed_ok {r : HttpReq} (h : r.Ok) (data : Bytes) : (httpReqFeed r data).1.Ok :=
  Reader.run_inv feedStep_ok r data h

theorem fedReq_ok (calls : List Bytes) : (fedReq calls).Ok := by
  induction calls using List.reverseRecOn with
  | nil => exact httpReqInit_ok
  | append_singleton calls data ih => simpa [fedReq] using feed_ok ih data

theorem feedReader_rank_le (r : HttpReq) (data : Bytes) :
    feedReader.rank r data ≤ 2 * data.length + 1 := by
  simp only [feedReader]
  split <;> omega

/-- **Every call comes to its end.** For every calls made since `nexus_http_req_init` and every
    further input of a length that is an `int`: the loop ends in at most `2 * len + 1` passes
    and did what `nexus_http_req_feed` does, the count returned is between 0 and the
    length, and in the new state a body that is being read has bytes to come, at most 32
    headers are stored, and method, path and version are terminated within their arrays. -/
theorem feed_ends (calls : List Bytes) (data : Bytes) (hlen : data.length < 2 ^ 31) :
    (∀ fuel ≥ 2 * data.length + 1, ∃ w, feedLoop fuel (fedReq calls) data = some w ∧
      (w.final, intOfSize w.taken) = httpReqFeed (fedReq calls) data ∧
      w.visits.length ≤ 2 * data.length + 1 ∧ ∀ v ∈ w.visits, v.1.Sound) ∧
    0 ≤ (httpReqFeed (fedReq calls) data).2.toInt ∧
    (httpReqFeed (fedReq calls) data).2.toInt ≤ data.length ∧
    (httpReqFeed (fedReq calls) data).1.Sound := by
  have hrank := feedReader_rank_le (fedReq calls) data
  have hle := feed_le (fedReq calls) data
  have hcount : (httpReqFeed (fedReq calls) data).2.toInt = (feed (fedReq calls) data).2 :=
    (toInt_intOfSize (by omega)).1
  refine ⟨fun fuel hfuel => ?_, by omega, by omega, (feed_ok (fedReq_ok calls) data).sound⟩
  obtain ⟨w, hw, hrun, hpasses⟩ := Reader.walk_enough fuel (hrank.trans hfuel)
  refine ⟨w, hw, ?_, hpasses.trans hrank, fun v hv => ?_⟩
  · rw [httpReqFeed, feed, ← hrun]
  · -- a pass keeps it whatever the text in front
    have hkeep := Reader.walk_inv (I := fun r _ => r.Ok) (m := feedReader)
      (fun r rest r' n h hs => feedStep_ok r rest r' n h hs) fuel (fedReq_ok calls) hw v hv
    exact hkeep.sound

/-- A body read in part, then the rest of it with a byte to spare. -/
theorem feed_ends_body :
    let calls := [ascii "POST /a HTTP/1.1\r\nContent-Length: 3\r\n\r\nx"]
    let data := ascii "yz!"
    (∀ fuel ≥ 2 * data.length + 1, ∃ w, feedLoop fuel (fedReq calls) data = some w ∧
      (w.final, intOfSize w.taken) = httpReqFeed (fedReq calls) data ∧
      w.visits.length ≤ 2 * data.length + 1 ∧ ∀ v ∈ w.visits, v.1.Sound) ∧
    0 ≤ (httpReqFeed (fedReq calls) data).2.toInt ∧
    (httpReqFeed (fedReq calls) data).2.toInt ≤ data.length ∧
    (httpReqFeed (fedReq calls) data).1.Sound :=
  feed_ends _ _ (by decide)

end NexusGateway
