import NexusGateway.Lib.CString

/- Texts printed piece by piece into a buffer.

   `snprintf` writes no more than its size argument allows, and reports the length it
   wanted to write, or -1 where an `int` cannot hold that. A writer that adds the reports up
   and prints every piece behind the ones before gives each call the room that its sum
   leaves, as an unsigned number (`printCalls`): a sum that is past the room would give a
   huge size. That never is so while the whole text is shorter than the room and
   than 2^31: every call then lies inside and cuts nothing (`printCalls_inside`), the sum is the
   length of the text (`printEnd_eq`), and the calls put the pieces one behind the other
   (`applyCalls_eq_emit`, `emits_hold`).

   How the sum is kept, as an `int` or as a `size_t`, is the parameter `wrap`. -/
namespace Prints
open CString

/-- What `snprintf` returns for this text. -/
def reported (text : Bytes) : Int := if text.length < 2 ^ 31 then text.length else -1

/-- A call of `snprintf`: where it is to write, from the start of the buffer, the size argument
    as the `size_t` that it is, and the text. -/
structure PrintCall where
  offset : Int
  size : Nat
  text : Bytes
  deriving DecidableEq, Repr

/-- Nothing of the text is cut off. -/
def PrintCall.Whole (c : PrintCall) : Prop := c.text.length < c.size

/-- The buffer after the call; `none` if it writes outside. -/
def PrintCall.apply (out : Bytes) (c : PrintCall) : Option Bytes :=
  if c.size = 0 then some out
  else
    let text := c.text.take (c.size - 1)
    if 0 ≤ c.offset ∧ c.offset + text.length < out.length then
      some (out.take c.offset.toNat ++ (text ++ 0 :: out.drop (c.offset.toNat + text.length + 1)))
    else none

/-- The buffer after the calls. -/
def applyCalls (out : Bytes) (calls : List PrintCall) : Option Bytes :=
  calls.foldlM PrintCall.apply out

variable (wrap : Int → Int) (room : Nat)

/-- The calls that print these pieces, `n` being the sum before them. -/
def printCalls : Int → List Bytes → List PrintCall
  | _, [] => []
  | n, text :: pieces =>
    ⟨n, ((room - n) % 2 ^ 64).toNat, text⟩ :: printCalls (wrap (n + reported text)) pieces

/-- The sum after them. -/
def printEnd (n : Int) (pieces : List Bytes) : Int :=
  pieces.foldl (fun n text => wrap (n + reported text)) n

/-- Sums below 2^31 are kept as they are. -/
def KeepsSmall : Prop := ∀ n : Int, 0 ≤ n → n < 2 ^ 31 → wrap n = n

variable {wrap} {room}

theorem reported_small {text : Bytes} (h : text.length < 2 ^ 31) : reported text = text.length :=
  if_pos h

theorem wrap_reported (hwrap : KeepsSmall wrap) {pos : Nat} {text : Bytes}
    (h : pos + text.length < 2 ^ 31) :
    wrap (pos + reported text) = ((pos + text.length : Nat) : Int) := by
  rw [reported_small (by omega), hwrap _ (by omega) (by omega)]
  simp

/-- **The sum is the length of the text.** -/
theorem printEnd_eq (hwrap : KeepsSmall wrap) (pieces : List Bytes) : ∀ pos : Nat,
    pos + pieces.flatten.length < 2 ^ 31 →
      printEnd wrap pos pieces = ((pos + pieces.flatten.length : Nat) : Int) := by
  induction pieces with
  | nil => simp [printEnd]
  | cons text pieces ih =>
    intro pos h
    rw [List.flatten_cons, List.length_append] at h ⊢
    have hlater := ih (pos + text.length) (by omega)
    rw [printEnd, List.foldl_cons, wrap_reported hwrap (by omega), ← printEnd, hlater,
      Nat.add_assoc]

/-- The call lies inside the room, knows what is left of it, and cuts nothing. -/
structure PrintCall.Inside (room : Nat) (c : PrintCall) : Prop where
  offset : 0 ≤ c.offset
  size : (c.size : Int) = room - c.offset
  whole : c.Whole

/-- **Every call lies inside** the room and cuts nothing, when the whole text is shorter. -/
theorem printCalls_inside (hwrap : KeepsSmall wrap) (hroom : room < 2 ^ 64) (pieces : List Bytes) :
    ∀ pos : Nat, pos + pieces.flatten.length < room → pos + pieces.flatten.length < 2 ^ 31 →
      ∀ c ∈ printCalls wrap room pos pieces, c.Inside room := by
  induction pieces with
  | nil => simp [printCalls]
  | cons text pieces ih =>
    intro pos hfits hsmall c hc
    rw [List.flatten_cons, List.length_append] at hfits hsmall
    rw [printCalls, wrap_reported hwrap (by omega)] at hc
    obtain rfl | hlater := List.mem_cons.mp hc
    · have hsize : (((room : Int) - pos) % 2 ^ 64).toNat = room - pos := by omega
      refine ⟨Int.natCast_nonneg _, ?_, ?_⟩
      · dsimp only
        omega
      · dsimp only [PrintCall.Whole]
        omega
    · exact ih (pos + text.length) (by omega) (by omega) c hlater

theorem apply_eq_emit {out : Bytes} {pos : Nat} {c : PrintCall} (hc : c.Inside room)
    (hpos : c.offset = pos) (hout : room ≤ out.length) :
    c.apply out = some (emit (out, pos) c.text).1 := by
  have hsize := hc.size
  have hwhole := hc.whole
  rw [PrintCall.Whole] at hwhole
  have htake : c.text.take (c.size - 1) = c.text := List.take_of_length_le (by omega)
  have hmin : min c.text.length (out.length - pos - 1) = c.text.length := by omega
  have hlt : pos < out.length := by omega
  rw [PrintCall.apply, if_neg (by omega)]
  simp only [htake, hpos, Int.toNat_natCast, emit, snprintfAt, if_pos hlt, hmin, List.take_length]
  exact if_pos (by omega)

theorem emit_length {out : Bytes} {pos : Nat} {text : Bytes} (h : pos + text.length < out.length) :
    (emit (out, pos) text).1.length = out.length := by
  have hmin : min text.length (out.length - pos - 1) = text.length := by omega
  simp only [emit, snprintfAt, if_pos (show pos < out.length by omega), hmin, List.take_length,
    List.length_append, List.length_take, List.length_cons, List.length_drop]
  omega

/-- **The calls are writes one behind the other.** -/
theorem applyCalls_eq_emit (hwrap : KeepsSmall wrap) (hroom : room < 2 ^ 64) (pieces : List Bytes) :
    ∀ (pos : Nat) (out : Bytes), pos + pieces.flatten.length < room →
      pos + pieces.flatten.length < 2 ^ 31 → room ≤ out.length →
      applyCalls out (printCalls wrap room pos pieces) = some (pieces.foldl emit (out, pos)).1 := by
  induction pieces with
  | nil => simp [printCalls, applyCalls]
  | cons text pieces ih =>
    intro pos out hfits hsmall hout
    have hinside := printCalls_inside hwrap hroom (text :: pieces) pos hfits hsmall
    rw [printCalls] at hinside ⊢
    rw [List.flatten_cons, List.length_append] at hfits hsmall
    have hfirst := apply_eq_emit (hinside _ List.mem_cons_self) rfl hout
    have hlater := ih (pos + text.length) (emit (out, pos) text).1 (by omega) (by omega)
      (by rw [emit_length (by omega)]; exact hout)
    rw [applyCalls, List.foldlM_cons, hfirst, wrap_reported hwrap (by omega)]
    exact hlater

/-- **Writes one behind the other** hold the text, when it fits. -/
theorem emits_hold {out : Bytes} (first : Bytes) (pieces : List Bytes)
    (h : (first ++ pieces.flatten).length < out.length) :
    Holds out (first ++ pieces.flatten) ((first :: pieces).foldl emit (out, 0)) := by
  have hlater : ∀ (pieces : List Bytes) (text : Bytes) (w : Bytes × Nat), Holds out text w →
      (text ++ pieces.flatten).length < out.length →
      Holds out (text ++ pieces.flatten) (pieces.foldl emit w) := by
    intro pieces
    induction pieces with
    | nil =>
      intro text w hw _
      simpa using hw
    | cons piece pieces ih =>
      intro text w hw hlt
      rw [List.flatten_cons, ← List.append_assoc] at hlt ⊢
      apply ih (text ++ piece) _ _ hlt
      apply emit_next hw
      rw [List.length_append] at hlt
      omega
  apply hlater _ _ _ _ h
  apply emit_first
  rw [List.length_append] at h
  omega

end Prints
