import NexusGateway.HttpRewrite
import NexusGateway.Lib.Numerals

/- The text of a request id (`generate_req_id` of `http_rewrite.c`).

   The digits are written from the end of the buffer towards its start, in front of a NUL;
   the loop is left when the id is used up or the pointer has passed the start. A buffer of
   14 bytes has room for the 13 digits of every id, so what is returned is the id's base-36
   numeral, whole, inside the buffer (`req_id_numeral`). -/
namespace NexusGateway
open CString Numerals

/-- The number that base-36 digits write. -/
def base36Value (digits : Bytes) : Nat := digits.foldl (fun n c => 36 * n + base36.idxOf c) 0

theorem idxOf_base36 {r : Nat} (h : r < 36) : base36.idxOf (base36.getD r 0) = r := by
  have hall : ∀ r < 36, base36.idxOf (base36.getD r 0) = r := by decide +kernel
  exact hall r h

/-- `chars`, as an alphabet. -/
def base36Alphabet : Alphabet UInt8 where
  base := 36
  digit := fun d => base36.getD d 0
  val := base36.idxOf
  two_le := by omega
  val_digit := fun _ => idxOf_base36

/-- The base-36 numeral of a number. -/
def base36Numeral (n : Nat) : Bytes := base36Alphabet.numeral n

theorem base36Value_numeral (n : Nat) : base36Value (base36Numeral n) = n :=
  base36Alphabet.value_numeral n

theorem base36Numeral_nulFree (n : Nat) : NulFree (base36Numeral n) := by
  have hdigit : ∀ d < 36, base36.getD d 0 ≠ 0 := by decide +kernel
  intro h
  rw [base36Numeral, Alphabet.numeral] at h
  split at h
  · simp only [List.mem_singleton] at h
    exact hdigit 0 (by omega) h.symm
  · obtain ⟨d, hd, hzero⟩ := List.mem_map.mp h
    have hlt : d < 36 := Nat.digits_lt_base (by omega) (List.mem_reverse.mp hd)
    exact hdigit d hlt hzero

theorem base36Numeral_pass (id : UInt64) :
    if id / 36 > 0 then
      36 ≤ id.toNat ∧ base36Numeral id.toNat =
        base36Numeral (id / 36).toNat ++ [base36.getD (id % 36).toNat 0]
    else base36Numeral id.toNat = [base36.getD (id % 36).toNat 0] := by
  have hmod : (id % 36).toNat = id.toNat % 36 := UInt64.toNat_mod id 36
  have hdiv : (id / 36).toNat = id.toNat / 36 := UInt64.toNat_div id 36
  rw [hmod, hdiv]
  split
  · rename_i hmore
    have hle : 36 ≤ id.toNat := by
      have hpos : 0 < (id / 36).toNat := by simpa [UInt64.lt_iff_toNat_lt] using hmore
      omega
    exact ⟨hle, base36Alphabet.numeral_step hle⟩
  · rename_i hlast
    have hlt : id.toNat < 36 := by
      have hzero : ¬ 0 < (id / 36).toNat := by simpa [UInt64.lt_iff_toNat_lt] using hlast
      omega
    rw [Nat.mod_eq_of_lt hlt]
    exact base36Alphabet.numeral_digit hlt

theorem reqIdDigits_eq (places : Nat) : ∀ (id : UInt64) (digits : Bytes), 0 < places →
    id.toNat < 36 ^ places → reqIdDigits places id digits = base36Numeral id.toNat ++ digits := by
  induction places with
  | zero =>
    intro id digits h
    omega
  | succ places ih =>
    intro id digits _ h
    have hpass := base36Numeral_pass id
    rw [reqIdDigits]
    split
    · rename_i hmore
      rw [if_pos hmore] at hpass
      have hplaces : places ≠ 0 := by
        rintro rfl
        omega
      have hlt : (id / 36).toNat < 36 ^ places := by
        rw [UInt64.toNat_div]
        exact (Nat.div_lt_iff_lt_mul (by simp)).mpr (by simpa [Nat.pow_succ] using h)
      simp [ih (id / 36) _ (Nat.pos_of_ne_zero hplaces) hlt, hpass.2]
    · rename_i hlast
      rw [if_neg hlast] at hpass
      simp [hpass]

theorem generateReqId_eq (d : IdDraw) : generateReqId d 16 = base36Numeral d.id.toNat := by
  have hlt : d.id.toNat < 36 ^ 15 := d.id.toNat_lt.trans (by norm_num)
  rw [generateReqId, reqIdDigits_eq 15 d.id [] (by omega) hlt, List.append_nil]

/-! ## In the buffer -/

/-- The loop of `generate_req_id` on the bytes of its buffer, with the pointer at the last of
    `places` bytes: the buffer after it, and the offset returned. There is none when a byte in
    front of the buffer is written to. -/
def reqIdLoop : (places : Nat) → Bytes → UInt64 → Option (Bytes × Nat)
  | 0, _, _ => none
  | p + 1, buf, id =>
    let buf := buf.set p (base36.getD (id % 36).toNat 0)
    if id / 36 > 0 ∧ p > 0 then reqIdLoop p buf (id / 36) else some (buf, p)

/-- `generate_req_id` into a buffer that holds `buf`. -/
def generateReqIdInto (d : IdDraw) (buf : Bytes) : Option (Bytes × Nat) :=
  reqIdLoop (buf.length - 1) (buf.set (buf.length - 1) 0) d.id

/-- The string at the pointer returned. -/
def reqIdString (d : IdDraw) (buf : Bytes) : Option Bytes :=
  (generateReqIdInto d buf).map (fun w => cstr (w.1.drop w.2))

/-- The loop puts the numeral in front of what stands behind the pointer. -/
theorem reqIdLoop_eq (places : Nat) : ∀ (buf : Bytes) (id : UInt64), 0 < places →
    places ≤ buf.length → id.toNat < 36 ^ places →
    ∃ off, off + (base36Numeral id.toNat).length = places ∧ reqIdLoop places buf id =
      some (buf.take off ++ (base36Numeral id.toNat ++ buf.drop places), off) := by
  induction places with
  | zero =>
    intro buf id h
    omega
  | succ p ih =>
    intro buf id _ hp hid
    have hpass := base36Numeral_pass id
    have hset : buf.set p (base36.getD (id % 36).toNat 0) =
        buf.take p ++ base36.getD (id % 36).toNat 0 :: buf.drop (p + 1) := by
      simp [List.set_eq_take_append_cons_drop, show p < buf.length by omega]
    by_cases hmore : id / 36 > 0
    · rw [if_pos hmore] at hpass
      have hpos : p ≠ 0 := by
        rintro rfl
        omega
      have hlt : (id / 36).toNat < 36 ^ p := by
        rw [UInt64.toNat_div]
        exact (Nat.div_lt_iff_lt_mul (by simp)).mpr (by simpa [Nat.pow_succ] using hid)
      obtain ⟨off, hoff, hloop⟩ := ih (buf.set p (base36.getD (id % 36).toNat 0)) (id / 36)
        (Nat.pos_of_ne_zero hpos) (by rw [List.length_set]; omega) hlt
      refine ⟨off, by rw [hpass.2, List.length_append, List.length_singleton]; omega, ?_⟩
      rw [reqIdLoop, if_pos ⟨hmore, Nat.pos_of_ne_zero hpos⟩, hloop, hpass.2, hset]
      have htake : (buf.take p ++ base36.getD (id % 36).toNat 0 :: buf.drop (p + 1)).take off =
          buf.take off := by
        rw [List.take_append_of_le_length (by rw [List.length_take]; omega), List.take_take,
          Nat.min_eq_left (by omega)]
      have hdrop : (buf.take p ++ base36.getD (id % 36).toNat 0 :: buf.drop (p + 1)).drop p =
          base36.getD (id % 36).toNat 0 :: buf.drop (p + 1) :=
        List.drop_left' (by rw [List.length_take]; omega)
      rw [htake, hdrop]
      simp
    · rw [if_neg hmore] at hpass
      refine ⟨p, by simp [hpass], ?_⟩
      rw [reqIdLoop, if_neg (fun h => hmore h.1), hpass, hset]
      simp

theorem generateReqIdInto_eq (d : IdDraw) {buf : Bytes} (hlen : 14 ≤ buf.length) :
    ∃ off, off + (base36Numeral d.id.toNat).length + 1 = buf.length ∧ generateReqIdInto d buf =
      some (buf.take off ++ (base36Numeral d.id.toNat ++ [0]), off) := by
  have hlt : d.id.toNat < 36 ^ (buf.length - 1) := calc
    d.id.toNat < 2 ^ 64 := d.id.toNat_lt
    _ ≤ 36 ^ 13 := by norm_num
    _ ≤ 36 ^ (buf.length - 1) := Nat.pow_le_pow_right (by omega) (by omega)
  obtain ⟨off, hoff, hloop⟩ := reqIdLoop_eq (buf.length - 1) (buf.set (buf.length - 1) 0) d.id
    (by omega) (by rw [List.length_set]; omega) hlt
  have htake : (buf.set (buf.length - 1) 0).take off = buf.take off :=
    List.take_set_of_le (by omega)
  have hdrop : (buf.set (buf.length - 1) 0).drop (buf.length - 1) = [0] := by
    rw [List.set_eq_take_append_cons_drop, if_pos (by omega),
      List.drop_left' (by rw [List.length_take]; omega), List.drop_of_length_le (by omega)]
  refine ⟨off, by omega, ?_⟩
  rw [generateReqIdInto, hloop, htake, hdrop]

theorem reqIdString_eq (d : IdDraw) {buf : Bytes} (hlen : 14 ≤ buf.length) :
    reqIdString d buf = some (base36Numeral d.id.toNat) := by
  obtain ⟨off, hoff, hinto⟩ := generateReqIdInto_eq d hlen
  rw [reqIdString, hinto, Option.map_some, List.drop_left' (by rw [List.length_take]; omega),
    cstr_append (base36Numeral_nulFree _)]
  simp [cstr]

/-- **The request id's text.** For every draw and every buffer of at least 14 bytes, whatever
    it holds: the string returned is the id's base-36 numeral and its NUL, at the end of the
    buffer and all of it inside; the bytes in front are as they were. Its first digit is not
    zero unless the id is, reading it gives the id, and another id gives another string. -/
theorem req_id_numeral (d : IdDraw) (buf : Bytes) (hlen : 14 ≤ buf.length) :
    (∃ off, off + (base36Numeral d.id.toNat).length + 1 = buf.length ∧
      generateReqIdInto d buf =
        some (buf.take off ++ (base36Numeral d.id.toNat ++ [0]), off)) ∧
    reqIdString d buf = some (base36Numeral d.id.toNat) ∧
    ((base36Numeral d.id.toNat).head? = some 48 → d.id = 0) ∧
    base36Value (base36Numeral d.id.toNat) = d.id.toNat ∧
    ∀ (d' : IdDraw) (buf' : Bytes), 14 ≤ buf'.length → reqIdString d' buf' = reqIdString d buf →
      d'.id = d.id := by
  refine ⟨generateReqIdInto_eq d hlen, reqIdString_eq d hlen, fun hzero => ?_,
    base36Value_numeral _, fun d' buf' hlen' hsame => ?_⟩
  · exact UInt64.toNat_inj.mp (base36Alphabet.numeral_head hzero)
  · rw [reqIdString_eq d hlen, reqIdString_eq d' hlen', Option.some.injEq] at hsame
    exact UInt64.toNat_inj.mp (base36Alphabet.numeral_injective hsame)

/-- The id of the largest clock and numbers, in a buffer with no byte to spare. -/
theorem req_id_numeral_largest :
    reqIdString ⟨18446744073709551615, 2147483647, 2147483647⟩ (List.replicate 14 120) =
      some (ascii "3w5e11264sgsf") := by
  have h := (req_id_numeral ⟨18446744073709551615, 2147483647, 2147483647⟩
    (List.replicate 14 120) (by decide)).2.1
  rw [h]
  decide +kernel

end NexusGateway
