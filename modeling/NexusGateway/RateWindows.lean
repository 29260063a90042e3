import NexusGateway.Admission
import NexusGateway.Lib.Slots
import NexusGateway.Lib.TokenBucket
import Mathlib.Algebra.Order.Field.Basic

/- The limiter as a bound on every window of an address's calls.

   The entry of an address is the first of its text, and only a call for that address
   changes it (`rlCheck_own`, `rlCheck_other`); between its calls it is a token bucket
   of the rate's size (`take_eq_call`). `rl_check_windows`: from the call that creates
   the entry on, a call is let in exactly when every window of the address's calls
   that ends with it has room. -/
namespace NexusGateway
open CString TokenBucket

/-- A call of `nexus_rl_check`: the address, and the clock when an entry is created for
    it and when the entry is refilled. -/
structure RlCall where
  ip : Bytes
  createdMs : UInt64
  nowMs : UInt64
  deriving DecidableEq, Repr

/-- Calls one after the other, each with its verdict. -/
def rlVerdicts (rl : RateLimiter) : List RlCall → List (RlCall × Bool)
  | [] => []
  | k :: calls =>
    let r := rlCheck rl k.ip k.createdMs k.nowMs
    (k, r.2) :: rlVerdicts r.1 calls

/-- The call is for this address. -/
def RlCall.isFor (ip : Bytes) (k : RlCall) : Bool := strEq k.ip ip

/-- The calls for an address, with their verdicts. -/
def verdictsFor (ip : Bytes) (rl : RateLimiter) (calls : List RlCall) : List (RlCall × Bool) :=
  (rlVerdicts rl calls).filter (fun v => v.1.isFor ip)

/-- The entry of an address. -/
def RateLimiter.entryOf (rl : RateLimiter) (ip : Bytes) : Option RlEntry :=
  rl.entries.find? (RlEntry.isFor ip)

/-! ## One call -/

theorem RlEntry.take_ip (rate : ℚ) (now : UInt64) (e : RlEntry) : (e.take rate now).1.ip = e.ip := by
  unfold RlEntry.take
  dsimp only
  split <;> split <;> rfl

theorem RlEntry.take_isFor (rate : ℚ) (now : UInt64) (ip : Bytes) (e : RlEntry) :
    RlEntry.isFor ip (e.take rate now).1 = RlEntry.isFor ip e := by
  rw [RlEntry.isFor, RlEntry.isFor, RlEntry.take_ip]

theorem RlEntry.isFor_congr {ip ip' : Bytes} (h : strEq ip' ip = true) :
    RlEntry.isFor ip' = RlEntry.isFor ip := by
  funext e
  rw [RlEntry.isFor, RlEntry.isFor, strEq, strEq, eq_of_beq h]

theorem RlEntry.isFor_other {ip ip' : Bytes} (h : strEq ip' ip = false) {e : RlEntry}
    (he : RlEntry.isFor ip' e = true) : RlEntry.isFor ip e = false := by
  rw [RlEntry.isFor, strEq] at he
  rw [RlEntry.isFor, strEq, eq_of_beq he]
  exact h

theorem rlCheck_own {rl : RateLimiter} {ip ip' : Bytes} {e : RlEntry} (he : rl.entryOf ip = some e)
    (hip : strEq ip' ip = true) (created now : UInt64) :
    (rlCheck rl ip' created now).2 = (e.take rl.rate now).2 ∧
    (rlCheck rl ip' created now).1.rate = rl.rate ∧
    (rlCheck rl ip' created now).1.entryOf ip = some (e.take rl.rate now).1 := by
  have hidx : ∃ i, rl.entries.findIdx? (RlEntry.isFor ip) = some i := by
    cases hi : rl.entries.findIdx? (RlEntry.isFor ip) with
    | some i => exact ⟨i, rfl⟩
    | none =>
      rw [RateLimiter.entryOf, Slots.findIdx?_none hi] at he
      cases he
  obtain ⟨i, hi⟩ := hidx
  obtain ⟨e', hget, hfind, _⟩ := Slots.findIdx?_some hi
  rw [RateLimiter.entryOf, hfind] at he
  cases he
  have hcreate : findOrCreate rl ip' created = (rl, some i) := by
    rw [findOrCreate, RlEntry.isFor_congr hip, hi]
  rw [rlCheck, hcreate]
  refine ⟨?_, rfl, ?_⟩
  · dsimp only
    rw [hget]
    rfl
  · have hmod := Slots.find?_modify_found (f := fun e => (e.take rl.rate now).1)
      (fun x => RlEntry.take_isFor rl.rate now ip x) hi
    rw [hfind] at hmod
    exact hmod

/-- A call for another address leaves the entry alone, whether it finds one, finds the
    table full or creates one. -/
theorem rlCheck_other {rl : RateLimiter} {ip ip' : Bytes} {e : RlEntry}
    (he : rl.entryOf ip = some e) (hip : strEq ip' ip = false) (created now : UInt64) :
    (rlCheck rl ip' created now).1.rate = rl.rate ∧
    (rlCheck rl ip' created now).1.entryOf ip = some e := by
  cases hi : rl.entries.findIdx? (RlEntry.isFor ip') with
  | some i =>
    obtain ⟨x, hget, _, hx⟩ := Slots.findIdx?_some hi
    have hcreate : findOrCreate rl ip' created = (rl, some i) := by
      rw [findOrCreate, hi]
    rw [rlCheck, hcreate]
    refine ⟨rfl, ?_⟩
    have hx' := RlEntry.isFor_other hip hx
    have hmod := Slots.find?_modify_other (f := fun e => (e.take rl.rate now).1) hget hx'
      (by rwa [RlEntry.take_isFor])
    exact hmod.trans he
  | none =>
    by_cases hfull : rl.entries.length ≥ rlMax
    · have hcreate : findOrCreate rl ip' created = (rl, none) := by
        rw [findOrCreate, hi]
        exact dif_pos hfull
      rw [rlCheck, hcreate]
      exact ⟨rfl, he⟩
    · -- the new entry stands behind those there are
      have hcreate : findOrCreate rl ip' created =
          ({ rl with
              entries := rl.entries ++ [⟨.snprintf size64_pos ip', rl.rate, created⟩]
              entries_le := push_length_le hfull _ }, some rl.entries.length) := by
        rw [findOrCreate, hi]
        exact dif_neg hfull
      rw [rlCheck, hcreate]
      refine ⟨rfl, ?_⟩
      show (List.modify _ _ _).find? _ = _
      rw [Slots.modify_push, List.find?_append]
      rw [RateLimiter.entryOf] at he
      rw [he]
      rfl

/-! ## The entry as a bucket -/

/-- The entry's tokens and time. -/
def RlEntry.bucket (e : RlEntry) : Bucket ℚ := ⟨e.tokens, e.lastRefillMs.toNat⟩

/-- A verdict as a call on the bucket. -/
def asCall (v : RlCall × Bool) : Call ℚ := ⟨v.1.nowMs.toNat, v.2⟩

/-- **What a call does to an entry is what it does to the bucket**, when the clock has not
    gone back. -/
theorem take_eq_call {e : RlEntry} {now : UInt64} (hle : e.lastRefillMs ≤ now) (rate : ℚ) :
    (e.take rate now).2 = (e.bucket.call rate (rate / 1000) now.toNat).2 ∧
    (e.take rate now).1.bucket = (e.bucket.call rate (rate / 1000) now.toNat).1 ∧
    (e.take rate now).1.lastRefillMs = now := by
  have helapsed : (((now - e.lastRefillMs).toNat : ℕ) : ℚ) = now.toNat - e.lastRefillMs.toNat := by
    rw [UInt64.toNat_sub_of_le _ _ hle, Nat.cast_sub (UInt64.le_iff_toNat_le.mp hle)]
  have hlevel : e.bucket.level rate (rate / 1000) now.toNat =
      if e.tokens + (now - e.lastRefillMs).toNat / 1000 * rate > rate then rate
      else e.tokens + (now - e.lastRefillMs).toNat / 1000 * rate := by
    have hsum : e.tokens + rate / 1000 * (now.toNat - e.lastRefillMs.toNat) =
        e.tokens + (now - e.lastRefillMs).toNat / 1000 * rate := by
      rw [helapsed]
      ring
    rw [Bucket.level, RlEntry.bucket]
    dsimp only
    rw [hsum]
    split
    · exact min_eq_left (by linarith)
    · exact min_eq_right (by linarith)
  unfold Bucket.call
  rw [hlevel]
  unfold RlEntry.take
  dsimp only
  generalize (if e.tokens + _ > rate then rate else _) = level
  split <;> exact ⟨rfl, rfl, rfl⟩

/-- The times of an address's calls. -/
def timesFor (ip : Bytes) (calls : List RlCall) : List UInt64 :=
  (calls.filter (RlCall.isFor ip)).map RlCall.nowMs

theorem timesFor_cons (ip : Bytes) (k : RlCall) (calls : List RlCall) :
    timesFor ip (k :: calls) =
      if k.isFor ip then k.nowMs :: timesFor ip calls else timesFor ip calls := by
  rw [timesFor, List.filter_cons]
  split <;> rfl

theorem verdictsFor_cons (ip : Bytes) (rl : RateLimiter) (k : RlCall) (calls : List RlCall) :
    verdictsFor ip rl (k :: calls) =
      if k.isFor ip then
        (k, (rlCheck rl k.ip k.createdMs k.nowMs).2) ::
          verdictsFor ip (rlCheck rl k.ip k.createdMs k.nowMs).1 calls
      else verdictsFor ip (rlCheck rl k.ip k.createdMs k.nowMs).1 calls := by
  rw [verdictsFor, rlVerdicts, List.filter_cons]
  rfl

theorem verdictsFor_eq_run {ip : Bytes} (calls : List RlCall) {rl : RateLimiter} {e : RlEntry}
    (he : rl.entryOf ip = some e) (htimes : (e.lastRefillMs :: timesFor ip calls).Pairwise (· ≤ ·)) :
    (verdictsFor ip rl calls).map asCall =
      e.bucket.run rl.rate (rl.rate / 1000) ((timesFor ip calls).map (fun t => (t.toNat : ℚ))) := by
  induction calls generalizing rl e with
  | nil => rfl
  | cons k calls ih =>
    rw [timesFor_cons] at htimes ⊢
    rw [verdictsFor_cons]
    cases hk : k.isFor ip with
    | false =>
      rw [hk, if_neg Bool.false_ne_true] at htimes
      obtain ⟨hrate, hkeep⟩ := rlCheck_other he hk k.createdMs k.nowMs
      rw [if_neg Bool.false_ne_true, if_neg Bool.false_ne_true, ih hkeep htimes, hrate]
    | true =>
      rw [hk, if_pos rfl] at htimes
      obtain ⟨hverdict, hrate, hnext⟩ := rlCheck_own he hk k.createdMs k.nowMs
      obtain ⟨hfirst, hrest⟩ := List.pairwise_cons.mp htimes
      obtain ⟨h1, h2, h3⟩ := take_eq_call (hfirst k.nowMs (by simp)) rl.rate
      rw [if_pos rfl, if_pos rfl, List.map_cons, ih hnext (by rwa [h3]), hrate, h2, List.map_cons,
        Bucket.run, asCall, hverdict, h1]

/-! ## The call that creates the entry -/

theorem rlCheck_new {rl : RateLimiter} {ip : CharArray 64} {ip' : Bytes}
    (hnew : rl.entryOf ip.text = none) (hroom : rl.entries.length < rlMax)
    (hip : strEq ip' ip.text = true) (created now : UInt64) :
    (rlCheck rl ip' created now).2 = ((⟨ip, rl.rate, created⟩ : RlEntry).take rl.rate now).2 ∧
    (rlCheck rl ip' created now).1.rate = rl.rate ∧
    (rlCheck rl ip' created now).1.entryOf ip.text =
      some ((⟨ip, rl.rate, created⟩ : RlEntry).take rl.rate now).1 := by
  have hcut : (CharArray.snprintf size64_pos ip' : CharArray 64) = ip := by
    apply CharArray.ext
    have hfit := ip.fits
    have hsame : cstr ip' = ip.text := (eq_of_beq hip).trans (cstr_of_nulFree ip.nulFree)
    show (cstr ip').take (64 - 1) = ip.text
    rw [hsame]
    exact List.take_of_length_le (by omega)
  have hnone : rl.entries.findIdx? (RlEntry.isFor ip') = none := by
    rw [RlEntry.isFor_congr hip]
    rw [RateLimiter.entryOf, List.find?_eq_none] at hnew
    rw [List.findIdx?_eq_none_iff]
    intro x hx
    exact Bool.eq_false_iff.mpr (hnew x hx)
  have hcreate : findOrCreate rl ip' created =
      ({ rl with
          entries := rl.entries ++ [⟨ip, rl.rate, created⟩]
          entries_le := push_length_le (Nat.not_le.mpr hroom) _ }, some rl.entries.length) := by
    rw [findOrCreate, hnone]
    simp only [hcut]
    exact dif_neg (Nat.not_le.mpr hroom)
  rw [rlCheck, hcreate]
  refine ⟨?_, rfl, ?_⟩
  · dsimp only
    rw [List.getElem?_concat_length]
    rfl
  · show (List.modify _ _ _).find? _ = _
    have hself : RlEntry.isFor ip.text ((⟨ip, rl.rate, created⟩ : RlEntry).take rl.rate now).1 =
        true := by
      rw [RlEntry.take_isFor, RlEntry.isFor]
      exact beq_self_eq_true _
    rw [RateLimiter.entryOf] at hnew
    rw [Slots.modify_push, List.find?_append, hnew, Option.none_or]
    exact List.find?_cons_of_pos hself

theorem take_full {e : RlEntry} {rate : ℚ} (hr : 0 ≤ rate) (he : e.tokens = rate) (now : UInt64) :
    ((e.take rate now).2 = true ↔ 1 ≤ rate) ∧
    (e.take rate now).1.bucket = ⟨rate - if (e.take rate now).2 then 1 else 0, now.toNat⟩ ∧
    (e.take rate now).1.lastRefillMs = now := by
  have hadd : (0 : ℚ) ≤ (now - e.lastRefillMs).toNat / 1000 * rate :=
    mul_nonneg (div_nonneg (Nat.cast_nonneg _) (by norm_num)) hr
  have hlevel : (if e.tokens + (now - e.lastRefillMs).toNat / 1000 * rate > rate then rate
      else e.tokens + (now - e.lastRefillMs).toNat / 1000 * rate) = rate := by
    rw [he]
    split <;> linarith
  have htake : e.take rate now =
      if rate ≥ 1 then ({ e with tokens := rate - 1, lastRefillMs := now }, true)
      else ({ e with tokens := rate, lastRefillMs := now }, false) := by
    unfold RlEntry.take
    dsimp only
    rw [hlevel]
  rw [htake]
  by_cases h1 : rate ≥ 1
  · rw [if_pos h1]
    exact ⟨⟨fun _ => h1, fun _ => rfl⟩, rfl, rfl⟩
  · rw [if_neg h1]
    refine ⟨⟨fun h => Bool.noConfusion h, fun h => absurd h h1⟩, ?_, rfl⟩
    rw [RlEntry.bucket, if_neg Bool.false_ne_true, sub_zero]

theorem take_refused {rate : ℚ} (hr : rate < 1) (e : RlEntry) (now : UInt64) :
    (e.take rate now).2 = false := by
  have hlevel : ¬ (if e.tokens + (now - e.lastRefillMs).toNat / 1000 * rate > rate then rate
      else e.tokens + (now - e.lastRefillMs).toNat / 1000 * rate) ≥ 1 := by
    split <;> linarith
  unfold RlEntry.take
  dsimp only
  rw [if_neg hlevel]

theorem verdictsFor_refused {ip : Bytes} (calls : List RlCall) {rl : RateLimiter} {e : RlEntry}
    (he : rl.entryOf ip = some e) (hr : rl.rate < 1) : ∀ v ∈ verdictsFor ip rl calls, v.2 = false := by
  induction calls generalizing rl e with
  | nil =>
    intro v hv
    cases hv
  | cons k calls ih =>
    rw [verdictsFor_cons]
    cases hk : k.isFor ip with
    | false =>
      obtain ⟨hrate, hkeep⟩ := rlCheck_other he hk k.createdMs k.nowMs
      rw [if_neg Bool.false_ne_true]
      exact ih hkeep (by rwa [hrate])
    | true =>
      obtain ⟨hverdict, hrate, hnext⟩ := rlCheck_own he hk k.createdMs k.nowMs
      rw [if_pos rfl]
      intro v hv
      rcases List.mem_cons.mp hv with rfl | hv
      · exact hverdict.trans (take_refused hr e k.nowMs)
      · exact ih hnext (by rwa [hrate]) v hv

/-! ## The windows -/

/-- Every window of an address's calls that ends with the call at `m` has room for it:
    the calls let in before it, from the window's first on, and one more are at most the
    rate and what the window's time refills. -/
def WindowsRoom (rate : ℚ) (log : List (RlCall × Bool)) (m : Nat) : Prop :=
  ∀ j ≤ m, ∀ f c, log[j]? = some f → log[m]? = some c →
    (((log.take m).drop j).countP Prod.snd : ℚ) + 1 ≤
      rate + rate * ((c.1.nowMs.toNat : ℚ) - f.1.nowMs.toNat) / 1000

theorem windowsRoom_iff (rate : ℚ) (log : List (RlCall × Bool)) (m : Nat) :
    WindowsRoom rate log m ↔ Conforms rate (rate / 1000) (log.map asCall) m := by
  have hcount (j : Nat) : admissions (((log.map asCall).take m).drop j) =
      ((log.take m).drop j).countP Prod.snd := by
    rw [← List.map_take, ← List.map_drop, admissions, List.countP_map]
    rfl
  have hsum (c f : RlCall × Bool) : rate + rate * ((c.1.nowMs.toNat : ℚ) - f.1.nowMs.toNat) / 1000 =
      rate + rate / 1000 * ((asCall c).time - (asCall f).time) := by
    rw [asCall, asCall]
    ring
  constructor
  · intro h j hj f c hf hc
    rw [List.getElem?_map, Option.map_eq_some_iff] at hf hc
    obtain ⟨f', hf', rfl⟩ := hf
    obtain ⟨c', hc', rfl⟩ := hc
    rw [hcount, ← hsum]
    exact h j hj f' c' hf' hc'
  · intro h j hj f c hf hc
    rw [hsum, ← hcount]
    exact h j hj (asCall f) (asCall c) (by rw [List.getElem?_map, hf]; rfl)
      (by rw [List.getElem?_map, hc]; rfl)

theorem no_windowsRoom {rate : ℚ} (hr : rate < 1) {log : List (RlCall × Bool)} {m : Nat}
    {v : RlCall × Bool} (hv : log[m]? = some v) : ¬ WindowsRoom rate log m := by
  intro h
  have hself := h m (Nat.le_refl _) v v hv hv
  rw [sub_self, mul_zero, zero_div, add_zero] at hself
  have hnonneg : (0 : ℚ) ≤ (((log.take m).drop m).countP Prod.snd : ℕ) := Nat.cast_nonneg _
  linarith

/-- **A call is let in exactly when every window has room.** For every limiter, every
    address of at most 63 bytes that has no entry in it, and every sequence of calls
    for any addresses that begins with the one that creates the entry, the address's own
    calls at times that do not go back. -/
theorem rl_check_windows {rl : RateLimiter} {ip : CharArray 64} (hnew : rl.entryOf ip.text = none)
    (hroom : rl.entries.length < rlMax) {k : RlCall} (hk : k.isFor ip.text = true)
    (calls : List RlCall) (htimes : (timesFor ip.text (k :: calls)).Pairwise (· ≤ ·))
    (m : Nat) (v : RlCall × Bool) (hv : (verdictsFor ip.text rl (k :: calls))[m]? = some v) :
    v.2 = true ↔ WindowsRoom rl.rate (verdictsFor ip.text rl (k :: calls)) m := by
  obtain ⟨hverdict, hrate, hnext⟩ := rlCheck_new hnew hroom hk k.createdMs k.nowMs
  rw [timesFor_cons, if_pos hk] at htimes
  rw [verdictsFor_cons, if_pos hk] at hv ⊢
  by_cases hr : 0 ≤ rl.rate
  · -- from the first call on, the bucket knows the windows
    obtain ⟨hfirst, hbucket, hlast⟩ := take_full hr (e := ⟨ip, rl.rate, k.createdMs⟩) rfl k.nowMs
    rw [← hverdict] at hfirst hbucket
    have hrun := verdictsFor_eq_run calls hnext (by rwa [hlast])
    have hdesc := describes_first rl.rate (rl.rate / 1000)
      (c := asCall (k, (rlCheck rl k.ip k.createdMs k.nowMs).2))
    have hvm : (asCall (k, (rlCheck rl k.ip k.createdMs k.nowMs).2) :: (verdictsFor ip.text
        (rlCheck rl k.ip k.createdMs k.nowMs).1 calls).map asCall)[m]? = some (asCall v) := by
      rw [← List.map_cons, List.getElem?_map, hv]
      rfl
    rw [windowsRoom_iff, List.map_cons]
    cases m with
    | zero =>
      cases hv
      rw [hfirst]
      constructor
      · intro h1 j hj f c hf hc
        obtain rfl : j = 0 := by omega
        rw [hf] at hc
        cases hc
        simpa [admissions] using h1
      · intro h
        have := h 0 (Nat.le_refl _) _ _ rfl rfl
        simpa [admissions] using this
    | succ m =>
      rw [hrun, hrate, hbucket] at hvm ⊢
      exact run_admits_iff rl.rate (rl.rate / 1000) hdesc _ (by simp) hvm
  · have hr1 : rl.rate < 1 := by linarith
    have hrefused : v.2 = false := by
      rcases List.mem_cons.mp (List.mem_iff_getElem?.mpr ⟨m, hv⟩) with rfl | hmem
      · exact hverdict.trans (take_refused hr1 _ _)
      · exact verdictsFor_refused calls hnext (by rwa [hrate]) v hmem
    rw [hrefused]
    constructor
    · intro h
      cases h
    · intro h
      exact absurd h (no_windowsRoom hr1 hv)

/-- The address of the sample calls. -/
def sampleAddress : CharArray 64 := .snprintf size64_pos (ascii "1.2.3.4")

/-- Two calls of another address and five of this one: three at once, one when half a
    second has refilled one of its two tokens, one right behind that. -/
def sampleCalls : List RlCall :=
  [⟨ascii "1.2.3.4", 1000, 1000⟩, ⟨ascii "1.2.3.4", 1000, 1000⟩, ⟨ascii "9.9.9.9", 1000, 1000⟩,
    ⟨ascii "1.2.3.4", 1000, 1000⟩, ⟨ascii "1.2.3.4", 1500, 1500⟩, ⟨ascii "9.9.9.9", 10, 10⟩,
    ⟨ascii "1.2.3.4", 1501, 1501⟩]

theorem rl_check_windows_sample :
    ∃ v, (verdictsFor sampleAddress.text (rlInit 2) sampleCalls)[3]? = some v ∧
      (v.2 = true ↔ WindowsRoom (rlInit 2).rate (verdictsFor sampleAddress.text (rlInit 2) sampleCalls) 3) :=
  ⟨(⟨ascii "1.2.3.4", 1500, 1500⟩, true), by decide +kernel,
    rl_check_windows (k := ⟨ascii "1.2.3.4", 1000, 1000⟩) (by decide +kernel) (by decide +kernel)
      (by decide +kernel) sampleCalls.tail (by decide +kernel) 3 _ (by decide +kernel)⟩

example : (verdictsFor sampleAddress.text (rlInit 2) sampleCalls).map Prod.snd =
    [true, true, false, true, false] := by
  decide +kernel

end NexusGateway
