import NexusGateway.Lib.CString
import Mathlib.Algebra.Order.Ring.Rat
import Mathlib.Tactic.Linarith

/- Who is let in (`blacklist.c`, `rate_limit.c`).

   A blacklisted address is refused. Every other address has a bucket of tokens that
   time refills up to the rate, and a request takes one token; an address that finds
   the table full is let in. The tokens are a `double` in the source and a rational
   number here. With a rate that is not negative, a call leaves every bucket between
   nothing and the rate (`rlCheck_ok`). -/
namespace NexusGateway
open CString

/-! ## The blacklist -/

/-- `BL_MAX`. -/
def blMax : Nat := 1024

/-- `nexus_blacklist_t`. -/
structure Blacklist where
  ips : List Bytes
  ips_le : ips.length ≤ blMax
  deriving DecidableEq, Repr

/-- `nexus_bl_init`. -/
def blInit : Blacklist := ⟨[], Nat.zero_le _⟩

/-- `nexus_bl_add`, and what it returns. -/
def blAdd (bl : Blacklist) (ip : Bytes) : Blacklist × Int :=
  if hc : bl.ips.length ≥ blMax then (bl, -1)
  else (⟨bl.ips ++ [cstr ip], push_length_le hc _⟩, 0)

/-- `nexus_bl_check`. -/
def blCheck (bl : Blacklist) (ip : Bytes) : Bool := bl.ips.any (fun x => strEq x ip)

/-! ## The rate limiter -/

/-- `RL_MAX`. -/
def rlMax : Nat := 1024

/-- `rl_entry_t`. -/
structure RlEntry where
  ip : CharArray 64
  tokens : ℚ
  lastRefillMs : UInt64
  deriving DecidableEq, Repr

/-- `nexus_rate_limiter_t`: the first `count` entries. -/
structure RateLimiter where
  entries : List RlEntry
  ratePerSec : Int32
  entries_le : entries.length ≤ rlMax
  deriving DecidableEq, Repr

/-- `nexus_rl_init`. -/
def rlInit (ratePerSec : Int32) : RateLimiter := ⟨[], ratePerSec, Nat.zero_le _⟩

/-- `(double)rl->rate_per_sec`. -/
def RateLimiter.rate (rl : RateLimiter) : ℚ := rl.ratePerSec.toInt

/-- The comparison of `find_or_create`. -/
def RlEntry.isFor (ip : Bytes) (e : RlEntry) : Bool := strEq e.ip.text ip

/-- `find_or_create` at the time `now`: the limiter after it, and the index of the
    entry at the pointer it returns. -/
def findOrCreate (rl : RateLimiter) (ip : Bytes) (now : UInt64) : RateLimiter × Option Nat :=
  match rl.entries.findIdx? (RlEntry.isFor ip) with
  | some i => (rl, some i)
  | none =>
    if hc : rl.entries.length ≥ rlMax then (rl, none)
    else
      ({ rl with
          entries := rl.entries ++ [⟨.snprintf size64_pos ip, rl.rate, now⟩]
          entries_le := push_length_le hc _ },
        some rl.entries.length)

/-- What `nexus_rl_check` does to the entry at the time `now`: the entry after it, and
    whether it gave a token. -/
def RlEntry.take (rate : ℚ) (now : UInt64) (e : RlEntry) : RlEntry × Bool :=
  let elapsed : ℚ := (now - e.lastRefillMs).toNat / 1000
  let tokens := e.tokens + elapsed * rate
  -- what time adds beyond the rate is lost
  let tokens := if tokens > rate then rate else tokens
  if tokens ≥ 1 then ({ e with tokens := tokens - 1, lastRefillMs := now }, true)
  else ({ e with tokens := tokens, lastRefillMs := now }, false)

/-- `nexus_rl_check`, which reads the clock when it creates an entry (`created`) and
    when it refills it (`now`). A full table lets everyone in. -/
def rlCheck (rl : RateLimiter) (ip : Bytes) (created now : UInt64) : RateLimiter × Bool :=
  match findOrCreate rl ip created with
  | (rl, none) => (rl, true)
  | (rl, some i) =>
    ({ rl with
        entries := rl.entries.modify i (fun e => (e.take rl.rate now).1)
        entries_le := by rw [List.length_modify]; exact rl.entries_le },
      (rl.entries[i]?.map (fun e => (e.take rl.rate now).2)).getD true)

/-- A bucket's bounds. -/
def RlEntry.Ok (rate : ℚ) (e : RlEntry) : Prop := 0 ≤ e.tokens ∧ e.tokens ≤ rate

/-- A bucket stays between nothing and the rate. -/
theorem RlEntry.take_bounds {rate : ℚ} {e : RlEntry} (hr : 0 ≤ rate) (he : e.Ok rate)
    (now : UInt64) : (e.take rate now).1.Ok rate := by
  obtain ⟨h0, h1⟩ := he
  have helapsed : (0 : ℚ) ≤ (now - e.lastRefillMs).toNat / 1000 * rate :=
    mul_nonneg (div_nonneg (Nat.cast_nonneg _) (by norm_num)) hr
  unfold RlEntry.take
  dsimp only
  -- from here on only the sign of what is added matters
  generalize (((now - e.lastRefillMs).toNat : ℚ) / 1000 * rate) = d at *
  split <;> split <;> constructor <;> dsimp only <;> linarith

/-- Every bucket of a limiter is within its bounds. -/
def RateLimiter.Ok (rl : RateLimiter) : Prop := ∀ e ∈ rl.entries, e.Ok rl.rate

theorem findOrCreate_ok {rl : RateLimiter} (hr : 0 ≤ rl.rate) (h : rl.Ok) (ip : Bytes)
    (now : UInt64) :
    (findOrCreate rl ip now).1.rate = rl.rate ∧ (findOrCreate rl ip now).1.Ok := by
  unfold findOrCreate
  split
  · exact ⟨rfl, h⟩
  · split
    · exact ⟨rfl, h⟩
    · refine ⟨rfl, fun e he => ?_⟩
      rcases List.mem_append.mp he with he | he
      · exact h e he
      · rw [List.mem_singleton.mp he]
        exact ⟨hr, le_refl _⟩

/-- **No bucket leaves its bounds**, whatever address is checked and when. -/
theorem rlCheck_ok {rl : RateLimiter} (hr : 0 ≤ rl.rate) (h : rl.Ok) (ip : Bytes)
    (created now : UInt64) : (rlCheck rl ip created now).1.Ok := by
  obtain ⟨hrate, hok⟩ := findOrCreate_ok hr h ip created
  unfold rlCheck
  split
  · rename_i rl' heq
    rw [heq] at hok
    exact hok
  · rename_i rl' i heq
    rw [heq] at hok hrate
    have hr' : 0 ≤ rl'.rate := by
      rw [show rl'.rate = rl.rate from hrate]
      exact hr
    intro e he
    obtain ⟨j, hj, rfl⟩ := List.mem_iff_getElem.mp he
    have hlt : j < rl'.entries.length := by simpa using hj
    have hmem := hok _ (List.getElem_mem hlt)
    dsimp only
    rw [List.getElem_modify]
    split
    · exact RlEntry.take_bounds hr' hmem now
    · exact hmem

end NexusGateway
