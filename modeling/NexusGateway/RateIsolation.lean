import NexusGateway.RateWindows
import Mathlib.Data.Finset.Card

/- What one address is told does not depend on the others' calls (`nexus_rl_check` of
   `rate_limit.c`).

   All addresses share one table, filled by search and append. No address has two entries,
   and every entry is of an address that was called for (`Keyed`); so with no more
   addresses than places one without an entry always finds a place, and the run with all
   calls and the run with its own calls keep the same entry for it. -/
namespace NexusGateway
open CString

/-- The addresses of the entries. -/
def RateLimiter.keys (rl : RateLimiter) : List Bytes := rl.entries.map (fun e => e.ip.text)

/-- No address has two entries, and each entry is of one of these addresses. -/
structure RateLimiter.Keyed (addresses : Finset Bytes) (rl : RateLimiter) : Prop where
  once : rl.keys.Nodup
  called : ∀ a ∈ rl.keys, a ∈ addresses

/-- The addresses that are called for. -/
def addressesOf (calls : List RlCall) : Finset Bytes := (calls.map (fun k => cstr k.ip)).toFinset

theorem entryOf_eq_none {rl : RateLimiter} {ip : Bytes} :
    rl.entryOf ip = none ↔ cstr ip ∉ rl.keys := by
  have hkey (e : RlEntry) : RlEntry.isFor ip e = true ↔ e.ip.text = cstr ip := by
    rw [RlEntry.isFor, strEq, cstr_of_nulFree e.ip.nulFree]
    exact beq_iff_eq
  simp only [RateLimiter.entryOf, List.find?_eq_none, hkey, RateLimiter.keys, List.mem_map,
    not_exists, not_and]

theorem rlCheck_keys (rl : RateLimiter) (ip : Bytes) (created now : UInt64) :
    (rlCheck rl ip created now).1.rate = rl.rate ∧
    ((rlCheck rl ip created now).1.keys = rl.keys ∨
      (cstr ip ∉ rl.keys ∧ (rlCheck rl ip created now).1.keys = rl.keys ++ [(cstr ip).take 63])) := by
  have hmodify (entries : List RlEntry) (i : Nat) :
      (entries.modify i (fun e => (e.take rl.rate now).1)).map (fun e => e.ip.text) =
        entries.map (fun e => e.ip.text) := by
    apply List.ext_getElem?
    intro j
    rw [List.getElem?_map, List.getElem?_map, List.getElem?_modify]
    cases entries[j]? with
    | none => rfl
    | some e =>
      simp only [Option.map_eq_map, Option.map_some]
      split
      · rw [RlEntry.take_ip]
      · rfl
  cases hi : rl.entries.findIdx? (RlEntry.isFor ip) with
  | some i =>
    have hcreate : findOrCreate rl ip created = (rl, some i) := by
      rw [findOrCreate, hi]
    rw [rlCheck, hcreate]
    exact ⟨rfl, .inl (hmodify rl.entries i)⟩
  | none =>
    have hnew : cstr ip ∉ rl.keys := entryOf_eq_none.mp (Slots.findIdx?_none hi)
    by_cases hfull : rl.entries.length ≥ rlMax
    · have hcreate : findOrCreate rl ip created = (rl, none) := by
        rw [findOrCreate, hi]
        exact dif_pos hfull
      rw [rlCheck, hcreate]
      exact ⟨rfl, .inl rfl⟩
    · have hcreate : findOrCreate rl ip created =
          ({ rl with
              entries := rl.entries ++ [⟨.snprintf size64_pos ip, rl.rate, created⟩]
              entries_le := push_length_le hfull _ }, some rl.entries.length) := by
        rw [findOrCreate, hi]
        exact dif_neg hfull
      rw [rlCheck, hcreate]
      refine ⟨rfl, .inr ⟨hnew, ?_⟩⟩
      refine (hmodify _ _).trans ?_
      rw [List.map_append]
      rfl

/-! ## The table holds each address once -/

variable {addresses : Finset Bytes}

theorem RateLimiter.keyed_init (rate : Int32) : (rlInit rate).Keyed addresses where
  once := List.nodup_nil
  called := fun _ h => by cases h

theorem RateLimiter.Keyed.check {rl : RateLimiter} (h : rl.Keyed addresses) {ip : Bytes}
    (hip : cstr ip ∈ addresses) (hshort : (cstr ip).length ≤ 63) (created now : UInt64) :
    (rlCheck rl ip created now).1.Keyed addresses := by
  obtain ⟨_, hkeys | ⟨hnew, hkeys⟩⟩ := rlCheck_keys rl ip created now
  · exact ⟨hkeys ▸ h.once, hkeys ▸ h.called⟩
  · rw [List.take_of_length_le hshort] at hkeys
    refine ⟨?_, ?_⟩
    · rw [hkeys, List.nodup_append]
      refine ⟨h.once, List.nodup_singleton _, fun a ha b hb => ?_⟩
      rw [List.mem_singleton.mp hb]
      exact fun hab => hnew (hab ▸ ha)
    · intro a ha
      rw [hkeys, List.mem_append] at ha
      obtain ha | ha := ha
      · exact h.called a ha
      · rwa [List.mem_singleton.mp ha]

theorem RateLimiter.Keyed.room {rl : RateLimiter} (h : rl.Keyed addresses)
    (hcard : addresses.card ≤ rlMax) {a : Bytes} (ha : a ∈ addresses) (hnew : a ∉ rl.keys) :
    rl.entries.length < rlMax := by
  have hsub : rl.keys.toFinset ⊆ addresses.erase a := by
    intro b hb
    rw [List.mem_toFinset] at hb
    exact Finset.mem_erase.mpr ⟨fun hab => hnew (hab ▸ hb), h.called b hb⟩
  calc rl.entries.length = rl.keys.length := (List.length_map _).symm
    _ = rl.keys.toFinset.card := (List.toFinset_card_of_nodup h.once).symm
    _ ≤ (addresses.erase a).card := Finset.card_le_card hsub
    _ < addresses.card := Finset.card_erase_lt_of_mem ha
    _ ≤ rlMax := hcard

theorem rlCheck_other_none {rl : RateLimiter} {ip ip' : Bytes} (hnone : rl.entryOf ip = none)
    (hip : strEq ip' ip = false) (hshort : (cstr ip').length ≤ 63) (created now : UInt64) :
    (rlCheck rl ip' created now).1.entryOf ip = none := by
  rw [entryOf_eq_none] at hnone ⊢
  obtain ⟨_, hkeys | ⟨_, hkeys⟩⟩ := rlCheck_keys rl ip' created now
  · rwa [hkeys]
  · rw [hkeys, List.take_of_length_le hshort, List.mem_append, List.mem_singleton]
    rintro (hm | heq)
    · exact hnone hm
    · rw [strEq, heq, beq_self_eq_true] at hip
      cases hip

/-! ## The two runs -/

theorem rlCheck_same_entry {rl alone : RateLimiter} {ip : CharArray 64} {ip' : Bytes}
    (hcard : addresses.card ≤ rlMax) (hrl : rl.Keyed addresses) (halone : alone.Keyed addresses)
    (hrate : alone.rate = rl.rate) (hentry : alone.entryOf ip.text = rl.entryOf ip.text)
    (hip : strEq ip' ip.text = true) (hcalled : cstr ip' ∈ addresses) (created now : UInt64) :
    (rlCheck rl ip' created now).2 = (rlCheck alone ip' created now).2 ∧
    (rlCheck alone ip' created now).1.entryOf ip.text =
      (rlCheck rl ip' created now).1.entryOf ip.text := by
  cases hfound : rl.entryOf ip.text with
  | some e =>
    rw [hfound] at hentry
    obtain ⟨hverdict, _, hnext⟩ := rlCheck_own hfound hip created now
    obtain ⟨hverdict', _, hnext'⟩ := rlCheck_own hentry hip created now
    rw [hverdict, hverdict', hnext, hnext', hrate]
    exact ⟨rfl, rfl⟩
  | none =>
    rw [hfound] at hentry
    have hsame : cstr ip.text = cstr ip' := (eq_of_beq hip).symm
    have hplace {l : RateLimiter} (hl : l.Keyed addresses) (hnone : l.entryOf ip.text = none) :
        l.entries.length < rlMax := by
      rw [entryOf_eq_none, hsame] at hnone
      exact hl.room hcard hcalled hnone
    obtain ⟨hverdict, _, hnext⟩ := rlCheck_new hfound (hplace hrl hfound) hip created now
    obtain ⟨hverdict', _, hnext'⟩ := rlCheck_new hentry (hplace halone hentry) hip created now
    rw [hverdict, hverdict', hnext, hnext', hrate]
    exact ⟨rfl, rfl⟩

/-- Two limiters with the same entry for an address tell it the same, the one under all
    calls and the other under its own. -/
theorem verdictsFor_eq_alone {ip : CharArray 64} (hcard : addresses.card ≤ rlMax)
    (calls : List RlCall) : ∀ {rl alone : RateLimiter}, rl.Keyed addresses →
    alone.Keyed addresses → alone.rate = rl.rate → alone.entryOf ip.text = rl.entryOf ip.text →
    (∀ k ∈ calls, cstr k.ip ∈ addresses ∧ (cstr k.ip).length ≤ 63) →
    verdictsFor ip.text rl calls = rlVerdicts alone (calls.filter (RlCall.isFor ip.text)) := by
  induction calls with
  | nil => exact fun _ _ _ _ _ => rfl
  | cons k calls ih =>
    intro rl alone hrl halone hrate hentry hcalls
    obtain ⟨hcalled, hshort⟩ := hcalls k List.mem_cons_self
    have hrest : ∀ j ∈ calls, cstr j.ip ∈ addresses ∧ (cstr j.ip).length ≤ 63 :=
      fun j hj => hcalls j (List.mem_cons_of_mem k hj)
    have hrl' := hrl.check hcalled hshort k.createdMs k.nowMs
    have hrate' := (rlCheck_keys rl k.ip k.createdMs k.nowMs).1
    rw [verdictsFor_cons, List.filter_cons]
    cases hk : k.isFor ip.text with
    | true =>
      obtain ⟨hverdict, hnext⟩ := rlCheck_same_entry hcard hrl halone hrate hentry hk hcalled
        k.createdMs k.nowMs
      have halone' := halone.check hcalled hshort k.createdMs k.nowMs
      have hratealone := (rlCheck_keys alone k.ip k.createdMs k.nowMs).1
      rw [if_pos rfl, if_pos rfl, rlVerdicts, hverdict,
        ih hrl' halone' (by rw [hratealone, hrate', hrate]) hnext hrest]
    | false =>
      -- the other limiter is not called
      have hkeep : (rlCheck rl k.ip k.createdMs k.nowMs).1.entryOf ip.text = rl.entryOf ip.text := by
        cases hfound : rl.entryOf ip.text with
        | some e => exact (rlCheck_other hfound hk k.createdMs k.nowMs).2
        | none => exact rlCheck_other_none hfound hk hshort k.createdMs k.nowMs
      rw [if_neg Bool.false_ne_true, if_neg Bool.false_ne_true]
      exact ih hrl' halone (by rw [hrate, hrate']) (by rw [hentry, hkeep]) hrest

/-- **What an address is told does not depend on the others.** For calls in any order by
    at most 1024 addresses of at most 63 bytes, on a limiter just initialised: the verdicts
    on an address's calls are those of the run in which only its calls are made. -/
theorem rl_verdicts_alone (rate : Int32) (ip : CharArray 64) (calls : List RlCall)
    (hcard : (addressesOf calls).card ≤ rlMax) (hshort : ∀ a ∈ addressesOf calls, a.length ≤ 63) :
    verdictsFor ip.text (rlInit rate) calls =
      rlVerdicts (rlInit rate) (calls.filter (RlCall.isFor ip.text)) := by
  refine verdictsFor_eq_alone hcard calls (RateLimiter.keyed_init rate)
    (RateLimiter.keyed_init rate) rfl rfl (fun k hk => ?_)
  have hcalled : cstr k.ip ∈ addressesOf calls :=
    List.mem_toFinset.mpr (List.mem_map_of_mem hk)
  exact ⟨hcalled, hshort _ hcalled⟩

theorem rl_verdicts_alone_sample :
    verdictsFor sampleAddress.text (rlInit 2) sampleCalls =
      rlVerdicts (rlInit 2) (sampleCalls.filter (RlCall.isFor sampleAddress.text)) :=
  rl_verdicts_alone 2 sampleAddress sampleCalls (by decide +kernel) (by decide +kernel)

end NexusGateway
