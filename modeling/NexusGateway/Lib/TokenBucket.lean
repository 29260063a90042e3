import Mathlib.Algebra.Order.Field.Basic
import Mathlib.Tactic.Linarith
import Mathlib.Tactic.Ring

/- The token bucket. Time refills a bucket at a rate, up to its size; a call takes one
   token, and is refused where there is not a whole one.

   A bucket knows one number. `Describes` says what that number stands for: of every
   window that ends now, how many calls it still has room for. `describes_call` keeps
   it over a call, and `run_admits_iff` reads it off a run: a call is admitted exactly
   when every window that ends with it has room. So no window lets in more than the size
   and what its time refills (`window_admissions_le`). -/
namespace TokenBucket

variable {K : Type} [Field K] [LinearOrder K] [IsStrictOrderedRing K]

/-- The tokens left by the last call, and its time. -/
structure Bucket (K : Type) where
  tokens : K
  last : K

/-- A call: its time, and whether it was admitted. -/
structure Call (K : Type) where
  time : K
  admitted : Bool

/-- The calls admitted among some. -/
def admissions (log : List (Call K)) : ℕ := log.countP Call.admitted

variable (size rate : K)

/-- The tokens at a time, refilled and cut to the size. -/
def Bucket.level (b : Bucket K) (now : K) : K := min size (b.tokens + rate * (now - b.last))

/-- A call: the bucket after it, and whether it is admitted. -/
def Bucket.call (b : Bucket K) (now : K) : Bucket K × Bool :=
  if 1 ≤ b.level size rate now then (⟨b.level size rate now - 1, now⟩, true)
  else (⟨b.level size rate now, now⟩, false)

/-- The calls at some times, with their verdicts. -/
def Bucket.run (b : Bucket K) : List K → List (Call K)
  | [] => []
  | now :: times => ⟨now, (b.call size rate now).2⟩ :: (b.call size rate now).1.run times

/-- There is room for `x` more at `now` in the window from the call at `j`. -/
def Room (log : List (Call K)) (j : ℕ) (x now : K) : Prop :=
  ∀ c, log[j]? = some c → x + admissions (log.drop j) ≤ size + rate * (now - c.time)

/-- What a bucket knows of the calls made: its level is at least `x` exactly when the
    size is and every window has room for `x` more. -/
def Describes (log : List (Call K)) (b : Bucket K) : Prop :=
  ∀ x now, x ≤ b.level size rate now ↔ x ≤ size ∧ ∀ j, Room size rate log j x now

omit [IsStrictOrderedRing K] in
theorem call_eq (b : Bucket K) (now : K) :
    (b.call size rate now).1 =
      ⟨b.level size rate now - if (b.call size rate now).2 then 1 else 0, now⟩ := by
  unfold Bucket.call
  split <;> simp

omit [IsStrictOrderedRing K] in
theorem call_admitted (b : Bucket K) (now : K) :
    (b.call size rate now).2 = true ↔ 1 ≤ b.level size rate now := by
  unfold Bucket.call
  split <;> simp [*]

omit [Field K] [LinearOrder K] [IsStrictOrderedRing K] in
theorem admissions_snoc (log : List (Call K)) (c : Call K) :
    admissions (log ++ [c]) = admissions log + if c.admitted then 1 else 0 := by
  rw [admissions, List.countP_append, List.countP_singleton]
  rfl

omit [IsStrictOrderedRing K] in
theorem room_last (log : List (Call K)) (c : Call K) (x now : K) :
    Room size rate (log ++ [c]) log.length x now ↔
      x + (if c.admitted then 1 else 0) ≤ size + rate * (now - c.time) := by
  have hdrop : (log ++ [c]).drop log.length = [c] := List.drop_left
  have hget : (log ++ [c])[log.length]? = some c := by simp
  rw [Room, hdrop, hget]
  have hone : ((admissions [c] : ℕ) : K) = if c.admitted then 1 else 0 := by
    rw [admissions, List.countP_singleton]
    split <;> simp
  simp only [Option.some.injEq, forall_eq', hone]

/-- A window that begins with an earlier call has room for `x` more once the last call is
    made, when it had room for the token taken then too. -/
theorem room_earlier (log : List (Call K)) (c : Call K) {j : ℕ} (hj : j < log.length) (x now : K) :
    Room size rate (log ++ [c]) j x now ↔
      Room size rate log j (x + (if c.admitted then 1 else 0) - rate * (now - c.time)) c.time := by
  have hdrop : (log ++ [c]).drop j = log.drop j ++ [c] := List.drop_append_of_le_length hj.le
  have hget : (log ++ [c])[j]? = log[j]? := List.getElem?_append_left hj
  rw [Room, Room, hdrop, hget, admissions_snoc]
  apply forall₂_congr
  intro f _
  have hcast : ((admissions (log.drop j) + (if c.admitted then 1 else 0 : ℕ) : ℕ) : K) =
      admissions (log.drop j) + if c.admitted then 1 else 0 := by
    split <;> simp
  have hsplit : rate * (now - f.time) = rate * (now - c.time) + rate * (c.time - f.time) := by
    ring
  rw [hcast, hsplit]
  constructor <;> intro h <;> linarith

omit [IsStrictOrderedRing K] in
theorem room_beyond (log : List (Call K)) {j : ℕ} (hj : log.length ≤ j) (x now : K) :
    Room size rate log j x now := by
  intro c hc
  rw [List.getElem?_eq_none hj] at hc
  cases hc

/-- **A call keeps what the bucket knows.** -/
theorem describes_call {log : List (Call K)} {b : Bucket K} (h : Describes size rate log b)
    (now : K) :
    Describes size rate (log ++ [⟨now, (b.call size rate now).2⟩]) (b.call size rate now).1 := by
  intro x later
  let c : Call K := ⟨now, (b.call size rate now).2⟩
  have hlevel : x ≤ (b.call size rate now).1.level size rate later ↔
      x ≤ size ∧ x + (if c.admitted then 1 else 0) - rate * (later - now) ≤
        b.level size rate now := by
    rw [call_eq, Bucket.level, le_min_iff]
    apply and_congr_right
    intro _
    constructor <;> intro h' <;> linarith
  rw [hlevel, h]
  apply and_congr_right
  intro _
  constructor
  · intro hyp
    obtain ⟨hsize, hroom⟩ := hyp
    intro j
    rcases Nat.lt_trichotomy j log.length with hj | rfl | hj
    · exact (room_earlier size rate log c hj x later).mpr (hroom j)
    · refine (room_last size rate log c x later).mpr ?_
      linarith
    · exact room_beyond size rate _ (by rw [List.length_append, List.length_singleton]; omega) x later
  · intro hroom
    have hlast := (room_last size rate log c x later).mp (hroom log.length)
    refine ⟨by linarith, fun j => ?_⟩
    by_cases hj : j < log.length
    · exact (room_earlier size rate log c hj x later).mp (hroom j)
    · exact room_beyond size rate log (Nat.le_of_not_lt hj) _ _

theorem describes_first {c : Call K} :
    Describes size rate [c] ⟨size - if c.admitted then 1 else 0, c.time⟩ := by
  intro x now
  have hlast := room_last size rate [] c x now
  rw [List.nil_append, List.length_nil] at hlast
  rw [Bucket.level, le_min_iff]
  apply and_congr_right
  intro _
  constructor
  · intro h j
    cases j with
    | zero =>
      refine hlast.mpr ?_
      linarith
    | succ j => exact room_beyond size rate [c] (by simp) x now
  · intro h
    have := hlast.mp (h 0)
    linarith

/-- The windows that end with the call at `m` have room for it. -/
def Conforms (log : List (Call K)) (m : ℕ) : Prop :=
  ∀ j ≤ m, ∀ f c, log[j]? = some f → log[m]? = some c →
    (admissions ((log.take m).drop j) : K) + 1 ≤ size + rate * (c.time - f.time)

theorem admits_iff {log : List (Call K)} {b : Bucket K} (h : Describes size rate log b) (now : K)
    (after : List (Call K)) :
    (b.call size rate now).2 = true ↔
      Conforms size rate (log ++ ⟨now, (b.call size rate now).2⟩ :: after) log.length := by
  have hm : (log ++ ⟨now, (b.call size rate now).2⟩ :: after)[log.length]? =
      some ⟨now, (b.call size rate now).2⟩ := by simp
  rw [call_admitted, h, Conforms, List.take_left]
  constructor
  · intro hyp
    obtain ⟨hsize, hroom⟩ := hyp
    intro j hj f c hf hc
    rw [hm] at hc
    cases hc
    rcases Nat.lt_or_eq_of_le hj with hj | rfl
    · rw [List.getElem?_append_left hj] at hf
      have := hroom j f hf
      linarith
    · rw [hm] at hf
      cases hf
      simpa [admissions] using hsize
  · intro hall
    constructor
    · have := hall log.length (Nat.le_refl _) _ _ hm hm
      simpa [admissions] using this
    · intro j f hf
      have hj : j < log.length := (List.getElem?_eq_some_iff.mp hf).1
      have := hall j hj.le f _ (by rwa [List.getElem?_append_left hj]) hm
      linarith

theorem run_admits_iff {log : List (Call K)} {b : Bucket K} (h : Describes size rate log b)
    (times : List K) {m : ℕ} {c : Call K} (hm : log.length ≤ m)
    (hc : (log ++ b.run size rate times)[m]? = some c) :
    c.admitted = true ↔ Conforms size rate (log ++ b.run size rate times) m := by
  induction times generalizing log b with
  | nil =>
    rw [Bucket.run, List.append_nil, List.getElem?_eq_none hm] at hc
    cases hc
  | cons now times ih =>
    rw [Bucket.run] at hc ⊢
    rcases Nat.lt_or_eq_of_le hm with hlt | rfl
    · have hkeep := describes_call size rate h now
      rw [List.append_cons] at hc ⊢
      exact ih hkeep (by rw [List.length_append, List.length_singleton]; omega) hc
    · rw [List.getElem?_append_right (Nat.le_refl _), Nat.sub_self, List.getElem?_cons_zero] at hc
      cases hc
      exact admits_iff size rate h now _

omit [Field K] [LinearOrder K] [IsStrictOrderedRing K] in
/-- The window from `j` that ends with the call at `m`. -/
theorem admissions_window {log : List (Call K)} {j m : ℕ} (hj : j ≤ m) {c : Call K}
    (hc : log[m]? = some c) : admissions ((log.take (m + 1)).drop j) =
      admissions ((log.take m).drop j) + if c.admitted then 1 else 0 := by
  have hm : m < log.length := (List.getElem?_eq_some_iff.mp hc).1
  have htake : log.take (m + 1) = log.take m ++ [c] := by
    rw [List.take_add_one, hc]
    rfl
  have hlength : j ≤ (log.take m).length := by
    rw [List.length_take]
    omega
  rw [htake, List.drop_append_of_le_length hlength, admissions_snoc]

/-- **What a window can let in**: where every call that is admitted conforms, no window lets in
    more than the size and what its time refills. -/
theorem window_admissions_le {log : List (Call K)} (hrate : 0 ≤ rate)
    (htimes : (log.map Call.time).Pairwise (· ≤ ·))
    (hall : ∀ m c, log[m]? = some c → c.admitted = true → Conforms size rate log m) {j m : ℕ}
    {f c : Call K} (hj : j ≤ m) (hf : log[j]? = some f) (hc : log[m]? = some c) :
    (admissions ((log.take (m + 1)).drop j) : K) ≤ max 0 (size + rate * (c.time - f.time)) := by
  have hconforms (m : ℕ) (c : Call K) (hc : log[m]? = some c) (hj : j ≤ m)
      (hadmitted : c.admitted = true) :
      (admissions ((log.take (m + 1)).drop j) : K) ≤ max 0 (size + rate * (c.time - f.time)) := by
    have hroom := hall m c hc hadmitted j hj f c hf hc
    rw [admissions_window hj hc, if_pos hadmitted, Nat.cast_add, Nat.cast_one]
    exact hroom.trans (le_max_right _ _)
  induction m, hj using Nat.le_induction generalizing c with
  | base =>
    by_cases hadmitted : c.admitted = true
    · exact hconforms j c hc le_rfl hadmitted
    · rw [admissions_window le_rfl hc, if_neg hadmitted, List.drop_eq_nil_of_le (List.length_take_le j log)]
      simp [admissions]
  | succ m hj ih =>
    have hle := hj.trans (Nat.le_succ m)
    by_cases hadmitted : c.admitted = true
    · exact hconforms (m + 1) c hc hle hadmitted
    · -- a call that is refused adds nothing but time
      obtain ⟨hlt, rfl⟩ := List.getElem?_eq_some_iff.mp hc
      have hbefore : log[m]? = some log[m] := List.getElem?_eq_getElem (Nat.lt_of_succ_lt hlt)
      have htime : log[m].time ≤ log[m + 1].time := by
        have hmono := List.pairwise_iff_getElem.mp htimes m (m + 1) (by simp; omega) (by simpa using hlt)
          (Nat.lt_succ_self m)
        simpa using hmono
      have hmore : rate * (log[m].time - f.time) ≤ rate * (log[m + 1].time - f.time) :=
        mul_le_mul_of_nonneg_left (by linarith) hrate
      rw [admissions_window hle hc, if_neg hadmitted, Nat.add_zero]
      calc (admissions ((log.take (m + 1)).drop j) : K)
          ≤ max 0 (size + rate * (log[m].time - f.time)) := ih hbefore
        _ ≤ max 0 (size + rate * (log[m + 1].time - f.time)) := max_le_max le_rfl (by linarith)

end TokenBucket
