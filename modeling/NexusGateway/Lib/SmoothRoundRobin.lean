import Mathlib.Algebra.BigOperators.Group.Finset.Piecewise
import Mathlib.Algebra.Order.BigOperators.Group.Finset
import Mathlib.Algebra.Order.Field.Basic
import Mathlib.Algebra.Order.Ring.Rat
import Mathlib.Data.Nat.Count
import Mathlib.Tactic.Linarith
import Mathlib.Tactic.Ring

/- Smooth weighted round-robin. Every member of a finite set has a weight and a
   counter. A choice raises every counter by its weight, takes a member of the
   largest counter, any of them, and subtracts the total weight from that one.

   The sum of the counters stays zero (`Run.sum_eq_zero`), which bounds each of them
   on both sides (`Run.counter_gt`, `Run.counter_le`); a counter is the weight times
   the choices made less the total times the choices of its member
   (`Run.counter_eq`). So the choices of a member stay within a bounded distance of
   its share (`Run.count_ge`, `Run.count_lt`), and are its share exactly whenever the
   number of choices is a multiple of the total weight (`Run.period`). -/
namespace SmoothRoundRobin

variable {ι : Type} [DecidableEq ι]

/-- The total weight of the members. -/
def total (s : Finset ι) (w : ι → ℤ) : ℤ := ∑ j ∈ s, w j

/-- The choice of `i`, from the counters `c` to the counters `c'`. -/
structure Choice (s : Finset ι) (w c c' : ι → ℤ) (i : ι) : Prop where
  mem : i ∈ s
  best : ∀ j ∈ s, c j + w j ≤ c i + w i
  next : ∀ j ∈ s, c' j = c j + w j - if i = j then total s w else 0

/-- A run of choices from zero counters: the counters before each choice, and the
    member chosen. -/
structure Run (s : Finset ι) (w : ι → ℤ) (c : ℕ → ι → ℤ) (p : ℕ → ι) : Prop where
  pos : ∀ j ∈ s, 0 < w j
  start : ∀ j ∈ s, c 0 j = 0
  step : ∀ k, Choice s w (c k) (c (k + 1)) (p k)

/-- How often `j` is among the first `k` choices. -/
def chosen (p : ℕ → ι) (j : ι) (k : ℕ) : ℕ := Nat.count (fun t => p t = j) k

namespace Run
variable {s : Finset ι} {w : ι → ℤ} {c : ℕ → ι → ℤ} {p : ℕ → ι}

theorem total_pos (h : Run s w c p) : 0 < total s w :=
  Finset.sum_pos h.pos ⟨p 0, (h.step 0).mem⟩

/-- The counters sum to zero: what a choice adds in all is what it takes. -/
theorem sum_eq_zero (h : Run s w c p) (k : ℕ) : ∑ j ∈ s, c k j = 0 := by
  induction k with
  | zero => exact Finset.sum_eq_zero h.start
  | succ k ih =>
    have hstep := h.step k
    calc ∑ j ∈ s, c (k + 1) j
        = ∑ j ∈ s, (c k j + w j - if p k = j then total s w else 0) :=
          Finset.sum_congr rfl hstep.next
      _ = ∑ j ∈ s, c k j + total s w - total s w := by
          rw [Finset.sum_sub_distrib, Finset.sum_add_distrib, Finset.sum_ite_eq, if_pos hstep.mem]
          rfl
      _ = 0 := by rw [ih]; ring

theorem raised_pos (h : Run s w c p) (k : ℕ) : 0 < c k (p k) + w (p k) := by
  have hsum : ∑ j ∈ s, (0 : ℤ) < ∑ j ∈ s, (c k j + w j) := by
    rw [Finset.sum_const_zero, Finset.sum_add_distrib, h.sum_eq_zero, zero_add]
    exact h.total_pos
  obtain ⟨j, hj, hpos⟩ := Finset.exists_lt_of_sum_lt hsum
  exact lt_of_lt_of_le hpos ((h.step k).best j hj)

theorem counter_gt (h : Run s w c p) (k : ℕ) {j : ι} (hj : j ∈ s) : -total s w < c k j := by
  have hW := h.total_pos
  induction k with
  | zero =>
    rw [h.start j hj]
    omega
  | succ k ih =>
    rw [(h.step k).next j hj]
    split
    · rename_i heq
      subst heq
      have := h.raised_pos k
      omega
    · have := h.pos j hj
      omega

theorem counter_le (h : Run s w c p) (k : ℕ) {j : ι} (hj : j ∈ s) :
    c k j ≤ (s.card - 1) * total s w := by
  have hothers : (s.erase j).card • (-total s w) ≤ ∑ m ∈ s.erase j, c k m := by
    apply Finset.card_nsmul_le_sum
    intro m hm
    exact (h.counter_gt k (Finset.mem_of_mem_erase hm)).le
  have hsum := h.sum_eq_zero k
  rw [← Finset.add_sum_erase s _ hj] at hsum
  have hcard : ((s.erase j).card : ℤ) = s.card - 1 := by
    rw [Finset.card_erase_of_mem hj, Nat.cast_sub (Finset.card_pos.mpr ⟨j, hj⟩), Nat.cast_one]
  rw [nsmul_eq_mul, hcard, mul_neg] at hothers
  linarith

theorem counter_eq (h : Run s w c p) (k : ℕ) {j : ι} (hj : j ∈ s) :
    c k j = k * w j - chosen p j k * total s w := by
  induction k with
  | zero => simp [h.start j hj, chosen]
  | succ k ih =>
    rw [(h.step k).next j hj, ih, chosen, chosen, Nat.count_succ]
    split <;> push_cast <;> ring

theorem count_ge (h : Run s w c p) (k : ℕ) {j : ι} (hj : j ∈ s) :
    (k : ℚ) * w j / total s w - (s.card - 1) ≤ chosen p j k := by
  have hW : (0 : ℚ) < total s w := by exact_mod_cast h.total_pos
  have hle := h.counter_le k hj
  rw [h.counter_eq k hj] at hle
  have hq : (k : ℚ) * w j - chosen p j k * total s w ≤ (s.card - 1) * total s w := by
    exact_mod_cast hle
  rw [sub_le_iff_le_add, div_le_iff₀ hW]
  linarith

theorem count_lt (h : Run s w c p) (k : ℕ) {j : ι} (hj : j ∈ s) :
    (chosen p j k : ℚ) < k * w j / total s w + 1 := by
  have hW : (0 : ℚ) < total s w := by exact_mod_cast h.total_pos
  have hgt := h.counter_gt k hj
  rw [h.counter_eq k hj] at hgt
  have hq : -(total s w : ℚ) < k * w j - chosen p j k * total s w := by exact_mod_cast hgt
  rw [← sub_lt_iff_lt_add, lt_div_iff₀ hW]
  linarith

/-- After whole rounds every counter is zero and every member has its share. The
    counters are multiples of the total above its negative, so none is negative, and
    they sum to zero. -/
theorem period (h : Run s w c p) {k m : ℕ} (hk : (k : ℤ) = m * total s w) {j : ι} (hj : j ∈ s) :
    c k j = 0 ∧ (chosen p j k : ℤ) = m * w j := by
  have hW := h.total_pos
  have hmul (i : ι) (hi : i ∈ s) : c k i = (m * w i - chosen p i k) * total s w := by
    rw [h.counter_eq k hi, hk]
    ring
  have hnonneg : ∀ i ∈ s, 0 ≤ c k i := by
    intro i hi
    have hgt := h.counter_gt k hi
    rw [hmul i hi] at hgt ⊢
    have hq : -1 < (m : ℤ) * w i - chosen p i k := by
      by_contra hle
      have := mul_le_mul_of_nonneg_right (not_lt.mp hle) hW.le
      omega
    exact mul_nonneg (by omega) hW.le
  have hzero := (Finset.sum_eq_zero_iff_of_nonneg hnonneg).mp (h.sum_eq_zero k) j hj
  refine ⟨hzero, ?_⟩
  rw [hmul j hj] at hzero
  rcases mul_eq_zero.mp hzero with h0 | h0
  · omega
  · omega

end Run

end SmoothRoundRobin
