import NexusGateway.Lib.SmoothRoundRobin
import Mathlib.Data.Finset.Card

/- Smooth weighted round-robin whose members come and go. At each turn some of the members
   are present: their counters are raised by their weights, one of the largest counter is
   taken, and it pays the weight of those present. The others keep their counters.

   With all members present a counter is what the others are short of, which bounds it
   (`SmoothRoundRobin.Run.counter_le`). Here the members a counter was raised against may
   be away for any time, and no sum over the members present is kept. What is kept is a
   bound on every group of members at once (`Within`): a group of `k` of the `n` members
   has counters of at most `k (n - k) (n + k) / 3` times the largest weight together. The
   bound is concave in `k` just enough for a turn that passes a group over
   (`Turn.within`).

   So every counter is bounded, whichever members are present at each turn
   (`Within.counter_le`, `Within.counter_ge`), and between any two times it moves by no
   more than a fixed amount (`Within.apart`). -/

namespace SmoothRoundRobin

variable {ι : Type} [DecidableEq ι]

/-- A turn of the members `h` present among `all`, in which `i` is taken. -/
structure Turn (all h : Finset ι) (w c c' : ι → ℤ) (i : ι) : Prop where
  subset : h ⊆ all
  mem : i ∈ h
  pos : ∀ j ∈ h, 0 < w j
  best : ∀ j ∈ h, c j + w j ≤ c i + w i
  next : ∀ j ∈ all, c' j = c j + (if j ∈ h then w j else 0) - if j = i then total h w else 0

/-- The room of a group of `k` of `n` members. -/
def room (n k : ℤ) : ℤ := k * (n - k) * (n + k)

/-- No group's counters are above its room, and all together they are zero. -/
structure Within (all : Finset ι) (m : ℤ) (c : ι → ℤ) : Prop where
  sum : ∑ j ∈ all, c j = 0
  group : ∀ s ⊆ all, 3 * ∑ j ∈ s, c j ≤ m * room all.card s.card

theorem room_neighbours (n k : ℤ) : room n (k - 1) + room n (k + 1) = 2 * room n k - 6 * k := by
  unfold room
  ring

theorem room_nonneg {n k : ℤ} (hk : 0 ≤ k) (hn : k ≤ n) : 0 ≤ room n k :=
  mul_nonneg (mul_nonneg hk (by omega)) (by omega)

omit [DecidableEq ι] in
theorem within_zero {all : Finset ι} {m : ℤ} {c : ι → ℤ} (hm : 0 ≤ m) (hc : ∀ j ∈ all, c j = 0) :
    Within all m c := by
  refine ⟨Finset.sum_eq_zero hc, fun s hs => ?_⟩
  rw [Finset.sum_eq_zero fun j hj => hc j (hs hj), mul_zero]
  have hcard : (s.card : ℤ) ≤ all.card := by exact_mod_cast Finset.card_le_card hs
  exact mul_nonneg hm (room_nonneg (Nat.cast_nonneg _) hcard)

/-- The weight of the members present in a group, one of whom is `i`. -/
theorem weight_present_le {s h : Finset ι} {w : ι → ℤ} {m : ℤ} {i : ι} (hi : i ∈ s ∩ h)
    (hm : 0 ≤ m) (hw : ∀ j ∈ h, w j ≤ m) : ∑ j ∈ s ∩ h, w j ≤ w i + (s.card - 1) * m := by
  have hothers : ∑ j ∈ (s ∩ h).erase i, w j ≤ ((s ∩ h).erase i).card • m := by
    apply Finset.sum_le_card_nsmul
    intro j hj
    exact hw j (Finset.mem_inter.mp (Finset.mem_of_mem_erase hj)).2
  have hcard : (((s ∩ h).erase i).card : ℤ) ≤ s.card - 1 := by
    have hsub : ((s ∩ h).erase i).card + 1 ≤ s.card := by
      rw [Finset.card_erase_add_one hi]
      exact Finset.card_le_card Finset.inter_subset_left
    omega
  calc ∑ j ∈ s ∩ h, w j
      = w i + ∑ j ∈ (s ∩ h).erase i, w j := (Finset.add_sum_erase _ _ hi).symm
    _ ≤ w i + ((s ∩ h).erase i).card * m := by
        rw [nsmul_eq_mul] at hothers
        exact Int.add_le_add_left hothers _
    _ ≤ w i + (s.card - 1) * m := Int.add_le_add_left (mul_le_mul_of_nonneg_right hcard hm) _

namespace Turn
variable {all h : Finset ι} {w c c' : ι → ℤ} {i : ι} {m : ℤ}

theorem group_sum (t : Turn all h w c c' i) {s : Finset ι} (hs : s ⊆ all) :
    ∑ j ∈ s, c' j = ∑ j ∈ s, c j + ∑ j ∈ s ∩ h, w j - if i ∈ s then total h w else 0 := by
  calc ∑ j ∈ s, c' j
      = ∑ j ∈ s, (c j + (if j ∈ h then w j else 0) - if j = i then total h w else 0) :=
        Finset.sum_congr rfl fun j hj => t.next j (hs hj)
    _ = _ := by
        rw [Finset.sum_sub_distrib, Finset.sum_add_distrib, Finset.sum_ite_eq', Finset.sum_ite_mem]

/-- A group that is not taken from: one of its members present is no better than the one
    taken, so its counters are at most half way between those of its neighbours. -/
theorem passed_over (t : Turn all h w c c' i) (hc : Within all m c) (hm : 0 ≤ m)
    (hw : ∀ j ∈ h, w j ≤ m) {s : Finset ι} (hs : s ⊆ all) (hi : i ∉ s) {j : ι} (hj : j ∈ s ∩ h) :
    3 * (∑ k ∈ s, c k + ∑ k ∈ s ∩ h, w k) ≤ m * room all.card s.card := by
  obtain ⟨hjs, hjh⟩ := Finset.mem_inter.mp hj
  have hbelow := hc.group (s.erase j) ((Finset.erase_subset j s).trans hs)
  have habove := hc.group (insert i s) (Finset.insert_subset (t.subset t.mem) hs)
  have hcard : ((s.erase j).card : ℤ) = s.card - 1 := by
    rw [Finset.card_erase_of_mem hjs, Nat.cast_sub (Finset.card_pos.mpr ⟨j, hjs⟩), Nat.cast_one]
  rw [hcard] at hbelow
  rw [Finset.sum_insert hi, Finset.card_insert_of_notMem hi, Nat.cast_succ] at habove
  have hsplit := Finset.add_sum_erase s c hjs
  have hbest := t.best j hjh
  have hpresent := weight_present_le hj hm hw
  have hwi := hw i t.mem
  have hwj := hw j hjh
  have hrooms : m * room all.card (s.card - 1) + m * room all.card (s.card + 1) =
      2 * (m * room all.card s.card) - 6 * (m * s.card) := by
    rw [← mul_add, room_neighbours]
    ring
  have hmul : ((s.card : ℤ) - 1) * m = m * s.card - m := by ring
  rw [hmul] at hpresent
  linarith

/-- A turn keeps every group within its room. -/
theorem within (t : Turn all h w c c' i) (hc : Within all m c) (hm : 0 ≤ m)
    (hw : ∀ j ∈ h, w j ≤ m) : Within all m c' := by
  refine ⟨?_, fun s hs => ?_⟩
  · rw [t.group_sum subset_rfl, hc.sum, Finset.inter_eq_right.mpr t.subset, zero_add,
      if_pos (t.subset t.mem)]
    exact Int.sub_self _
  · rw [t.group_sum hs]
    have hgroup := hc.group s hs
    by_cases hi : i ∈ s
    · -- what the group gains is no more than its member pays
      have hpaid : ∑ j ∈ s ∩ h, w j ≤ total h w :=
        Finset.sum_le_sum_of_subset_of_nonneg Finset.inter_subset_right
          fun j hj _ => (t.pos j hj).le
      rw [if_pos hi]
      linarith
    · rw [if_neg hi, sub_zero]
      obtain hnone | ⟨j, hj⟩ := (s ∩ h).eq_empty_or_nonempty
      · rw [hnone, Finset.sum_empty, add_zero]
        exact hgroup
      · exact t.passed_over hc hm hw hs hi hj

end Turn

namespace Within
variable {all : Finset ι} {m : ℤ} {c c' : ι → ℤ} {j : ι}

omit [DecidableEq ι] in
theorem counter_le (hc : Within all m c) (hj : j ∈ all) :
    3 * c j ≤ m * ((all.card - 1) * (all.card + 1)) := by
  have hone := hc.group {j} (Finset.singleton_subset_iff.mpr hj)
  rw [Finset.sum_singleton, Finset.card_singleton] at hone
  calc 3 * c j ≤ m * room all.card (1 : ℕ) := hone
    _ = m * ((all.card - 1) * (all.card + 1)) := by
        unfold room
        push_cast
        ring

theorem counter_ge (hc : Within all m c) (hj : j ∈ all) :
    -(m * ((all.card - 1) * (2 * all.card - 1))) ≤ 3 * c j := by
  have hothers := hc.group (all.erase j) (Finset.erase_subset j all)
  have hsum := hc.sum
  rw [← Finset.add_sum_erase all c hj] at hsum
  have hcard : ((all.erase j).card : ℤ) = all.card - 1 := by
    rw [Finset.card_erase_of_mem hj, Nat.cast_sub (Finset.card_pos.mpr ⟨j, hj⟩), Nat.cast_one]
  have hroom : room all.card (all.card - 1) = (all.card - 1) * (2 * all.card - 1) := by
    unfold room
    ring
  rw [hcard, hroom] at hothers
  linarith

/-- No counter has moved far between any two times. -/
theorem apart (hc : Within all m c) (hc' : Within all m c') (hj : j ∈ all) :
    c' j - c j ≤ m * (all.card * (all.card - 1)) := by
  have hle := hc'.counter_le hj
  have hge := hc.counter_ge hj
  have hsum : m * ((all.card - 1) * (all.card + 1)) + m * ((all.card - 1) * (2 * all.card - 1)) =
      3 * (m * (all.card * (all.card - 1))) := by ring
  linarith

end Within
end SmoothRoundRobin
