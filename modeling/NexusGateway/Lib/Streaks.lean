import Mathlib.Data.List.Induction
import Mathlib.Data.List.Basic

/- Streaks: how many of the last results of a sequence are failures.

   A monitor that counts failures in a row, and starts again at a success, knows at any time
   whether its last `n` results all failed (`le_streak_iff`). -/
namespace Streaks

/-- The failures at the end of the results. -/
def streak (results : List Bool) : Nat := (results.reverse.takeWhile (!·)).length

@[simp] theorem streak_nil : streak [] = 0 := rfl

@[simp] theorem streak_success (results : List Bool) : streak (results ++ [true]) = 0 := by
  simp [streak]

@[simp] theorem streak_failure (results : List Bool) :
    streak (results ++ [false]) = streak results + 1 := by
  simp [streak]

theorem streak_le_count (results : List Bool) : streak results ≤ results.countP (!·) := by
  induction results using List.reverseRecOn with
  | nil => simp
  | append_singleton results ok ih => cases ok <;> simp [ih]

/-- **A streak of `n`**: there are `n` results, and the last `n` of them are failures. -/
theorem le_streak_iff (results : List Bool) : ∀ n : Nat, n ≤ streak results ↔
    n ≤ results.length ∧ ∀ ok ∈ results.drop (results.length - n), ok = false := by
  induction results using List.reverseRecOn with
  | nil => simp
  | append_singleton results ok ih =>
    intro n
    cases n with
    | zero => simp
    | succ n =>
      have hdrop : (results ++ [ok]).drop ((results ++ [ok]).length - (n + 1)) =
          results.drop (results.length - n) ++ [ok] := by
        have hlen : (results ++ [ok]).length - (n + 1) = results.length - n := by simp
        rw [hlen, List.drop_append_of_le_length (by omega)]
      rw [hdrop]
      cases ok with
      | true => simp
      | false => simp [ih]

theorem le_streak_iff_suffix (results : List Bool) (n : Nat) :
    n ≤ streak results ↔ List.replicate n false <:+ results := by
  rw [le_streak_iff, List.suffix_iff_eq_drop, List.length_replicate]
  constructor
  · rintro ⟨hlen, hfailed⟩
    refine (List.eq_replicate_iff.mpr ⟨?_, hfailed⟩).symm
    rw [List.length_drop]
    omega
  · intro heq
    have hlen := congrArg List.length heq
    rw [List.length_replicate, List.length_drop] at hlen
    refine ⟨by omega, fun ok hok => ?_⟩
    rw [← heq] at hok
    exact List.eq_of_mem_replicate hok

end Streaks
