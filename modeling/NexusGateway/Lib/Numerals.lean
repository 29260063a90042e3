import Mathlib.Data.Nat.Digits.Lemmas

/- Numerals: numbers written in digits, the most significant first.

   An alphabet has a sign for each digit of its base. The numeral of a number is the one
   without leading zeros; every number above the base is written as its quotient and, behind
   it, its last digit (`numeral_step`), which is how a loop that divides writes it. Reading
   a numeral gives the number back (`value_numeral`). -/
namespace Numerals

/-- The signs of the digits of a base. -/
structure Alphabet (α : Type*) where
  base : Nat
  digit : Nat → α
  val : α → Nat
  two_le : 2 ≤ base
  val_digit : ∀ d < base, val (digit d) = d

namespace Alphabet
variable {α : Type*} (a : Alphabet α)

/-- The number that digits write. -/
def value (digits : List α) : Nat := digits.foldl (fun n c => a.base * n + a.val c) 0

/-- The digits of a number, without leading zeros. -/
def numeral (n : Nat) : List α :=
  if n = 0 then [a.digit 0] else (Nat.digits a.base n).reverse.map a.digit

theorem base_pos : 0 < a.base := by
  have := a.two_le
  omega

theorem quotient_lt {n : Nat} (h : a.base ≤ n) : n / a.base < n := by
  apply Nat.div_lt_self
  · exact a.base_pos.trans_le h
  · exact a.two_le

@[simp] theorem value_append (digits : List α) (c : α) :
    a.value (digits ++ [c]) = a.base * a.value digits + a.val c := by
  simp [value]

theorem numeral_digit {n : Nat} (h : n < a.base) : a.numeral n = [a.digit n] := by
  by_cases hn : n = 0
  · simp [numeral, hn]
  · simp [numeral, hn, Nat.digits_of_lt a.base n hn h]

/-- **A number above the base** is its quotient and its last digit. -/
theorem numeral_step {n : Nat} (h : a.base ≤ n) :
    a.numeral n = a.numeral (n / a.base) ++ [a.digit (n % a.base)] := by
  have hbase := a.base_pos
  have hn : n ≠ 0 := (hbase.trans_le h).ne'
  have hq : n / a.base ≠ 0 := (Nat.div_pos h hbase).ne'
  rw [numeral, if_neg hn, numeral, if_neg hq, Nat.digits_def' a.two_le (Nat.pos_of_ne_zero hn)]
  simp

/-- **Reading a numeral** gives its number. -/
@[simp] theorem value_numeral (n : Nat) : a.value (a.numeral n) = n := by
  induction n using Nat.strong_induction_on with
  | _ n ih =>
    by_cases h : n < a.base
    · simp [numeral_digit a h, value, a.val_digit n h]
    · have hle : a.base ≤ n := Nat.le_of_not_lt h
      rw [numeral_step a hle, value_append, ih _ (a.quotient_lt hle),
        a.val_digit _ (Nat.mod_lt n a.base_pos)]
      exact Nat.div_add_mod n a.base

theorem numeral_injective : Function.Injective a.numeral :=
  Function.LeftInverse.injective a.value_numeral

theorem numeral_ne_nil (n : Nat) : a.numeral n ≠ [] := by
  by_cases h : n < a.base
  · simp [numeral_digit a h]
  · simp [numeral_step a (Nat.le_of_not_lt h)]

theorem numeral_head {n : Nat} (h : (a.numeral n).head? = some (a.digit 0)) : n = 0 := by
  induction n using Nat.strong_induction_on with
  | _ n ih =>
    by_cases hlt : n < a.base
    · rw [numeral_digit a hlt, List.head?_cons, Option.some.injEq] at h
      have hval := congrArg a.val h
      rwa [a.val_digit n hlt, a.val_digit 0 a.base_pos] at hval
    · have hle : a.base ≤ n := Nat.le_of_not_lt hlt
      have hq := Nat.div_pos hle a.base_pos
      rw [numeral_step a hle, List.head?_append_of_ne_nil _ (a.numeral_ne_nil _)] at h
      have := ih _ (a.quotient_lt hle) h
      omega

end Alphabet

end Numerals
