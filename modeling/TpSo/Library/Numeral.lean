import Mathlib.Data.Nat.Digits.Lemmas

set_option autoImplicit false

/-! # Numerals

The numeral of a number: its digits in a base, the most significant one first, with a single `0` for zero.
`Nat.digits` is the list without the zero, the least significant digit first. -/

namespace Numeral

variable {b n k : Nat}

/-- The digits, least significant first, and one digit at least. -/
def lowFirst (b n : Nat) : List Nat := if n = 0 then [0] else Nat.digits b n

/-- The numeral of `n` in base `b`. -/
def digits (b n : Nat) : List Nat := (lowFirst b n).reverse

/-- The number that digits spell, read from the most significant one. -/
def value (b : Nat) (ds : List Nat) : Nat := ds.foldl (fun acc d => acc * b + d) 0

theorem lowFirst_of_lt (h : n < b) : lowFirst b n = [n] := by
  unfold lowFirst
  split
  · next hzero => rw [hzero]
  · next hzero => exact Nat.digits_of_lt b n hzero h

theorem lowFirst_of_le (hb : 1 < b) (h : b ≤ n) : lowFirst b n = n % b :: lowFirst b (n / b) := by
  have hdiv : n / b ≠ 0 := (Nat.div_pos h (by omega)).ne'
  rw [lowFirst, if_neg (by omega), lowFirst, if_neg hdiv]
  exact Nat.digits_eq_cons_digits_div hb (by omega)

theorem length_lowFirst_pos (b n : Nat) : 0 < (lowFirst b n).length := by
  unfold lowFirst
  split
  · exact Nat.one_pos
  · next h => exact List.length_pos_iff.mpr (Nat.digits_ne_nil_iff_ne_zero.mpr h)

theorem lt_of_mem_lowFirst (hb : 1 < b) {d : Nat} (h : d ∈ lowFirst b n) : d < b := by
  unfold lowFirst at h
  split at h
  · rw [List.mem_singleton.mp h]
    omega
  · exact Nat.digits_lt_base hb h

/-- A numeral has at most `k` digits exactly below `b ^ k`. -/
theorem length_lowFirst_le_iff (hb : 1 < b) (hk : 0 < k) : (lowFirst b n).length ≤ k ↔ n < b ^ k := by
  unfold lowFirst
  split
  · next h =>
    rw [h]
    exact iff_of_true hk (Nat.pow_pos (by omega))
  · exact Nat.digits_length_le_iff hb n

@[simp] theorem length_digits (b n : Nat) : (digits b n).length = (lowFirst b n).length :=
  List.length_reverse

theorem digits_ne_nil (b n : Nat) : digits b n ≠ [] := by
  apply List.ne_nil_of_length_pos
  rw [length_digits]
  exact length_lowFirst_pos b n

theorem lt_of_mem_digits (hb : 1 < b) {d : Nat} (h : d ∈ digits b n) : d < b :=
  lt_of_mem_lowFirst hb (List.mem_reverse.mp h)

/-- **No leading zero.** -/
theorem head_digits_ne_zero (hn : n ≠ 0) (h : digits b n ≠ []) : (digits b n).head h ≠ 0 := by
  simp only [digits, lowFirst, if_neg hn, List.head_reverse]
  exact Nat.getLast_digit_ne_zero b hn

/-! ## Reading a numeral -/

theorem value_append_singleton (b : Nat) (ds : List Nat) (d : Nat) :
    value b (ds ++ [d]) = value b ds * b + d := by
  simp only [value, List.foldl_append, List.foldl_cons, List.foldl_nil]

theorem value_reverse (b : Nat) (ds : List Nat) : value b ds.reverse = Nat.ofDigits b ds := by
  induction ds with
  | nil => rfl
  | cons d ds ih =>
    rw [List.reverse_cons, value_append_singleton, ih, Nat.ofDigits_cons, Nat.mul_comm, Nat.add_comm]

/-- **Reading back.** The numeral of a number spells it. -/
theorem value_digits (b n : Nat) : value b (digits b n) = n := by
  rw [digits, value_reverse]
  unfold lowFirst
  split
  · next h =>
    rw [h, Nat.ofDigits_singleton]
  · exact Nat.ofDigits_digits b n

end Numeral
