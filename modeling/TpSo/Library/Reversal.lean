import Mathlib.Logic.Equiv.Basic
import Mathlib.Logic.Function.Basic

set_option autoImplicit false

/-! # Reversing a stretch in place

A stretch of `n` cells is reversed by exchanging its outermost two, then the two inside these, and so on.
`Reversing f n k g` says that `g` is `f` after `k` of these exchanges. Whether a program counts the exchanges or
lets two pointers walk towards each other, it has reversed the stretch when the pairs run out. -/

namespace Reversal

variable {α : Type} {f g : Nat → α} {n k : Nat}

/-- Exchange the contents of two cells, through a copy of the first one. -/
def swap (f : Nat → α) (i j : Nat) : Nat → α := Function.update (Function.update f i (f j)) j (f i)

theorem swap_apply (f : Nat → α) (i j x : Nat) :
    swap f i j x = if x = j then f i else if x = i then f j else f x := by
  simp only [swap, Function.update_apply]

/-- The outermost `k` pairs of the first `n` cells have been exchanged. -/
def Reversing (f : Nat → α) (n k : Nat) (g : Nat → α) : Prop :=
  ∀ x, g x = if x < k ∨ n - k ≤ x ∧ x < n then f (n - 1 - x) else f x

theorem Reversing.start (f : Nat → α) (n : Nat) : Reversing f n 0 f := by
  intro x
  rw [if_neg (by omega)]

/-- **Step.** Exchanging the next pair. -/
theorem Reversing.step (h : Reversing f n k g) (hk : 2 * k + 1 < n) :
    Reversing f n (k + 1) (swap g k (n - k - 1)) := by
  have hlow : g k = f k := by rw [h k, if_neg (by omega)]
  have hhigh : g (n - k - 1) = f (n - k - 1) := by rw [h, if_neg (by omega)]
  intro x
  rw [swap_apply, hlow, hhigh]
  by_cases hx1 : x = n - k - 1
  · rw [if_pos hx1, if_pos (by omega)]
    congr 1
    omega
  · rw [if_neg hx1]
    by_cases hx2 : x = k
    · rw [if_pos hx2, if_pos (by omega)]
      congr 1
      omega
    · rw [if_neg hx2, h x]
      by_cases hin : x < k ∨ n - k ≤ x ∧ x < n
      · rw [if_pos hin, if_pos (by omega)]
      · rw [if_neg hin, if_neg (by omega)]

/-- When at most one cell is left in the middle, the stretch is reversed. -/
theorem Reversing.finish (h : Reversing f n k g) (hk : n ≤ 2 * k + 1) {x : Nat} (hx : x < n) :
    g x = f (n - 1 - x) := by
  rw [h x]
  by_cases hin : x < k ∨ n - k ≤ x ∧ x < n
  · rw [if_pos hin]
  · rw [if_neg hin]
    congr 1
    omega

/-- The cells behind the stretch are left alone. -/
theorem Reversing.outside (h : Reversing f n k g) (hk : 2 * k ≤ n) {x : Nat} (hx : n ≤ x) : g x = f x := by
  rw [h x, if_neg (by omega)]

/-- A counted loop makes the exchanges one after the other. -/
theorem Reversing.fold (f : Nat → α) (n : Nat) :
    ∀ k, 2 * k ≤ n → Reversing f n k ((List.range k).foldl (fun g j => swap g j (n - j - 1)) f) := by
  intro k
  induction k with
  | zero =>
    intro _
    exact .start f n
  | succ k ih =>
    intro hk
    rw [List.range_succ, List.foldl_append]
    exact (ih (by omega)).step (by omega)

end Reversal
