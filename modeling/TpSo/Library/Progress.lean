import Mathlib.Data.List.Basic
import Mathlib.Data.Nat.Basic
import TpSo.Library.Run

set_option autoImplicit false

/-! # Progress along a run

A rank that no step raises, and that some steps lower, bounds how many of those steps a run can make
before it reaches its goal. The other half of a waiting argument is about places in a queue: who is
behind `p` does not matter, and who leaves from before `p` only helps. -/

namespace GuardedRun

variable {σ α : Type} {step : σ → α → Option σ} {guard : σ → α → Prop}

/-- **Progress rule.** Every guarded step reaches the goal or keeps the invariant and does not raise
    the rank, and the steps that count lower it: a run with as many of those as the rank allows passes
    through the goal. -/
theorem reaches (Inv Goal : σ → Prop) (rank : σ → Nat) (counts : α → Bool)
    (hpos : ∀ s, Inv s → 0 < rank s)
    (hstep : ∀ s a s', Inv s → guard s a → step s a = some s' →
      Goal s' ∨ Inv s' ∧ rank s' + (if counts a then 1 else 0) ≤ rank s)
    {s t : σ} {as : List α} (h : GuardedRun step guard s as t) (h0 : Inv s)
    (hmany : rank s ≤ as.countP counts) :
    ∃ pre post u, as = pre ++ post ∧ GuardedRun step guard s pre u ∧ Goal u := by
  induction h with
  | nil s =>
      rw [List.countP_nil] at hmany
      exact absurd (hpos s h0) (Nat.not_lt.mpr hmany)
  | @cons s s' t a as hg hs hrest ih =>
      rcases hstep _ _ _ h0 hg hs with hgoal | ⟨hinv, hrank⟩
      · exact ⟨[a], as, s', rfl, .cons hg hs (.nil s'), hgoal⟩
      · have hleft : rank s' ≤ as.countP counts := by
          rw [List.countP_cons] at hmany
          omega
        obtain ⟨pre, post, u, hsplit, hrun, hgoal⟩ := ih hinv hleft
        exact ⟨a :: pre, post, u, by rw [hsplit, List.cons_append], .cons hg hs hrun, hgoal⟩

end GuardedRun

/-! ## Places in a queue -/

section Places
variable {α : Type} [DecidableEq α]

/-- Whoever is in `xs` is in `ys`, and no further back. -/
def KeepsPlace (p : α) (xs ys : List α) : Prop := p ∈ xs → p ∈ ys ∧ ys.idxOf p ≤ xs.idxOf p

namespace KeepsPlace

variable {p : α} {xs ys zs : List α}

theorem refl (p : α) (xs : List α) : KeepsPlace p xs xs := fun h => ⟨h, Nat.le_refl _⟩

theorem trans (h : KeepsPlace p xs ys) (h' : KeepsPlace p ys zs) : KeepsPlace p xs zs := by
  intro hp
  obtain ⟨hy, hle⟩ := h hp
  obtain ⟨hz, hle'⟩ := h' hy
  exact ⟨hz, Nat.le_trans hle' hle⟩

/-- Others queue up behind. -/
theorem append (p : α) (xs ys : List α) : KeepsPlace p xs (xs ++ ys) := by
  intro hp
  refine ⟨List.mem_append_left ys hp, ?_⟩
  rw [List.idxOf_append_of_mem hp]

/-- Others leave. -/
theorem filter {f : α → Bool} (hf : f p = true) (xs : List α) : KeepsPlace p xs (xs.filter f) := by
  induction xs with
  | nil => exact refl p []
  | cons x xs ih =>
      intro hp
      by_cases hx : x = p
      · subst hx
        rw [List.filter_cons_of_pos hf]
        exact ⟨List.mem_cons_self, by rw [List.idxOf_cons_self]; exact Nat.zero_le _⟩
      · obtain ⟨hmem, hle⟩ := ih ((List.mem_cons.mp hp).resolve_left (Ne.symm hx))
        rw [List.idxOf_cons_ne _ hx]
        cases hfx : f x with
        | true =>
            rw [List.filter_cons_of_pos hfx, List.idxOf_cons_ne _ hx]
            exact ⟨List.mem_cons_of_mem x hmem, Nat.succ_le_succ hle⟩
        | false =>
            rw [List.filter_cons_of_neg (by simp [hfx])]
            exact ⟨hmem, Nat.le_succ_of_le hle⟩

/-- One of the others leaves. -/
theorem filter_ne {q : α} (hpq : p ≠ q) (xs : List α) :
    KeepsPlace p xs (xs.filter (fun e => decide (e ≠ q))) :=
  filter (f := fun e => decide (e ≠ q)) (decide_eq_true hpq) xs

end KeepsPlace

/-- When the head goes, everybody else moves up by one. -/
theorem idxOf_tail {p x : α} {xs : List α} (hp : p ∈ x :: xs) (hx : x ≠ p) :
    p ∈ xs ∧ (x :: xs).idxOf p = xs.idxOf p + 1 :=
  ⟨(List.mem_cons.mp hp).resolve_left (Ne.symm hx), List.idxOf_cons_ne _ hx⟩

end Places
