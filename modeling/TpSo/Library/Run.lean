set_option autoImplicit false

/-! # Guarded runs of a transition system

A transition system is a partial step function `step : σ → α → Option σ`. A *guarded run* is a
finite run every step of which also meets a condition on the state before it and the action taken.
The condition carries what a run is assumed to avoid; the condition `True` gives all runs. -/

/-- `GuardedRun step guard s as t`: the actions `as` lead from `s` to `t`, each enabled and each meeting
    `guard` in the state where it is taken. -/
inductive GuardedRun {σ α : Type} (step : σ → α → Option σ) (guard : σ → α → Prop) :
    σ → List α → σ → Prop
  | nil (s : σ) : GuardedRun step guard s [] s
  | cons {s s' t : σ} {a : α} {as : List α} :
      guard s a → step s a = some s' → GuardedRun step guard s' as t → GuardedRun step guard s (a :: as) t

namespace GuardedRun

variable {σ α : Type} {step : σ → α → Option σ} {guard guard' : σ → α → Prop}

/-- **Invariant rule.** What holds at the start and is kept by every guarded step holds at the
    end. -/
theorem invariant (Inv : σ → Prop)
    (hstep : ∀ s a s', Inv s → guard s a → step s a = some s' → Inv s')
    {s t : σ} {as : List α} (h : GuardedRun step guard s as t) (h0 : Inv s) : Inv t := by
  induction h with
  | nil s => exact h0
  | cons hg hs _ ih => exact ih (hstep _ _ _ h0 hg hs)

/-- A run by its first step. -/
theorem cons_iff {s s' t : σ} {a : α} {as : List α} (hs : step s a = some s') :
    GuardedRun step guard s (a :: as) t ↔ guard s a ∧ GuardedRun step guard s' as t := by
  refine ⟨fun h => ?_, fun h => .cons h.1 hs h.2⟩
  cases h with
  | cons hg hs' hrest =>
      cases hs.symm.trans hs'
      exact ⟨hg, hrest⟩

/-- Runs compose. -/
theorem append {s t u : σ} {as bs : List α} (h : GuardedRun step guard s as t)
    (h' : GuardedRun step guard t bs u) : GuardedRun step guard s (as ++ bs) u := by
  induction h with
  | nil s => exact h'
  | cons hg hs _ ih => exact .cons hg hs (ih h')

/-- Take the actions of a list one after the other, as long as each is enabled and meets the
    condition. -/
def check (step : σ → α → Option σ) (guard : σ → α → Prop) [∀ s a, Decidable (guard s a)] (s : σ) :
    List α → Option σ
  | [] => some s
  | a :: as =>
    if guard s a then
      match step s a with
      | none => none
      | some s' => check step guard s' as
    else none

/-- `check` finds guarded runs. -/
theorem of_check [∀ s a, Decidable (guard s a)] {s t : σ} {as : List α}
    (h : check step guard s as = some t) : GuardedRun step guard s as t := by
  induction as generalizing s with
  | nil =>
      cases h
      exact .nil _
  | cons a as ih =>
      simp only [check] at h
      split at h
      · next hg =>
        split at h
        · cases h
        · next s' hs => exact .cons hg hs (ih h)
      · cases h

/-- A run under a condition is a run under any weaker one. -/
theorem mono (hw : ∀ s a, guard s a → guard' s a) {s t : σ} {as : List α}
    (h : GuardedRun step guard s as t) : GuardedRun step guard' s as t := by
  induction h with
  | nil s => exact .nil s
  | cons hg hs _ ih => exact .cons (hw _ _ hg) hs ih

/-- What an invariant adds to the condition of a run holds along it. -/
theorem strengthen (Inv : σ → Prop)
    (hstep : ∀ s a s', Inv s → guard s a → step s a = some s' → guard' s a ∧ Inv s') {s t : σ}
    {as : List α} (h : GuardedRun step guard s as t) (h0 : Inv s) : GuardedRun step guard' s as t := by
  induction h with
  | nil s => exact .nil s
  | cons hg hs _ ih =>
      obtain ⟨hg', hinv⟩ := hstep _ _ _ h0 hg hs
      exact .cons hg' hs (ih hinv)

end GuardedRun
