import TpSo.Machine.Steps

set_option autoImplicit false

/-! # Whose stack the processor is on

A process other than idle resumes on its own stack: what `schedule_tick` saves for it is its own
stack pointer, in every run. Only for `idle` this fails, since `schedule_tick` overwrites its saved
stack pointer when it takes over. -/

namespace TpSo

/-- Saved stack pointers and the processor. A process whose creation failed early has the stack
    pointer 0. -/
structure Stacks (m : Machine) : Prop where
  saved : ∀ p, m.k.idle ≠ some p → (m.k.proc p).rsp = p ∨ (m.k.proc p).rsp = 0
  cpu : ∀ c, m.k.current = some c → m.k.idle ≠ some c → m.cpu = c ∨ m.cpu = 0
  idle : m.k.idle = some Boot.idle

namespace Stacks

variable {m m' : Machine}

/-- The invariant speaks of the same processes after any scheduler operations. -/
theorem prepared (h : Stacks m) (a : Action) :
    (∀ p, (m.prepared a).idle ≠ some p →
      ((m.prepared a).proc p).rsp = p ∨ ((m.prepared a).proc p).rsp = 0) ∧
    (m.prepared a).current = m.k.current ∧ (m.prepared a).idle = m.k.idle := by
  have hacts := m.prepared_acts a
  refine ⟨fun p hp => ?_, hacts.current, hacts.idle⟩
  rw [hacts.idle] at hp
  rcases hacts.rsp p with hr | ⟨-, hr⟩
  · rw [hr]
    exact h.saved p hp
  · exact hr

/-- The stack pointer an interrupted process is saved with is its own. -/
theorem leftRsp (h : Stacks m) (a : Action) {p : Addr} (hp : (m.prepared a).idle ≠ some p) :
    leftRsp (m.prepared a) m.cpu p = p ∨ leftRsp (m.prepared a) m.cpu p = 0 := by
  obtain ⟨hsaved, hcur, hidle⟩ := h.prepared a
  unfold TpSo.leftRsp
  split
  · next hc => exact h.cpu p (hcur ▸ hc) (hidle ▸ hp)
  · exact hsaved p hp

/-- **Step lemma.** -/
theorem step (h : Stacks m) {a : Action} (hs : m.step a = some m') : Stacks m' := by
  obtain ⟨hsaved, hcur, hidle⟩ := h.prepared a
  cases Machine.step_cases hs with
  | stays _ hk hcpu =>
      refine ⟨?_, ?_, ?_⟩
      · rw [hk]
        exact hsaved
      · intro c hc hi
        rw [hk, hcur] at hc
        rw [hk, hidle] at hi
        rw [hcpu]
        exact h.cpu c hc hi
      · rw [hk, hidle]
        exact h.idle
  | switched _ hk hcpu =>
      have hidle' : m'.k.idle = (m.prepared a).idle := by
        rw [hk]
        exact idle_of_outside (scheduleTick_outside _ _)
      have hleft := fun p hp => h.leftRsp (p := p) a hp
      refine ⟨?_, ?_, hidle'.trans (hidle.trans h.idle)⟩
      · intro p hp
        rw [hidle'] at hp
        rw [hk]
        cases scheduleTick_cases (m.prepared a) m.cpu with
        | keep c _ _ _ _ saved _ => exact saved p ▸ hleft p hp
        | dispatch n _ _ _ _ _ _ saved _ => exact saved p ▸ hleft p hp
        | idle d isIdle _ _ _ _ saved _ =>
            rw [saved p, if_neg fun hpd : p = d => hp (hpd ▸ isIdle)]
            exact hleft p hp
        | nobody _ _ _ _ saved _ => exact saved p ▸ hleft p hp
      · intro c hc hi
        rw [hidle'] at hi
        rw [hk] at hc
        rw [hcpu]
        cases scheduleTick_cases (m.prepared a) m.cpu with
        | keep d keeps resume current _ _ _ =>
            cases current.symm.trans hc
            rw [resume]
            exact h.cpu c (hcur ▸ keeps.1) (hidle ▸ hi)
        | dispatch n _ _ _ resume current _ _ _ =>
            cases current.symm.trans hc
            rw [resume]
            exact hleft c hi
        | idle d isIdle _ _ current _ _ _ =>
            cases current.symm.trans hc
            exact absurd isIdle hi
        | nobody _ _ current _ _ _ => exact absurd (current.symm.trans hc) (by simp)

theorem boot (memAnswers : Nat → Option Addr) : Stacks (Boot.machine memAnswers) where
  saved p hp := by
    change ((Boot.kernel memAnswers).proc p).rsp = p ∨ ((Boot.kernel memAnswers).proc p).rsp = 0
    simp only [Boot.kernel]
    split
    · next hi => exact absurd (congrArg some hi.symm) hp
    · split
      · next hi => exact .inl hi.symm
      · exact .inr rfl
  cpu c hc := absurd hc (by simp [Boot.machine, Boot.kernel])
  idle := rfl

end Stacks

/-- **Run lemma.** -/
theorem reaches_stacks {memAnswers : Nat → Option Addr} {as : List Action} {m : Machine}
    (h : Reaches memAnswers as m) : Stacks m :=
  (run_guarded h).invariant _ (fun _ _ _ hi _ hs => hi.step hs) (Stacks.boot memAnswers)

end TpSo
