import TpSo.Machine.Stacks

set_option autoImplicit false

/-! # Terminated processes

Which steps leave a `TERMINATED` process alone, and which bring it back. `process_block` tests only
for `BLOCKED`, so it turns a `TERMINATED` process into a `BLOCKED` one, which `process_unblock`
makes `READY`. A tick that falls back to `idle` resumes the interrupted code whoever it belongs
to. -/

namespace TpSo

/-! ## Where process objects are made -/

/-- A process object is made only at a free address. -/
theorem fresh_mem_schedActs {k : Kernel} {i : Instr} {p : Addr} (h : .fresh p ∈ schedActs k i) :
    k.live p = none := by
  cases mem_schedActs h with
  | create hp =>
      rcases memAlloc_cases k .process with hm | ⟨q, hq, -, hm⟩
      · rw [hm] at hp
        cases hp
      · rw [hm] at hp
        cases hp
        exact hq

/-- `timer_handler` only unblocks processes, and it finds them in the table. -/
theorem Machine.fresh_mem_stepActs {m : Machine} {a : Action} {p : Addr}
    (h : .fresh p ∈ m.stepActs a) : m.k.live p = none := by
  cases a with
  | exec =>
      simp only [Machine.stepActs] at h
      split at h
      · exact absurd h List.not_mem_nil
      · exact fresh_mem_schedActs h
  | tick =>
      obtain ⟨e, he, q, hwake, hq, hp⟩ := mem_sleeperActs h
      cases hp
  | _ => exact absurd h List.not_mem_nil

/-! ## The condition -/

/-- The step leaves a `TERMINATED` process `p` alone: `p` has not been reaped, neither
    `process_block` nor the end of a creation is applied to it, and no tick falls back to `idle`
    while the processor is on the stack of `p`. -/
structure LeavesDown (p : Addr) (m : Machine) (a : Action) : Prop where
  notReaped : m.k.live p = some .process
  notBlocked : .block p ∉ m.stepActs a
  notReadied : .ready p ∉ m.stepActs a
  notTakenOver : m.switches a → ¬ (NothingToRun (m.prepared a) m.cpu ∧ m.cpu = p)

/-- The step goes through `schedule_tick` and gives the processor to `p`. -/
def Resumed (p : Addr) (m : Machine) (a : Action) (m' : Machine) : Prop :=
  m.switches a ∧ (m'.cpu = p ∨ m'.k.current = some p)

/-! ## One step -/

theorem LeavesDown.prepared {p : Addr} {m : Machine} {a : Action} (h : LeavesDown p m a)
    (ht : (m.k.proc p).state = .terminated) : ((m.prepared a).proc p).state = .terminated := by
  refine (m.prepared_acts a).terminated ht h.notBlocked h.notReadied ?_
  intro hf
  exact absurd ((Machine.fresh_mem_stepActs hf).symm.trans h.notReaped) (by simp)

theorem leftState_terminated {k : Kernel} {p : Addr} (hi : k.idle ≠ some p)
    (ht : (k.proc p).state = .terminated) : leftState k p = .terminated := by
  unfold leftState
  rw [if_neg, ht]
  rintro ⟨-, h | h⟩
  · exact hi h
  · exact absurd (ht.symm.trans h) (by decide)

/-- A switch leaves a `TERMINATED` process so, except idle. -/
theorem scheduleTick_terminated {k : Kernel} {p : Addr} (rsp : Nat) (hi : k.idle ≠ some p)
    (ht : (k.proc p).state = .terminated) :
    ((scheduleTick k rsp).2.proc p).state = .terminated := by
  have hleft := leftState_terminated hi ht
  cases scheduleTick_cases k rsp with
  | keep c _ _ _ state _ _ => exact (state p).trans ht
  | dispatch n _ ready _ _ _ state _ _ =>
      have hnp : p ≠ n := by
        rintro rfl
        rcases ready with hr | hr <;> exact absurd (ht.symm.trans hr.2) (by decide)
      rw [state p, if_neg hnp]
      exact hleft
  | idle d isIdle _ _ _ state _ _ =>
      have hdp : p ≠ d := by
        rintro rfl
        exact hi isIdle
      rw [state p, if_neg hdp]
      exact hleft
  | nobody _ _ _ state _ _ => exact (state p).trans hleft

/-- A process that is `TERMINATED` when a step comes to `schedule_tick` is so after the step. -/
theorem step_terminated {p : Addr} {m m' : Machine} {a : Action} (hst : Stacks m)
    (hi : p ≠ Boot.idle) (hprep : ((m.prepared a).proc p).state = .terminated)
    (hs : m.step a = some m') : (m'.k.proc p).state = .terminated := by
  have hne : (m.prepared a).idle ≠ some p := by
    rw [(hst.prepared a).2.2, hst.idle]
    exact fun he => hi (Option.some.inj he).symm
  cases Machine.step_cases hs with
  | stays _ hk _ => exact hk ▸ hprep
  | switched _ hk _ => exact hk ▸ scheduleTick_terminated m.cpu hne hprep

/-- **Step lemma.** Such a step leaves `p` `TERMINATED` and does not resume it. -/
theorem LeavesDown.step {p : Addr} {m m' : Machine} {a : Action} (h : LeavesDown p m a)
    (hst : Stacks m) (hp : p ≠ 0) (hi : p ≠ Boot.idle) (ht : (m.k.proc p).state = .terminated)
    (hs : m.step a = some m') : (m'.k.proc p).state = .terminated ∧ ¬ Resumed p m a m' := by
  have hprep := h.prepared ht
  refine ⟨step_terminated hst hi hprep hs, ?_⟩
  obtain ⟨-, hcur, hidle⟩ := hst.prepared a
  have hne : (m.prepared a).idle ≠ some p := by
    rw [hidle, hst.idle]
    exact fun he => hi (Option.some.inj he).symm
  cases Machine.step_cases hs with
  | stays hno _ _ => exact fun hr => hno hr.1
  | switched hsw hk hcpu =>
      unfold Resumed
      rw [hk, hcpu]
      -- whoever is dispatched is READY or RUNNING, or the idle process, so it is not `p`; and the
      -- stack that is resumed is its own
      cases scheduleTick_cases (m.prepared a) m.cpu with
      | keep c keeps resume current _ _ _ =>
          have hcp : c ≠ p := by
            rintro rfl
            exact absurd (hprep.symm.trans keeps.2.2.1) (by decide)
          rintro ⟨-, hr | hr⟩
          · rcases hst.cpu c (hcur ▸ keeps.1) (hidle ▸ keeps.2.1) with hc | hc
            · exact hcp (hc.symm.trans (resume.symm.trans hr))
            · exact hp (hr.symm.trans (resume.trans hc))
          · exact hcp (Option.some.inj (current.symm.trans hr))
      | dispatch n notIdle ready _ resume current _ _ _ =>
          have hnp : n ≠ p := by
            rintro rfl
            rcases ready with hr | hr <;> exact absurd (hprep.symm.trans hr.2) (by decide)
          rintro ⟨-, hr | hr⟩
          · rcases hst.leftRsp a notIdle with hn | hn
            · exact hnp (hn.symm.trans (resume.symm.trans hr))
            · exact hp (hr.symm.trans (resume.trans hn))
          · exact hnp (Option.some.inj (current.symm.trans hr))
      | idle d isIdle nothing resume current _ _ _ =>
          have hdp : d ≠ p := by
            rintro rfl
            exact hne isIdle
          rintro ⟨-, hr | hr⟩
          · exact h.notTakenOver hsw ⟨nothing, resume.symm.trans hr⟩
          · exact hdp (Option.some.inj (current.symm.trans hr))
      | nobody noIdle _ _ _ _ _ =>
          exact absurd (noIdle.symm.trans (hidle.trans hst.idle)) (by simp)

/-! ## The first steps from boot -/

/-- An allocator that never fails. -/
def freshBlocks (n : Nat) : Option Addr := some (KERNEL_BASE + 100 + n)

/-- Boot, up to the first instruction of the shell that `init` creates. -/
def startShell : List Action := .tick :: List.replicate 53 .exec

end TpSo
