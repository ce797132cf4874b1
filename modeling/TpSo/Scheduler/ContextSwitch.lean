import TpSo.Scheduler.Ops

set_option autoImplicit false

/-! # The context a tick resumes

`schedule_tick` returns the stack pointer of the process it made current, in every reachable state
but one kind: when `idle` takes over from another context the interrupted stack pointer is stored in
`idle` and returned, so the code that resumes is that of the interrupted process. -/

namespace TpSo

/-- **Context switch correctness** of one tick: it leaves a current process, that process is
    `RUNNING`, and the stack pointer returned is the one last saved for it. -/
def ResumesCurrent (s : SchedState) (rsp : Nat) : Prop :=
  ∃ q, (scheduleTick s.k rsp).2.current = some q ∧
    ((scheduleTick s.k rsp).2.proc q).state = .running ∧
    (scheduleTick s.k rsp).1 = savedAfter s rsp q

/-- The tick hands the processor to `idle` although another context was interrupted. -/
def IdleTakesOver (k : Kernel) (rsp : Nat) : Prop := NothingToRun k rsp ∧ k.current ≠ k.idle

/-- **Who is resumed.** In a state the operations reach, a tick resumes the process it makes current
    from the stack pointer last saved for it, exactly unless `idle` takes over from another context
    whose stack pointer is not, by chance, the one saved for `idle`. -/
theorem SchedInv.resumesCurrent_iff {s : SchedState} (h : SchedInv s) (rsp : Nat) :
    ResumesCurrent s rsp ↔ ¬ (IdleTakesOver s.k rsp ∧ rsp ≠ s.saved Boot.idle) := by
  unfold ResumesCurrent IdleTakesOver
  cases scheduleTick_cases s.k rsp with
  | keep c keeps resume current state saved queued =>
      refine ⟨fun _ hbad => hbad.1.1.1 c keeps, fun _ => ⟨c, current, ?_, ?_⟩⟩
      · rw [state c]
        exact keeps.2.2.1
      · rw [resume, savedAfter, if_pos keeps.1]
  | dispatch n notIdle ready busy resume current state saved queued =>
      refine ⟨fun _ hbad => busy hbad.1.1, fun _ => ⟨n, current, ?_, ?_⟩⟩
      · rw [state n, if_pos rfl]
      · rw [resume, leftRsp, savedAfter, h.saved n notIdle]
  | idle d isIdle nothing resume current state saved queued =>
      cases h.idle.symm.trans isIdle
      constructor
      · rintro ⟨q, hq, -, hsaved⟩ ⟨⟨-, hcur⟩, hne⟩
        cases current.symm.trans hq
        rw [resume, savedAfter, if_neg fun hc => hcur (hc.trans isIdle.symm)] at hsaved
        exact hne hsaved
      · intro hok
        refine ⟨Boot.idle, current, ?_, ?_⟩
        · rw [state, if_pos rfl]
        · rw [resume, savedAfter]
          split
          · rfl
          · next hc =>
            by_contra hne
            exact hok ⟨⟨nothing, fun hc' => hc (hc'.trans isIdle)⟩, hne⟩
  | nobody noIdle _ _ _ _ _ => exact absurd (h.idle.symm.trans noIdle) (by simp)

/-- **Context switches are correct exactly when idle does not take over.** -/
theorem resumesCurrent_after_iff (memAnswers : Nat → Option Addr) (ops : List SchedOp) (rsp : Nat) :
    ResumesCurrent (SchedState.after memAnswers ops) rsp ↔
      ¬ (IdleTakesOver (SchedState.after memAnswers ops).k rsp ∧
        rsp ≠ (SchedState.after memAnswers ops).saved Boot.idle) :=
  (SchedInv.after memAnswers ops).resumesCurrent_iff rsp

/-- `init` runs, is blocked, and the tick that finds nobody else resumes `init`'s own code at 777
    although `idle` is current: `idle`'s prepared stack pointer is never used. -/
theorem init_resumed_as_idle :
    ¬ ∀ (memAnswers : Nat → Option Addr) (ops : List SchedOp) (rsp : Nat),
      ResumesCurrent (SchedState.after memAnswers ops) rsp := by
  intro h
  have hcur : (scheduleTick (SchedState.after (fun _ => some 0) [.tick 5, .block Boot.init]).k
      777).2.current = some Boot.idle := by decide +kernel
  have hrsp : (scheduleTick (SchedState.after (fun _ => some 0) [.tick 5, .block Boot.init]).k
      777).1 = 777 := by decide +kernel
  have hsaved : savedAfter (SchedState.after (fun _ => some 0) [.tick 5, .block Boot.init]) 777
      Boot.idle = Boot.idle := by decide +kernel
  obtain ⟨q, hq, -, hr⟩ := h (fun _ => some 0) [.tick 5, .block Boot.init] 777
  rw [hcur] at hq
  cases hq
  rw [hrsp, hsaved] at hr
  exact absurd hr (by decide)

end TpSo
