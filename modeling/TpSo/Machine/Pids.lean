import TpSo.Machine.Table
import TpSo.Machine.Steps

set_option autoImplicit false

/-! # Who has which pid

A process object gets its pid when `createProcess` fills it in, and keeps it. So a registered process
is registered under its own pid, as long as no new object is made on top of it. -/

namespace TpSo

/-- The same pids. -/
def SamePids (k k' : Kernel) : Prop := ∀ p, (k'.proc p).pid = (k.proc p).pid

namespace SamePids

variable {k k' k'' : Kernel}

theorem refl (k : Kernel) : SamePids k k := fun _ => rfl

theorem trans (h : SamePids k k') (h' : SamePids k' k'') : SamePids k k'' := fun p =>
  (h' p).trans (h p)

theorem of_outside (h : k'.outside = k.outside) : SamePids k k' := pid_of_outside h

/-- A write to a process that is not to its pid. -/
theorem modProc (k : Kernel) (p : Addr) {f : Process → Process}
    (hf : (f (k.proc p)).pid = (k.proc p).pid) : SamePids k (k.modProc p f) := by
  intro q
  by_cases h : q = p
  · subst h
    simp only [Kernel.modProc, Function.update_self, hf]
  · simp only [Kernel.modProc, Function.update_of_ne h]

theorem of_family (h : FamilyOnly k k') : SamePids k k' := h.pid

/-- Code that beyond the scheduler's data writes to one semaphore. -/
theorem of_modSem {s : Addr} {f : Sem → Sem} (h : k'.outside = (k.modSem s f).outside) :
    SamePids k k' := pid_of_outside (k := k.modSem s f) h

theorem of_inits {s : Addr} (h : InitsSem s k k') : SamePids k k' := fun p => by rw [h.kernel]

theorem of_opens (h : OpensPipe k k') : SamePids k k' := fun p => by rw [h.kernel]

theorem of_frees {p : Addr} (h : FreesProcess p k k') : SamePids k k' := by
  intro q
  by_cases hq : q = p
  · rw [hq, h.object]
  · rw [h.other q hq]

end SamePids

theorem exitFirstHalf_pids (k : Kernel) (p : Addr) : SamePids k (exitFirstHalf k p).2 := by
  rw [exitFirstHalf_eq, passForeground_eq]
  exact (SamePids.of_outside (leave_outside k p _)).trans (adoptOrphanChildren_family _ p).pid

theorem enterTree_pids (k : Kernel) (c : Creation) : SamePids k (enterTree k c).2 := fun p => by
  rw [(enterTree_enters k c).proc p]

theorem createRegisterCode_pids (k : Kernel) (r : Regs) (c : Creation) (attached : List Nat) :
    SamePids k (createRegisterCode k r c attached).k := by
  rw [createRegisterCode_k]
  exact enterTree_pids k c

theorem createMark_pids (k : Kernel) (p : Addr) (use : CreateUse) :
    SamePids k (createMark k p use) := by
  have hshell : SamePids k (k.modProc p Process.markShell) := .modProc k p rfl
  cases use with
  | syscall => exact .refl k
  | firstShell => exact hshell
  | respawn => exact hshell

theorem createDone_pids (k : Kernel) (r : Regs) (p : Addr) (use : CreateUse) :
    SamePids k (createDone k r p use).k := by
  have hready : SamePids k (schedulerAddReady k p) := .of_outside (schedulerAddReady_outside k p)
  cases use <;> exact hready

/-- `createProcess` gives a pid to nobody but the object it makes. -/
theorem createProcessCode_pid (k : Kernel) (r : Regs) (args : CreateArgs) (use : CreateUse)
    (p : Addr) : ((createProcessCode k r args use).k.proc p).pid = (k.proc p).pid ∨
      .fresh p ∈ createActs k args := by
  unfold createProcessCode createActs
  by_cases h0 : args.entryPoint = 0
  · rw [if_pos h0]
    exact .inl rfl
  · rw [if_neg h0]
    by_cases hpid : allocatePid k = 0
    · rw [if_pos hpid]
      exact .inl rfl
    · rw [if_neg hpid]
      dsimp only
      rcases memAlloc_cases k .process with h | ⟨q, -, -, h⟩ <;> rw [h]
      · exact .inl rfl
      · by_cases hpq : p = q
        · refine .inr ?_
          simp [h0, hpid, hpq]
        · refine .inl ?_
          have hb := buildProcess_builds (k.grant q .process) q (allocatePid k) args
          have hother := (hb.other p hpq).trans (Function.update_of_ne hpq _ _)
          dsimp only
          split <;> exact congrArg Process.pid hother

theorem initScanCode_pids (k : Kernel) (r : Regs) (self : Addr) (left : Nat) :
    SamePids k (initScanCode k r self left).k := by
  have hpop : SamePids k (k.setChildren self (queuePop (k.proc self).children).2) :=
    .of_family (.setChildren k self _)
  unfold initScanCode
  dsimp only
  split
  · exact hpop
  · split
    · exact hpop
    · exact hpop.trans (.of_family (pushChild_family _ _ _))

theorem initTailCode_pids (k : Kernel) (r : Regs) (self : Option Addr) :
    SamePids k (initTailCode k r self).k :=
  List.foldlRecOn levels queueForPriority (motive := SamePids k) (.refl k)
    fun k' h priority _ => h.trans (.of_outside (queueForPriority_same k' priority).outside)

theorem sysCode_pids (k : Kernel) (r : Regs) (c : Syscall) : SamePids k (sysCode k r c).k := by
  cases c
  all_goals first
    | exact .refl k
    | (simp only [sysCode]; repeat' split) <;> exact .refl k
    | skip
  case semOpen name count create =>
      simp only [sysCode]
      split
      · exact .refl k
      split
      · exact .refl k
      · split
        · exact .refl k
        · rcases memAlloc_cases k .userSemaphore with h | ⟨s, -, -, h⟩ <;> rw [h]
          · exact .refl k
          · have hgrant : SamePids k (k.grant s .userSemaphore) := .refl k
            exact hgrant.trans (.of_inits (semInit_inits _ s name count))
  case sleepTicks n => exact (sleepTicks_sleeps k n).pid
  case processSetPriority pid n => exact .of_outside (schedulerSetProcessPriority_between k pid n).2
  case processBlock pid =>
      simp only [sysCode]
      split
      · exact .refl k
      · next p _ => split <;> exact .of_outside (processBlock_outside k p)
  case processUnblock pid =>
      simp only [sysCode]
      split
      · exact .refl k
      · next p _ => exact .of_outside (processUnblock_outside k p)
  case processWaitPid pid =>
      simp only [sysCode, processWaitPidCode]
      repeat' split
      all_goals first
        | exact .refl k
        | exact .of_family (.setChildren k _ _)
  case processGiveForeground pid =>
      simp only [sysCode, giveForegroundTo]
      repeat' split
      all_goals exact .refl k

/-- **Every instruction** leaves a process its pid, but for the one that makes the object. -/
theorem exec_pid (k : Kernel) (r : Regs) (i : Instr) (p : Addr) :
    ((exec k r i).k.proc p).pid = (k.proc p).pid ∨ .fresh p ∈ schedActs k i := by
  cases i
  case createProcess args use => exact createProcessCode_pid k r args use p
  all_goals refine .inl (SamePids.trans ?_ (SamePids.refl _) p)
  all_goals first
    | exact .refl k
    | (simp only [exec]; repeat' split) <;> first | exact .refl k | exact .modProc k _ rfl
    | skip
  case semWaitLocked s => exact .of_modSem (semWaitBody_outside k s)
  case semPostLocked s => exact .of_modSem (semPostBody_outside k s)
  case semDestroyLocked s => exact .of_modSem (semDestroyBody_outside k s)
  case openPipe => exact .of_opens (openPipeCode_opens k r)
  case processExit p => exact exitFirstHalf_pids k p
  case exitSemPost p =>
      simp only [exec]
      split
      · exact .refl k
      · next s _ => exact .of_modSem (semPostBody_outside k s)
  case createNamed c s name targets =>
      show SamePids k (createNamedCode k r c s name targets).k
      rw [createNamedCode_kernel]
      exact .refl k
  case createRegister c attached => exact createRegisterCode_pids k r c attached
  case createForeground c =>
      simp only [exec, createForeground]
      split <;> exact .refl k
  case createMark c => exact createMark_pids k c.process c.use
  case createDone c => exact createDone_pids k r c.process c.use
  case createFailed use => cases use <;> exact .refl k
  case processFreeMemory p => exact .of_frees (freeArgvAndStack_frees k p)
  case processFreeRest p => exact .of_frees (freeExitSemAndProcess_frees k p)
  case reapUnregister p =>
      simp only [exec]
      rw [processUnregister_kernel]
      exact .refl k
  case waitChildrenLoop parent terminated reaped =>
      simp only [exec]
      split
      · exact .refl k
      · exact .of_family (.setChildren k _ _)
  case initFirst =>
      simp only [exec, initFirstCode]
      repeat' split
      all_goals exact .refl k
  case initLoop =>
      simp only [exec, initLoopCode]
      split <;> exact .refl k
  case initScan self left =>
      simp only [exec]
      split
      · exact .refl k
      · exact initScanCode_pids k r self _
  case initTail self => exact initTailCode_pids k r self
  case sys c => exact sysCode_pids k r c

/-- **Every step** does. -/
theorem Machine.step_pid {m m' : Machine} {a : Action} (hs : m.step a = some m') (p : Addr) :
    (m'.k.proc p).pid = (m.k.proc p).pid ∨ .fresh p ∈ m.stepActs a := by
  cases a with
  | exec =>
      obtain ⟨i, hn, -, rfl⟩ := Machine.step_exec hs
      simp only [Machine.stepActs, hn]
      by_cases hi : i = .int20
      · subst hi
        exact .inl (pid_of_outside (scheduleTick_outside m.k m.cpu) p)
      · rw [m.execInstr_k hi]
        exact exec_pid m.k _ i p
  | tick =>
      obtain ⟨-, rfl⟩ := Machine.step_tick hs
      refine .inl ((pid_of_outside (scheduleTick_outside (timerHandler m.k) m.cpu) p).trans ?_)
      have hwake := pid_of_outside
        (wakeSleepers_outside (m.k.sleepingQueue.getD []) (nextTick m.k)) p
      rw [timerHandler_kernel]
      exact hwake
  | syscall c =>
      obtain ⟨-, -, -, rfl⟩ := Machine.step_syscall hs
      exact .inl rfl
  | ret =>
      obtain ⟨-, -, rfl⟩ := Machine.step_ret hs
      exact .inl rfl
  | exception =>
      obtain ⟨-, -, rfl⟩ := Machine.step_exception hs
      exact .inl rfl
  | key e =>
      obtain ⟨-, rfl⟩ := Machine.step_key hs
      exact .inl rfl

/-- **Every step** registers nobody, but for the end of a creation. -/
theorem Machine.step_lookup {m m' : Machine} {a : Action} (hs : m.step a = some m') {pid : Nat}
    {p : Addr} (h : processLookup m'.k pid = some p) : processLookup m.k pid = some p ∨
      ∃ c attached, m.Executes a (.createRegister c attached) ∧ (enterTree m.k c).1 = true ∧
        p = c.process ∧ pid = (m.k.proc c.process).pid := by
  cases a with
  | exec =>
      obtain ⟨i, hn, -, rfl⟩ := Machine.step_exec hs
      by_cases hi : i = .int20
      · subst hi
        have hout := processes_of_outside (scheduleTick_outside m.k m.cpu)
        exact .inl ((processLookup_congr hout pid).symm.trans h)
      · rw [m.execInstr_k hi] at h
        refine (exec_lookup h).imp_right ?_
        rintro ⟨c, attached, rfl, hr⟩
        exact ⟨c, attached, ⟨rfl, hn⟩, hr⟩
  | tick =>
      obtain ⟨-, rfl⟩ := Machine.step_tick hs
      have hout := processes_of_outside (scheduleTick_outside (timerHandler m.k) m.cpu)
      have hold := (processLookup_congr hout pid).symm.trans h
      exact .inl ((processLookup_congr (timerHandler_processes m.k) pid).symm.trans hold)
  | syscall c =>
      obtain ⟨-, -, -, rfl⟩ := Machine.step_syscall hs
      exact .inl h
  | ret =>
      obtain ⟨-, -, rfl⟩ := Machine.step_ret hs
      exact .inl h
  | exception =>
      obtain ⟨-, -, rfl⟩ := Machine.step_exception hs
      exact .inl h
  | key e =>
      obtain ⟨-, rfl⟩ := Machine.step_key hs
      exact .inl h

end TpSo
