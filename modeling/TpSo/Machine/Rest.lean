import TpSo.Machine.Objects

set_option autoImplicit false

/-! # Code that leaves the tables alone

The process table and the other fields of `pcb`, the clock with its sleepers and the timer mask are
written by a handful of instructions. `exec_sameRest` separates all others from them. -/

namespace TpSo

/-- The same process table and `pcb`, clock, sleepers and timer mask. -/
structure SameRest (k k' : Kernel) : Prop where
  processes : k'.processes = k.processes
  foregroundPid : k'.foregroundPid = k.foregroundPid
  initPid : k'.initPid = k.initPid
  ticks : k'.ticks = k.ticks
  sleepingQueue : k'.sleepingQueue = k.sleepingQueue
  timerMasked : k'.timerMasked = k.timerMasked
  shellCreated : k'.shellCreated = k.shellCreated

namespace SameRest

variable {k k' k'' : Kernel}

theorem refl (k : Kernel) : SameRest k k := ⟨rfl, rfl, rfl, rfl, rfl, rfl, rfl⟩

theorem trans (h : SameRest k k') (h' : SameRest k' k'') : SameRest k k'' where
  processes := h'.processes.trans h.processes
  foregroundPid := h'.foregroundPid.trans h.foregroundPid
  initPid := h'.initPid.trans h.initPid
  ticks := h'.ticks.trans h.ticks
  sleepingQueue := h'.sleepingQueue.trans h.sleepingQueue
  timerMasked := h'.timerMasked.trans h.timerMasked
  shellCreated := h'.shellCreated.trans h.shellCreated

theorem of_outside (h : k'.outside = k.outside) : SameRest k k' where
  processes := show k'.outside.processes = k.outside.processes by rw [h]
  foregroundPid := show k'.outside.foregroundPid = k.outside.foregroundPid by rw [h]
  initPid := show k'.outside.initPid = k.outside.initPid by rw [h]
  ticks := show k'.outside.ticks = k.outside.ticks by rw [h]
  sleepingQueue := show k'.outside.sleepingQueue = k.outside.sleepingQueue by rw [h]
  timerMasked := show k'.outside.timerMasked = k.outside.timerMasked by rw [h]
  shellCreated := show k'.outside.shellCreated = k.outside.shellCreated by rw [h]

theorem of_family (h : FamilyOnly k k') : SameRest k k' := by
  constructor <;> rw [h.kernel]

/-- Code that beyond the scheduler's data writes to one semaphore. -/
theorem of_modSem {s : Addr} {f : Sem → Sem} (h : k'.outside = (k.modSem s f).outside) :
    SameRest k k' := by
  have hmod : SameRest k (k.modSem s f) := ⟨rfl, rfl, rfl, rfl, rfl, rfl, rfl⟩
  exact hmod.trans (.of_outside h)

theorem of_inits {s : Addr} (h : InitsSem s k k') : SameRest k k' := by
  constructor <;> rw [h.kernel]

theorem of_builds {p : Addr} (h : Builds p k k') : SameRest k k' := by
  constructor <;> rw [h.kernel]

theorem of_opens (h : OpensPipe k k') : SameRest k k' := by
  constructor <;> rw [h.kernel]

theorem of_frees {p : Addr} (h : FreesProcess p k k') : SameRest k k' := by
  constructor <;> rw [h.kernel]

end SameRest

/-! ## The longer stretches -/

theorem createProcessCode_rest (k : Kernel) (r : Regs) (args : CreateArgs) (use : CreateUse) :
    SameRest k (createProcessCode k r args use).k := by
  unfold createProcessCode
  split
  · exact .refl k
  · split
    · exact .refl k
    · dsimp only
      rcases memAlloc_cases k .process with h | ⟨p, -, -, h⟩ <;> rw [h]
      · exact .of_outside (allocNext_outside k)
      · have hnew : SameRest k ((k.grant p .process).modProc p
            fun _ => newProcess (allocatePid k) args) := ⟨rfl, rfl, rfl, rfl, rfl, rfl, rfl⟩
        have hb := buildProcess_builds (k.grant p .process) p (allocatePid k) args
        dsimp only
        split <;> exact hnew.trans (.of_builds hb)

theorem createDone_rest (k : Kernel) (r : Regs) (p : Addr) (use : CreateUse) :
    SameRest k (createDone k r p use).k := by
  have hready : SameRest k (schedulerAddReady k p) := .of_outside (schedulerAddReady_outside k p)
  cases use with
  | syscall => exact hready
  | firstShell => exact hready
  | respawn => exact hready.trans ⟨rfl, rfl, rfl, rfl, rfl, rfl, rfl⟩

theorem initScanCode_rest (k : Kernel) (r : Regs) (self : Addr) (left : Nat) :
    SameRest k (initScanCode k r self left).k := by
  have hpop : SameRest k (k.setChildren self (queuePop (k.proc self).children).2) :=
    ⟨rfl, rfl, rfl, rfl, rfl, rfl, rfl⟩
  unfold initScanCode
  dsimp only
  split
  · exact hpop
  · split
    · exact hpop
    · exact hpop.trans (.of_family (pushChild_family _ _ _))

theorem initTailCode_rest (k : Kernel) (r : Regs) (self : Option Addr) :
    SameRest k (initTailCode k r self).k :=
  List.foldlRecOn levels queueForPriority (motive := SameRest k) (.refl k)
    fun k' h priority _ => h.trans (.of_outside (queueForPriority_same k' priority).outside)

/-- Does a system call's first stretch write to them? -/
def Syscall.touchesRest : Syscall → Bool
  | .sleepTicks _ | .processGiveForeground _ => true
  | _ => false

theorem sysCode_rest (k : Kernel) (r : Regs) {c : Syscall} (hc : c.touchesRest = false) :
    SameRest k (sysCode k r c).k := by
  cases c
  all_goals first
    | cases hc; done
    | exact .refl k
    | (simp only [sysCode]; repeat' split) <;> exact .refl k
    | skip
  case semOpen name count create =>
      simp only [sysCode]
      split
      · exact .refl k
      split
      · exact .refl k
      · split
        · exact .refl k
        · rcases memAlloc_cases k .userSemaphore with h | ⟨s, -, -, h⟩ <;> rw [h]
          · exact .of_outside (allocNext_outside k)
          · have hgrant : SameRest k (k.grant s .userSemaphore) := ⟨rfl, rfl, rfl, rfl, rfl, rfl, rfl⟩
            exact hgrant.trans (.of_inits (semInit_inits _ s name count))
  case processSetPriority pid n => exact .of_outside (schedulerSetProcessPriority_between k pid n).2
  case processBlock pid =>
      simp only [sysCode]
      split
      · exact .refl k
      · next p _ => split <;> exact .of_outside (processBlock_outside k p)
  case processUnblock pid =>
      simp only [sysCode]
      split
      · exact .refl k
      · next p _ => exact .of_outside (processUnblock_outside k p)
  case processWaitPid pid =>
      simp only [sysCode, processWaitPidCode]
      repeat' split
      all_goals exact ⟨rfl, rfl, rfl, rfl, rfl, rfl, rfl⟩

/-- Does the instruction write to the process table, the pids, the clock or the timer mask? -/
def Instr.touchesRest : Instr → Bool
  | .processExit _ | .createRegister _ _ | .createForeground _ | .createMark _ | .reapUnregister _
  | .excMask _ => true
  | .sys c => c.touchesRest
  | _ => false

/-- **All other instructions** leave them as they are. -/
theorem exec_sameRest (k : Kernel) (r : Regs) {i : Instr} (hi : i.touchesRest = false) :
    SameRest k (exec k r i).k := by
  cases i
  all_goals first
    | cases hi; done
    | exact .refl k
    | (simp only [exec]; repeat' split) <;> first | exact .refl k | exact ⟨rfl, rfl, rfl, rfl, rfl, rfl, rfl⟩
    | skip
  case semWaitLocked s => exact .of_modSem (semWaitBody_outside k s)
  case semPostLocked s => exact .of_modSem (semPostBody_outside k s)
  case semDestroyLocked s => exact .of_modSem (semDestroyBody_outside k s)
  case openPipe => exact .of_opens (openPipeCode_opens k r)
  case exitSemPost p =>
      simp only [exec]
      split
      · exact .refl k
      · next s _ => exact .of_modSem (semPostBody_outside k s)
  case createProcess args use => exact createProcessCode_rest k r args use
  case createNamed c s name targets =>
      show SameRest k (createNamedCode k r c s name targets).k
      rw [createNamedCode_kernel]
      exact ⟨rfl, rfl, rfl, rfl, rfl, rfl, rfl⟩
  case createDone c => exact createDone_rest k r c.process c.use
  case createFailed use => cases use <;> exact .refl k
  case processFreeMemory p => exact .of_frees (freeArgvAndStack_frees k p)
  case processFreeRest p => exact .of_frees (freeExitSemAndProcess_frees k p)
  case initFirst =>
      simp only [exec, initFirstCode]
      repeat' split
      all_goals exact .refl k
  case initLoop =>
      simp only [exec, initLoopCode]
      split <;> exact .refl k
  case initScan self left =>
      simp only [exec]
      split
      · exact .refl k
      · exact initScanCode_rest k r self _
  case initTail self => exact initTailCode_rest k r self
  case sys c => exact sysCode_rest k r hi

end TpSo
