import TpSo.Process.Build
import TpSo.Sem.Effects

set_option autoImplicit false

/-! # Code that leaves semaphores and pipes alone

Most instructions touch neither a semaphore nor a pipe. `exec_sameObjects` separates them from those
that do, so that facts about semaphores and pipes need to be checked for the latter only. -/

namespace TpSo

/-- The same semaphores and pipes. -/
structure SameObjects (k k' : Kernel) : Prop where
  sem : k'.sem = k.sem
  pipe : k'.pipe = k.pipe
  pipes : k'.pipes = k.pipes

namespace SameObjects

variable {k k' k'' : Kernel}

theorem refl (k : Kernel) : SameObjects k k := ⟨rfl, rfl, rfl⟩

theorem trans (h : SameObjects k k') (h' : SameObjects k' k'') : SameObjects k k'' :=
  ⟨h'.sem.trans h.sem, h'.pipe.trans h.pipe, h'.pipes.trans h.pipes⟩

theorem of_outer (h : k'.outer = k.outer) : SameObjects k k' where
  sem := show k'.outer.sem = k.outer.sem by rw [h]
  pipe := show k'.outer.pipe = k.outer.pipe by rw [h]
  pipes := show k'.outer.pipes = k.outer.pipes by rw [h]

theorem of_outside (h : k'.outside = k.outside) : SameObjects k k' := .of_outer (outer_of_outside h)

theorem of_family (h : FamilyOnly k k') : SameObjects k k' := .of_outer h.outer

theorem of_frees {p : Addr} (h : FreesProcess p k k') : SameObjects k k' where
  sem := by rw [h.kernel]
  pipe := by rw [h.kernel]
  pipes := by rw [h.kernel]

end SameObjects

/-! ## The longer stretches -/

theorem processUnregister_objects (k : Kernel) (pid : Nat) :
    SameObjects k (processUnregister k pid) := by
  rw [processUnregister_kernel]
  exact ⟨rfl, rfl, rfl⟩

theorem enterTree_objects (k : Kernel) (c : Creation) : SameObjects k (enterTree k c).2 := by
  constructor <;> rw [(enterTree_enters k c).kernel]

theorem createNamedCode_objects (k : Kernel) (r : Regs) (c : Creation) (s : Addr) (name : Name)
    (targets : List Nat) : SameObjects k (createNamedCode k r c s name targets).k := by
  rw [createNamedCode_kernel]
  exact ⟨rfl, rfl, rfl⟩

theorem createRegisterCode_objects (k : Kernel) (r : Regs) (c : Creation) (attached : List Nat) :
    SameObjects k (createRegisterCode k r c attached).k := by
  rw [createRegisterCode_k]
  exact enterTree_objects k c

theorem createForeground_objects (k : Kernel) (c : Creation) : SameObjects k (createForeground k c) := by
  unfold createForeground
  split <;> exact ⟨rfl, rfl, rfl⟩

theorem createMark_objects (k : Kernel) (p : Addr) (use : CreateUse) :
    SameObjects k (createMark k p use) := by
  cases use <;> exact ⟨rfl, rfl, rfl⟩

theorem createDone_objects (k : Kernel) (r : Regs) (p : Addr) (use : CreateUse) :
    SameObjects k (createDone k r p use).k := by
  have hready : SameObjects k (schedulerAddReady k p) := .of_outside (schedulerAddReady_outside k p)
  cases use with
  | syscall => exact hready
  | firstShell => exact hready
  | respawn => exact hready.trans ⟨rfl, rfl, rfl⟩

/-- Writing to the sleeping queue and the allocator's books, and the scheduler's data. -/
def SleepsOnly (k k' : Kernel) : Prop :=
  k'.outside = { k with sleepingQueue := k'.sleepingQueue, live := k'.live }.outside

theorem SleepsOnly.trans {k k' k'' : Kernel} (h : SleepsOnly k k') (h' : SleepsOnly k' k'') :
    SleepsOnly k k'' := by
  unfold SleepsOnly at h h' ⊢
  rw [h']
  exact congrArg (fun k : Kernel =>
    { k with sleepingQueue := k''.sleepingQueue, live := k''.live }) h

theorem SleepsOnly.processes {k k' : Kernel} (h : SleepsOnly k k') : k'.processes = k.processes := by
  unfold SleepsOnly at h
  exact (congrArg Kernel.processes h :)

theorem SleepsOnly.foregroundPid {k k' : Kernel} (h : SleepsOnly k k') :
    k'.foregroundPid = k.foregroundPid := by
  unfold SleepsOnly at h
  exact (congrArg Kernel.foregroundPid h :)

theorem SleepsOnly.shellCreated {k k' : Kernel} (h : SleepsOnly k k') :
    k'.shellCreated = k.shellCreated := by
  unfold SleepsOnly at h
  exact (congrArg Kernel.shellCreated h :)

theorem SleepsOnly.pid {k k' : Kernel} (h : SleepsOnly k k') (p : Addr) :
    (k'.proc p).pid = (k.proc p).pid := by
  unfold SleepsOnly at h
  exact (congrArg (fun k : Kernel => (k.proc p).pid) h :)

theorem sleepTicks_sleeps (k : Kernel) (n : Nat) : SleepsOnly k (sleepTicks k n).2 := by
  have hinit : SleepsOnly k (initSleepingQueue k) := by
    unfold initSleepingQueue
    split <;> rfl
  have hpush : ∀ (k : Kernel) e, SleepsOnly k (pushSleeper k e).2 := by
    intro k e
    unfold pushSleeper
    dsimp only
    rw [queuePush_kernel]
    rfl
  unfold sleepTicks
  split
  · exact hinit
  · next c _ =>
    refine hinit.trans ?_
    unfold sleepCurrent
    rcases memAlloc_cases (initSleepingQueue k) .bytes with h | ⟨a, -, -, h⟩ <;> rw [h] <;> dsimp only
    · rfl
    · have hgrant : SleepsOnly (initSleepingQueue k) ((initSleepingQueue k).grant a .bytes) := rfl
      split
      · have hblock : ∀ k : Kernel, SleepsOnly k (processBlock k c).2 := fun k => by
          have hout := processBlock_outside k c
          have hsleep : (processBlock k c).2.sleepingQueue = k.sleepingQueue :=
            (congrArg Kernel.sleepingQueue hout :)
          have hlive : (processBlock k c).2.live = k.live := (congrArg Kernel.live hout :)
          unfold SleepsOnly
          rw [hsleep, hlive]
          exact hout
        exact (hgrant.trans (hpush _ _)).trans (hblock _)
      · exact (hgrant.trans (hpush _ _)).trans rfl

theorem sleepTicks_objects (k : Kernel) (n : Nat) : SameObjects k (sleepTicks k n).2 := by
  have h := sleepTicks_sleeps k n
  unfold SleepsOnly at h
  exact ⟨(congrArg Kernel.sem h :), (congrArg Kernel.pipe h :), (congrArg Kernel.pipes h :)⟩

theorem initScanCode_objects (k : Kernel) (r : Regs) (self : Addr) (left : Nat) :
    SameObjects k (initScanCode k r self left).k := by
  have hpop : SameObjects k (k.setChildren self (queuePop (k.proc self).children).2) :=
    ⟨rfl, rfl, rfl⟩
  unfold initScanCode
  dsimp only
  split
  · exact hpop
  · split
    · exact hpop
    · exact hpop.trans (.of_family (pushChild_family _ _ _))

theorem initTailCode_objects (k : Kernel) (r : Regs) (self : Option Addr) :
    SameObjects k (initTailCode k r self).k :=
  List.foldlRecOn levels queueForPriority (motive := SameObjects k) (.refl k)
    fun k' h priority _ => h.trans (.of_outside (queueForPriority_same k' priority).outside)

/-- Does a system call's first stretch create a semaphore? -/
def Syscall.touchesObjects : Syscall → Bool
  | .semOpen _ _ _ => true
  | _ => false

theorem sysCode_objects (k : Kernel) (r : Regs) {c : Syscall} (hc : c.touchesObjects = false) :
    SameObjects k (sysCode k r c).k := by
  cases c
  all_goals first
    | exact .refl k
    | (simp only [sysCode]; repeat' split) <;> exact .refl k
    | skip
  case semOpen name count create => cases hc
  case sleepTicks n => exact sleepTicks_objects k n
  case processSetPriority pid n => exact .of_outside (schedulerSetProcessPriority_between k pid n).2
  case processBlock pid =>
      simp only [sysCode]
      split
      · exact .refl k
      · next p _ => split <;> exact .of_outside (processBlock_outside k p)
  case processUnblock pid =>
      simp only [sysCode]
      split
      · exact .refl k
      · next p _ => exact .of_outside (processUnblock_outside k p)
  case processWaitPid pid =>
      simp only [sysCode, processWaitPidCode]
      repeat' split
      all_goals exact ⟨rfl, rfl, rfl⟩
  case processGiveForeground pid =>
      simp only [sysCode, giveForegroundTo]
      repeat' split
      all_goals exact ⟨rfl, rfl, rfl⟩

/-- Does the instruction write to a semaphore, a pipe or the pipe table? -/
def Instr.touchesObjects : Instr → Bool
  | .semLock _ | .semWaitLocked _ | .semPostLocked _ | .semDestroyLocked _ | .semReadValue _ _
  | .semStoreValue _ _ | .attachLocked _ | .unattachFromPipe _ _ | .unattachLocked _
  | .closeReaders _ _ _ | .closeWriters _ _ _ _ | .destroyPipeFree _ _ | .openPipe
  | .readLocked _ _ _ | .readWoken _ | .writeLocked _ _ _ | .writeWoken _ | .clearLocked _
  | .clearCount _ | .exitSemPost _ | .createProcess _ _ => true
  | .sys c => c.touchesObjects
  | _ => false

/-- **All other instructions** leave them as they are. -/
theorem exec_sameObjects (k : Kernel) (r : Regs) {i : Instr} (hi : i.touchesObjects = false) :
    SameObjects k (exec k r i).k := by
  cases i
  all_goals first
    | cases hi; done
    | exact .refl k
    | (simp only [exec]; repeat' split) <;> first | exact .refl k | exact ⟨rfl, rfl, rfl⟩
    | skip
  case processExit p => exact .of_outer (exitFirstHalf_outer k p)
  case createNamed c s name targets => exact createNamedCode_objects k r c s name targets
  case createRegister c attached => exact createRegisterCode_objects k r c attached
  case createForeground c => exact createForeground_objects k c
  case createMark c => exact createMark_objects k c.process c.use
  case createDone c => exact createDone_objects k r c.process c.use
  case createFailed use => cases use <;> exact .refl k
  case processFreeMemory p => exact .of_frees (freeArgvAndStack_frees k p)
  case processFreeRest p => exact .of_frees (freeExitSemAndProcess_frees k p)
  case reapUnregister p => exact processUnregister_objects k _
  case initFirst =>
      simp only [exec, initFirstCode]
      repeat' split
      all_goals exact .refl k
  case initLoop =>
      simp only [exec, initLoopCode]
      split <;> exact .refl k
  case initScan self left =>
      simp only [exec]
      split
      · exact .refl k
      · exact initScanCode_objects k r self _
  case initTail self => exact initTailCode_objects k r self
  case sys c => exact sysCode_objects k r hi

end TpSo
