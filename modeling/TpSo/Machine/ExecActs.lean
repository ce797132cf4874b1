import TpSo.Sem.Effects
import TpSo.Process.Build

set_option autoImplicit false

/-! # The scheduler operations of each instruction

`schedActs k i` lists the scheduler operations the instruction `i` performs in the state `k`;
`exec_acts` proves the list right. Most instructions perform none. -/

namespace TpSo

/-- What `sem_post` does to the scheduler. -/
def postActs (k : Kernel) (s : Addr) : List SchedAct :=
  (firstBlocked k (waiters k s)).toList.map .unblock

/-- What the first stretch of `createProcess` does to the scheduler. -/
def createActs (k : Kernel) (args : CreateArgs) : List SchedAct :=
  if args.entryPoint = 0 ∨ allocatePid k = 0 then []
  else (k.memAlloc .process).1.toList.map .fresh

/-- What `sleepTicks` does to the scheduler. -/
def sleepActs (k : Kernel) (n : Nat) : List SchedAct :=
  if (sleepTicks k n).1 then k.current.toList.map .block else []

/-- The scheduler operations of a system call's first stretch. -/
def sysActs (k : Kernel) : Syscall → List SchedAct
  | .sleepTicks n => sleepActs k n
  | .processBlock pid => (processLookup k pid).toList.map .block
  | .processUnblock pid => (processLookup k pid).toList.map .unblock
  | .processSetPriority pid priority => [.setPriority pid priority]
  | _ => []

/-- What `sem_wait` does to the scheduler. -/
def waitActs (k : Kernel) (s : Addr) : List SchedAct :=
  if (k.sem s).count > 0 then [] else k.current.toList.map .block

/-- The scheduler operations of a stretch of kernel code. -/
def schedActs (k : Kernel) : Instr → List SchedAct
  | .semWaitLocked s => waitActs k s
  | .semPostLocked s => postActs k s
  | .exitSemPost p => (k.proc p).exitSem.toList.flatMap (postActs k)
  | .semDestroyLocked s => (waiters k s).map .unblock
  | .processExit p => [.exit p]
  | .createProcess args _ => createActs k args
  | .createDone c => [.ready c.process]
  | .sys c => sysActs k c
  | _ => []

/-- Which operation comes from which instruction, and why. -/
inductive ActOf (k : Kernel) : Instr → SchedAct → Prop
  | wait {s p : Addr} : (k.sem s).count = 0 → k.current = some p → ActOf k (.semWaitLocked s) (.block p)
  | post {s p : Addr} : firstBlocked k (waiters k s) = some p → ActOf k (.semPostLocked s) (.unblock p)
  | exitPost {q s p : Addr} : (k.proc q).exitSem = some s → firstBlocked k (waiters k s) = some p →
      ActOf k (.exitSemPost q) (.unblock p)
  | destroy {s p : Addr} : p ∈ waiters k s → ActOf k (.semDestroyLocked s) (.unblock p)
  | exit {p : Addr} : ActOf k (.processExit p) (.exit p)
  | create {args : CreateArgs} {use : CreateUse} {p : Addr} : (k.memAlloc .process).1 = some p →
      ActOf k (.createProcess args use) (.fresh p)
  | done {c : Creation} : ActOf k (.createDone c) (.ready c.process)
  | sleep {n : Nat} {p : Addr} : (sleepTicks k n).1 = true → k.current = some p →
      ActOf k (.sys (.sleepTicks n)) (.block p)
  | sysBlock {pid : Nat} {p : Addr} : processLookup k pid = some p →
      ActOf k (.sys (.processBlock pid)) (.block p)
  | sysUnblock {pid : Nat} {p : Addr} : processLookup k pid = some p →
      ActOf k (.sys (.processUnblock pid)) (.unblock p)
  | sysPriority {pid priority : Nat} :
      ActOf k (.sys (.processSetPriority pid priority)) (.setPriority pid priority)

theorem mem_map_toList {α β : Type} {o : Option α} {f : α → β} {b : β} (h : b ∈ o.toList.map f) :
    ∃ a, o = some a ∧ b = f a := by
  obtain ⟨a, ha, hb⟩ := List.mem_map.mp h
  exact ⟨a, by simpa using ha, hb.symm⟩

/-- **The operations of an instruction**, read from `schedActs`. -/
theorem mem_schedActs {k : Kernel} {i : Instr} {a : SchedAct} (h : a ∈ schedActs k i) :
    ActOf k i a := by
  cases i <;> try exact absurd h List.not_mem_nil
  case semWaitLocked s =>
      simp only [schedActs, waitActs] at h
      split at h
      · exact absurd h List.not_mem_nil
      · obtain ⟨p, hp, rfl⟩ := mem_map_toList h
        exact .wait (by omega) hp
  case semPostLocked s =>
      obtain ⟨p, hp, rfl⟩ := mem_map_toList h
      exact .post hp
  case semDestroyLocked s =>
      obtain ⟨p, hp, rfl⟩ := List.mem_map.mp h
      exact .destroy hp
  case processExit p =>
      cases List.mem_singleton.mp h
      exact .exit
  case exitSemPost q =>
      obtain ⟨s, hs, hm⟩ := List.mem_flatMap.mp h
      obtain ⟨p, hp, rfl⟩ := mem_map_toList hm
      exact .exitPost (by simpa using hs) hp
  case createProcess args use =>
      simp only [schedActs, createActs] at h
      split at h
      · exact absurd h List.not_mem_nil
      · obtain ⟨p, hp, rfl⟩ := mem_map_toList h
        exact .create hp
  case createDone c =>
      cases List.mem_singleton.mp h
      exact .done
  case sys c =>
      cases c <;> try exact absurd h List.not_mem_nil
      case sleepTicks n =>
          simp only [schedActs, sysActs, sleepActs] at h
          split at h
          · next hok =>
            obtain ⟨p, hp, rfl⟩ := mem_map_toList h
            exact .sleep hok hp
          · exact absurd h List.not_mem_nil
      case processSetPriority pid n =>
          cases List.mem_singleton.mp h
          exact .sysPriority
      case processBlock pid =>
          obtain ⟨p, hp, rfl⟩ := mem_map_toList h
          exact .sysBlock hp
      case processUnblock pid =>
          obtain ⟨p, hp, rfl⟩ := mem_map_toList h
          exact .sysUnblock hp

/-! ## Semaphores -/

theorem enqueueWaiter_same (k : Kernel) (s p : Addr) : SameSched k (enqueueWaiter k s p) := by
  unfold enqueueWaiter
  dsimp only
  rw [queuePush_kernel]
  exact .of_eq rfl rfl rfl rfl rfl

theorem semUnlock_same (k : Kernel) (s : Addr) : SameSched k (semUnlock k s) := .of_eq rfl rfl rfl rfl rfl

theorem semWaitBody_acts (k : Kernel) (s : Addr) :
    SchedActs k (waitActs k s) (semWaitBody k s).2.2 := by
  unfold semWaitBody waitActs
  split
  · exact .done (.of_eq rfl rfl rfl rfl rfl)
  · split
    · next hc => rw [hc]; exact .done (semUnlock_same k s)
    · next c hc =>
      rw [hc]
      exact .one (a := .block c) (enqueueWaiter_same k s c) rfl (semUnlock_same _ s)

theorem semPostBody_acts (k : Kernel) (s : Addr) :
    SchedActs k (postActs k s) (semPostBody k s).2 := by
  unfold semPostBody postActs waiters
  split
  · next hw => rw [hw]; exact .done (.of_eq rfl rfl rfl rfl rfl)
  · next ws hw =>
    rw [hw, Option.getD_some, wakeOne_eq]
    cases hf : firstBlocked k ws with
    | none => exact .done (.of_eq rfl rfl rfl rfl rfl)
    | some w =>
        have hw : (SchedAct.unblock w).Step k (schedulerAddReady k w) := by
          simp [SchedAct.Step, processUnblock, firstBlocked_state hf]
        exact .one (.refl k) hw (.of_eq rfl rfl rfl rfl rfl)

theorem unblockAll_acts (ws : List Addr) :
    ∀ k : Kernel, SchedActs k (ws.map .unblock) (ws.foldl (fun k p => (processUnblock k p).2) k) := by
  induction ws with
  | nil => exact fun k => .done (.refl k)
  | cons w rest ih => exact fun k => .act (.refl k) rfl (ih _)

theorem semDestroyBody_acts (k : Kernel) (s : Addr) :
    SchedActs k ((waiters k s).map .unblock) (semDestroyBody k s) :=
  (unblockAll_acts _ k).trans_same (.of_eq rfl rfl rfl rfl rfl)

theorem semInit_same (k : Kernel) (s : Addr) (name : Name) (count : Nat) :
    SameSched k (semInit k s name count) := by
  rw [(semInit_inits k s name count).kernel]
  exact .of_eq rfl rfl rfl rfl rfl

/-! ## Creation -/

/-- A new process object is the one thing the scheduler sees of `createProcess`'s first stretch. -/
theorem createProcessCode_acts (k : Kernel) (r : Regs) (args : CreateArgs) (use : CreateUse) :
    SchedActs k (createActs k args) (createProcessCode k r args use).k := by
  unfold createProcessCode createActs
  by_cases he : args.entryPoint = 0
  · rw [if_pos he, if_pos (.inl he)]
    exact .done (.refl k)
  · rw [if_neg he]
    by_cases hpid : allocatePid k = 0
    · rw [if_pos hpid, if_pos (.inr hpid)]
      exact .done (.refl k)
    · rw [if_neg hpid, if_neg (by tauto)]
      dsimp only
      rcases memAlloc_cases k .process with h | ⟨p, hfree, hbase, h⟩ <;> rw [h]
      · exact .done (.of_eq rfl rfl rfl rfl rfl)
      · dsimp only
        set built := buildProcess (k.grant p .process) p (allocatePid k) args with hbuilt
        have hb : Builds p ((k.grant p .process).modProc p (fun _ => newProcess (allocatePid k) args))
          built.2 := buildProcess_builds _ p _ args
        have hnew : ((k.grant p .process).modProc p (fun _ => newProcess (allocatePid k) args)).proc p =
            newProcess (allocatePid k) args := Function.update_self ..
        have hfresh : (SchedAct.fresh p).Step k built.2 := by
          refine ⟨hfree, hbase, ?_, ?_, fun q hq => ?_, ?_, ?_, ?_, ?_⟩
          · rw [hb.object, hnew]
            rfl
          · exact hb.rsp.symm.imp id fun h => h.trans (by rw [hnew]; rfl)
          · exact (hb.other q hq).trans (Function.update_of_ne hq _ _)
          all_goals rw [hb.kernel]; rfl
        split <;> exact .one (a := .fresh p) (.refl k) hfresh (.refl _)

theorem processUnregister_same (k : Kernel) (pid : Nat) : SameSched k (processUnregister k pid) := by
  rw [processUnregister_kernel]
  exact .of_eq rfl rfl rfl rfl rfl

theorem enterTree_same (k : Kernel) (c : Creation) : SameSched k (enterTree k c).2 := by
  have h := enterTree_enters k c
  refine ⟨fun p => by rw [h.proc p], fun p => by rw [h.proc p], fun p => by rw [h.proc p], ?_, ?_, ?_,
    ?_, ?_⟩
  · intro i
    unfold entries
    rw [h.kernel]
  · intro i hi
    rw [h.kernel]
    exact hi
  all_goals rw [h.kernel]

theorem createNamedCode_same (k : Kernel) (r : Regs) (c : Creation) (s : Addr) (name : Name)
    (targets : List Nat) : SameSched k (createNamedCode k r c s name targets).k := by
  rw [createNamedCode_kernel]
  exact .of_eq rfl rfl rfl rfl rfl

theorem createRegisterCode_same (k : Kernel) (r : Regs) (c : Creation) (attached : List Nat) :
    SameSched k (createRegisterCode k r c attached).k := by
  rw [createRegisterCode_k]
  exact enterTree_same k c

theorem createForeground_same (k : Kernel) (c : Creation) : SameSched k (createForeground k c) := by
  unfold createForeground
  split <;> exact .of_eq rfl rfl rfl rfl rfl

theorem createMark_same (k : Kernel) (p : Addr) (use : CreateUse) : SameSched k (createMark k p use) := by
  have hshell : SameSched k (k.modProc p Process.markShell) := .modProc k p _ rfl rfl rfl
  cases use with
  | syscall => exact .refl k
  | firstShell => exact hshell.trans (.of_eq rfl rfl rfl rfl rfl)
  | respawn => exact hshell

theorem createDone_acts (k : Kernel) (r : Regs) (p : Addr) (use : CreateUse) :
    SchedActs k [.ready p] (createDone k r p use).k := by
  cases use with
  | syscall => exact .one (a := .ready p) (.refl k) rfl (.refl _)
  | firstShell => exact .one (a := .ready p) (.refl k) rfl (.refl _)
  | respawn => exact .one (a := .ready p) (.refl k) rfl (.of_eq rfl rfl rfl rfl rfl)

theorem initSleepingQueue_same (k : Kernel) : SameSched k (initSleepingQueue k) := by
  unfold initSleepingQueue
  split <;> exact .of_eq rfl rfl rfl rfl rfl

theorem pushSleeper_same (k : Kernel) (e : SleepingProcess) : SameSched k (pushSleeper k e).2 := by
  unfold pushSleeper
  dsimp only
  rw [queuePush_kernel]
  exact .of_eq rfl rfl rfl rfl rfl

theorem sleepCurrent_acts (k : Kernel) (c : Addr) (n : Nat) :
    SchedActs k (if (sleepCurrent k c n).1 then [.block c] else []) (sleepCurrent k c n).2 := by
  unfold sleepCurrent
  rcases memAlloc_cases k .bytes with h | ⟨a, -, -, h⟩ <;> rw [h] <;> dsimp only
  · exact .done (.of_eq rfl rfl rfl rfl rfl)
  · have hpush := pushSleeper_same (k.grant a .bytes)
      { addr := a, pid := ((k.grant a .bytes).proc c).pid
        wakeTime := ((k.grant a .bytes).ticks + n) % 2 ^ 64 }
    have hgrant : SameSched k (k.grant a .bytes) := .of_eq rfl rfl rfl rfl rfl
    split
    · exact .one (a := .block c) (hgrant.trans hpush) rfl (.refl _)
    · exact .done ((hgrant.trans hpush).trans (.of_eq rfl rfl rfl rfl rfl))

theorem sleepTicks_acts (k : Kernel) (n : Nat) :
    SchedActs k (sleepActs k n) (sleepTicks k n).2 := by
  have hinit := initSleepingQueue_same k
  unfold sleepActs sleepTicks
  cases k.current with
  | none => exact .done hinit
  | some c => exact .same_trans hinit (sleepCurrent_acts _ c n)

/-! ## All instructions -/

theorem openPipeCode_same (k : Kernel) (r : Regs) : SameSched k (openPipeCode k r).k := by
  rw [(openPipeCode_opens k r).kernel]
  exact .of_eq rfl rfl rfl rfl rfl

theorem FreesProcess.same {p : Addr} {k k' : Kernel} (h : FreesProcess p k k') : SameSched k k' := by
  have hproc : ∀ q, (k'.proc q).state = (k.proc q).state ∧ (k'.proc q).rsp = (k.proc q).rsp ∧
      (k'.proc q).priority = (k.proc q).priority := fun q => by
    by_cases hq : q = p
    · subst hq
      rw [h.object]
      exact ⟨rfl, rfl, rfl⟩
    · rw [h.other q hq]
      exact ⟨rfl, rfl, rfl⟩
  refine ⟨fun q => (hproc q).1, fun q => (hproc q).2.1, fun q => (hproc q).2.2, fun i => ?_,
    fun i hi => ?_, ?_, ?_, ?_⟩
  · rw [h.kernel]
    rfl
  · rw [h.kernel]
    exact hi
  all_goals rw [h.kernel]

theorem removeChild_same (k : Kernel) (parent child : Addr) :
    SameSched k (removeChild k parent child).2 :=
  .of_family (.setChildren _ _ _)

theorem initScanCode_same (k : Kernel) (r : Regs) (self : Addr) (left : Nat) :
    SameSched k (initScanCode k r self left).k := by
  have hpop : SameSched k (k.setChildren self (queuePop (k.proc self).children).2) :=
    .of_family (.setChildren _ _ _)
  unfold initScanCode
  dsimp only
  split
  · exact hpop
  · split
    · exact hpop
    · exact hpop.trans (.of_family (pushChild_family _ _ _))

theorem initTailCode_same (k : Kernel) (r : Regs) (self : Option Addr) :
    SameSched k (initTailCode k r self).k :=
  List.foldlRecOn levels queueForPriority (motive := SameSched k) (.refl k)
    fun k' h priority _ => h.trans (.queueForPriority k' priority)

theorem sysCode_acts (k : Kernel) (r : Regs) (c : Syscall) :
    SchedActs k (sysActs k c) (sysCode k r c).k := by
  cases c
  all_goals first
    | exact .done (.refl k)
    | (simp only [sysCode]; repeat' split) <;> exact .done (.refl k)
    | skip
  case semOpen name count create =>
      simp only [sysCode]
      split
      · exact .done (.refl k)
      split
      · exact .done (.refl k)
      · split
        · exact .done (.refl k)
        · rcases memAlloc_cases k .userSemaphore with h | ⟨s, -, -, h⟩ <;> rw [h] <;> dsimp only
          · exact .done (.of_eq rfl rfl rfl rfl rfl)
          · have hgrant : SameSched k (k.grant s .userSemaphore) := .of_eq rfl rfl rfl rfl rfl
            exact .done (hgrant.trans (semInit_same _ s name count))
  case sleepTicks n => exact sleepTicks_acts k n
  case processSetPriority pid priority =>
      exact .one (a := .setPriority pid priority) (.refl k) rfl (.refl _)
  case processBlock pid =>
      simp only [sysCode, sysActs]
      cases processLookup k pid with
      | none => exact .done (.refl k)
      | some p =>
          refine .one (a := .block p) (.refl k) rfl ?_
          dsimp only
          split <;> exact .refl _
  case processUnblock pid =>
      simp only [sysCode, sysActs]
      cases processLookup k pid with
      | none => exact .done (.refl k)
      | some p => exact .one (a := .unblock p) (.refl k) rfl (.refl _)
  case processWaitPid pid =>
      simp only [sysCode, processWaitPidCode]
      split
      · next current child _ _ =>
        split
        · exact .done (.refl k)
        · split <;> exact .done (removeChild_same k current child)
      · exact .done (.refl k)
  case processGiveForeground pid =>
      simp only [sysCode, giveForegroundTo]
      repeat' split
      all_goals exact .done (.of_eq rfl rfl rfl rfl rfl)

/-- **Every instruction** acts on the scheduler by the operations `schedActs` lists. -/
theorem exec_acts (k : Kernel) (r : Regs) (i : Instr) :
    SchedActs k (schedActs k i) (exec k r i).k := by
  cases i
  all_goals first
    | exact .done (.refl k)
    | (simp only [exec]; repeat' split) <;>
        first | exact .done (.refl k) | exact .done (.of_eq rfl rfl rfl rfl rfl)
    | skip
  case processYield =>
      simp only [exec]
      split
      · exact .done (.refl k)
      · next c _ => exact .done (.modProc k c Process.endQuantum rfl rfl rfl)
  case semWaitLocked s => exact semWaitBody_acts k s
  case semPostLocked s => exact semPostBody_acts k s
  case semDestroyLocked s => exact semDestroyBody_acts k s
  case openPipe => exact .done (openPipeCode_same k r)
  case fdSet cur fd target => exact .done (.modProc k cur (fun p => p.setTargets _) rfl rfl rfl)
  case processExit p => exact .one (a := .exit p) (.refl k) rfl (.refl _)
  case exitSemPost p =>
      simp only [exec, schedActs]
      cases (k.proc p).exitSem with
      | none => exact .done (.refl k)
      | some s =>
          simp only [Option.toList_some, List.flatMap_cons, List.flatMap_nil, List.append_nil]
          exact semPostBody_acts k s
  case createProcess args use => exact createProcessCode_acts k r args use
  case createNamed c s name targets => exact .done (createNamedCode_same k r c s name targets)
  case createRegister c attached => exact .done (createRegisterCode_same k r c attached)
  case createForeground c => exact .done (createForeground_same k c)
  case createMark c => exact .done (createMark_same k c.process c.use)
  case createDone c => exact createDone_acts k r c.process c.use
  case createFailed use => cases use <;> exact .done (.refl k)
  case processFreeMemory p => exact .done (freeArgvAndStack_frees k p).same
  case processFreeRest p => exact .done (freeExitSemAndProcess_frees k p).same
  case reapUnregister p => exact .done (processUnregister_same k _)
  case waitChildrenLoop parent terminated reaped =>
      cases terminated with
      | nil => exact .done (.refl k)
      | cons child rest => exact .done (removeChild_same k parent child)
  case initFirst =>
      simp only [exec, initFirstCode]
      split
      · exact .done (.refl k)
      · split <;> exact .done (.refl k)
  case initLoop =>
      simp only [exec, initLoopCode]
      split <;> exact .done (.refl k)
  case initScan self left =>
      simp only [exec]
      split
      · exact .done (.refl k)
      · exact .done (initScanCode_same k r self _)
  case initTail self => exact .done (initTailCode_same k r self)
  case sys c => exact sysCode_acts k r c

end TpSo
