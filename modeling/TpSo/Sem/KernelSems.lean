import TpSo.Pipes.Closing

set_option autoImplicit false

/-! # The kernel's own semaphores

The exit semaphores of the processes and the three semaphores of each pipe. Only `createProcess` and
`open_pipe` make one. -/

namespace TpSo

/-- The semaphore is the `exit_sem` of a process. A process that is freed loses its own. -/
def ExitSem (k : Kernel) (s : Addr) : Prop := ∃ p, (k.proc p).exitSem = some s

/-- The semaphore is one of an open pipe. -/
def PipeSem (k : Kernel) (s : Addr) : Prop := ∃ id a, pipeOf k id = some a ∧ s ∈ (k.pipe a).sems

/-- The kernel made the semaphore for itself. -/
def KernelSem (k : Kernel) (s : Addr) : Prop := ExitSem k s ∨ PipeSem k s

/-- The instruction initialises the semaphore. -/
def Inits (k : Kernel) (r : Regs) (i : Instr) (s : Addr) : Prop :=
  ∃ n, .semInit s n ∈ (exec k r i).events

/-! ## Exit semaphores -/

/-- Every process keeps its exit semaphore. -/
def SameExitSems (k k' : Kernel) : Prop := ∀ p, (k'.proc p).exitSem = (k.proc p).exitSem

namespace SameExitSems

variable {k k' k'' : Kernel}

theorem refl (k : Kernel) : SameExitSems k k := fun _ => rfl

theorem trans (h : SameExitSems k k') (h' : SameExitSems k' k'') : SameExitSems k k'' :=
  fun p => (h' p).trans (h p)

theorem of_proc (h : k'.proc = k.proc) : SameExitSems k k' := fun p => by rw [h]

theorem of_outside (h : k'.outside = k.outside) : SameExitSems k k' :=
  fun p => (congrArg (fun k : Kernel => (k.proc p).exitSem) h :)

theorem modProc (k : Kernel) (p : Addr) {f : Process → Process}
    (hf : (f (k.proc p)).exitSem = (k.proc p).exitSem) : SameExitSems k (k.modProc p f) := by
  intro q
  by_cases h : q = p
  · subst h
    simp only [Kernel.modProc, Function.update_self, hf]
  · simp only [Kernel.modProc, Function.update_of_ne h]

theorem of_family (h : FamilyOnly k k') : SameExitSems k k' := fun p => by rw [h.proc p]

/-- Code that beyond the scheduler's data writes to one semaphore. -/
theorem of_modSem {s : Addr} {f : Sem → Sem} (h : k'.outside = (k.modSem s f).outside) :
    SameExitSems k k' := fun p => (congrArg (fun k : Kernel => (k.proc p).exitSem) h :)

theorem of_inits {s : Addr} (h : InitsSem s k k') : SameExitSems k k' := fun p => by rw [h.kernel]

theorem of_opens (h : OpensPipe k k') : SameExitSems k k' := fun p => by rw [h.kernel]

theorem of_sleeps (h : SleepsOnly k k') : SameExitSems k k' := by
  unfold SleepsOnly at h
  exact fun p => (congrArg (fun k : Kernel => (k.proc p).exitSem) h :)

end SameExitSems

/-- No process gets an exit semaphore. -/
def KeepsExitSems (k k' : Kernel) : Prop :=
  ∀ p s, (k'.proc p).exitSem = some s → (k.proc p).exitSem = some s

theorem SameExitSems.keeps {k k' : Kernel} (h : SameExitSems k k') : KeepsExitSems k k' :=
  fun p _ hs => (h p).symm.trans hs

theorem timerHandler_exitSems (k : Kernel) : SameExitSems k (timerHandler k) := by
  have hwake := SameExitSems.of_outside (wakeSleepers_outside (k.sleepingQueue.getD []) (nextTick k))
  rw [timerHandler_kernel]
  exact hwake

theorem exitFirstHalf_exitSems (k : Kernel) (p : Addr) : SameExitSems k (exitFirstHalf k p).2 := by
  rw [exitFirstHalf_eq, passForeground_eq]
  have hadopt : SameExitSems k (adoptOrphanChildren ((leaveReady k p).setState p .terminated) p) :=
    (SameExitSems.of_outside (leave_outside k p _)).trans
      (.of_family (adoptOrphanChildren_family _ p))
  exact hadopt

theorem freeArgvAndStack_exitSems (k : Kernel) (p : Addr) : SameExitSems k (freeArgvAndStack k p) := by
  have hfree : ∀ k1 : Kernel, k1.proc = k.proc → SameExitSems k
      ((freeBlock k1 (k1.proc p).stackBase).modProc p (fun q => { q with argv := none, stackBase := none })) := by
    intro k1 hk1
    rw [freeBlock_kernel]
    exact (SameExitSems.of_proc hk1).trans (.modProc _ p rfl)
  unfold freeArgvAndStack
  split
  · exact hfree k rfl
  · refine hfree _ ?_
    rw [freeBlocks_kernel]
    rfl

theorem freeExitSemAndProcess_exitSems (k : Kernel) (p : Addr) :
    KeepsExitSems k (freeExitSemAndProcess k p) := by
  intro q s hs
  by_cases hq : q = p
  · subst hq
    unfold freeExitSemAndProcess at hs
    simp [Kernel.memFree, Kernel.modProc] at hs
  · rwa [(freeExitSemAndProcess_frees k p).other q hq] at hs

theorem createRegisterCode_exitSems (k : Kernel) (r : Regs) (c : Creation) (attached : List Nat) :
    SameExitSems k (createRegisterCode k r c attached).k := by
  rw [createRegisterCode_k]
  exact fun p => by rw [(enterTree_enters k c).proc p]

theorem createMark_exitSems (k : Kernel) (p : Addr) (use : CreateUse) :
    SameExitSems k (createMark k p use) := by
  have hshell : SameExitSems k (k.modProc p Process.markShell) := .modProc k p rfl
  cases use with
  | syscall => exact .refl k
  | firstShell => exact hshell
  | respawn => exact hshell

theorem createDone_exitSems (k : Kernel) (r : Regs) (p : Addr) (use : CreateUse) :
    SameExitSems k (createDone k r p use).k := by
  have hready : SameExitSems k (schedulerAddReady k p) := .of_outside (schedulerAddReady_outside k p)
  cases use <;> exact hready

/-- `createProcess` gives the process it builds the semaphore it initialises. -/
theorem createProcess_exitSems (k : Kernel) (r : Regs) (args : CreateArgs) (use : CreateUse) {s : Addr}
    (hs : ExitSem (createProcessCode k r args use).k s) :
    ExitSem k s ∨ Inits k r (.createProcess args use) s := by
  obtain ⟨q, hq⟩ := hs
  unfold Inits
  simp only [exec]
  unfold createProcessCode at hq ⊢
  split at hq
  · exact .inl ⟨q, hq⟩
  · next h0 =>
    rw [if_neg h0]
    split at hq
    · exact .inl ⟨q, hq⟩
    · next hpid =>
      rw [if_neg hpid]
      dsimp only at hq ⊢
      rcases memAlloc_cases k .process with h | ⟨p, -, -, h⟩ <;> rw [h] at hq ⊢
      · exact .inl ⟨q, hq⟩
      · dsimp only at hq ⊢
        have hbuilt : ((buildProcess (k.grant p .process) p (allocatePid k) args).2.proc q).exitSem =
            some s := by
          split at hq <;> exact hq
        by_cases hqp : q = p
        · subst hqp
          refine .inr ⟨((buildProcess (k.grant q .process) q (allocatePid k) args).2.sem s).count, ?_⟩
          split <;> simp [hbuilt, initEvent]
        · have hb := buildProcess_builds (k.grant p .process) p (allocatePid k) args
          have hother := (hb.other q hqp).trans (Function.update_of_ne hqp _ _)
          rw [hother] at hbuilt
          exact .inl ⟨q, hbuilt⟩

theorem initScanCode_exitSems (k : Kernel) (r : Regs) (self : Addr) (left : Nat) :
    SameExitSems k (initScanCode k r self left).k := by
  have hpop : SameExitSems k (k.setChildren self (queuePop (k.proc self).children).2) :=
    .of_family (.setChildren k self _)
  unfold initScanCode
  dsimp only
  split
  · exact hpop
  · split
    · exact hpop
    · exact hpop.trans (.of_family (pushChild_family _ _ _))

theorem sysCode_exitSems (k : Kernel) (r : Regs) (c : Syscall) : SameExitSems k (sysCode k r c).k := by
  cases c
  all_goals first
    | exact .refl k
    | (simp only [sysCode]; repeat' split) <;> exact .refl k
    | skip
  case semOpen name count create =>
      simp only [sysCode]
      split
      · exact .refl k
      split
      · exact .refl k
      · split
        · exact .refl k
        · rcases memAlloc_cases k .userSemaphore with h | ⟨s, -, -, h⟩ <;> rw [h]
          · exact .refl k
          · have hgrant : SameExitSems k (k.grant s .userSemaphore) := .refl k
            exact hgrant.trans (.of_inits (semInit_inits _ s name count))
  case sleepTicks n => exact .of_sleeps (sleepTicks_sleeps k n)
  case processSetPriority pid n => exact .of_outside (schedulerSetProcessPriority_between k pid n).2
  case processBlock pid =>
      simp only [sysCode]
      split
      · exact .refl k
      · next p _ => split <;> exact .of_outside (processBlock_outside k p)
  case processUnblock pid =>
      simp only [sysCode]
      split
      · exact .refl k
      · next p _ => exact .of_outside (processUnblock_outside k p)
  case processWaitPid pid =>
      simp only [sysCode, processWaitPidCode]
      repeat' split
      all_goals first
        | exact .refl k
        | exact .of_family (.setChildren k _ _)
  case processGiveForeground pid =>
      simp only [sysCode, giveForegroundTo]
      repeat' split
      all_goals exact .refl k

/-- **Every instruction** but `createProcess`, and the one that frees a process, leaves every process
    its exit semaphore. -/
theorem exec_sameExitSems (k : Kernel) (r : Regs) {i : Instr} (hcreate : ∀ args use, i ≠ .createProcess args use)
    (hfree : ∀ p, i ≠ .processFreeRest p) : SameExitSems k (exec k r i).k := by
  cases i
  all_goals first
    | exact .refl k
    | (simp only [exec]; repeat' split) <;> first | exact .refl k | exact .modProc k _ rfl
    | skip
  case semWaitLocked s => exact .of_modSem (semWaitBody_outside k s)
  case semPostLocked s => exact .of_modSem (semPostBody_outside k s)
  case semDestroyLocked s => exact .of_modSem (semDestroyBody_outside k s)
  case openPipe => exact .of_opens (openPipeCode_opens k r)
  case processExit p => exact exitFirstHalf_exitSems k p
  case exitSemPost p =>
      simp only [exec]
      split
      · exact .refl k
      · next s _ => exact .of_modSem (semPostBody_outside k s)
  case createProcess args use => exact absurd rfl (hcreate args use)
  case createNamed c s name targets =>
      show SameExitSems k (createNamedCode k r c s name targets).k
      rw [createNamedCode_kernel]
      exact .refl k
  case createRegister c attached => exact createRegisterCode_exitSems k r c attached
  case createForeground c =>
      simp only [exec, createForeground]
      split <;> exact .refl k
  case createMark c => exact createMark_exitSems k c.process c.use
  case createDone c => exact createDone_exitSems k r c.process c.use
  case createFailed use => cases use <;> exact .refl k
  case processFreeMemory p => exact freeArgvAndStack_exitSems k p
  case processFreeRest p => exact absurd rfl (hfree p)
  case reapUnregister p =>
      simp only [exec]
      rw [processUnregister_kernel]
      exact .refl k
  case waitChildrenLoop parent terminated reaped =>
      simp only [exec]
      split
      · exact .refl k
      · exact .of_family (.setChildren k _ _)
  case initFirst =>
      simp only [exec, initFirstCode]
      repeat' split
      all_goals exact .refl k
  case initLoop =>
      simp only [exec, initLoopCode]
      split <;> exact .refl k
  case initScan self left =>
      simp only [exec]
      split
      · exact .refl k
      · exact initScanCode_exitSems k r self _
  case initTail self =>
      exact List.foldlRecOn levels queueForPriority (motive := SameExitSems k) (.refl k)
        fun k' h priority _ => h.trans (.of_outside (queueForPriority_same k' priority).outside)
  case sys c => exact sysCode_exitSems k r c

/-- **Every instruction** but `createProcess` makes no exit semaphore. -/
theorem exec_keepsExitSems (k : Kernel) (r : Regs) {i : Instr}
    (hcreate : ∀ args use, i ≠ .createProcess args use) : KeepsExitSems k (exec k r i).k := by
  by_cases hfree : ∃ p, i = .processFreeRest p
  · obtain ⟨p, rfl⟩ := hfree
    exact freeExitSemAndProcess_exitSems k p
  · exact (exec_sameExitSems k r hcreate fun p hp => hfree ⟨p, hp⟩).keeps

theorem exec_exitSem {k : Kernel} {r : Regs} {i : Instr} {s : Addr} (hs : ExitSem (exec k r i).k s) :
    ExitSem k s ∨ Inits k r i s ∧ ∃ args use, i = .createProcess args use := by
  by_cases hcreate : ∃ args use, i = .createProcess args use
  · obtain ⟨args, use, rfl⟩ := hcreate
    exact (createProcess_exitSems k r args use hs).imp_right fun h => ⟨h, args, use, rfl⟩
  · obtain ⟨p, hp⟩ := hs
    exact .inl ⟨p, exec_keepsExitSems k r (fun args use h => hcreate ⟨args, use, h⟩) p s hp⟩

/-! ## Semaphores of pipes -/

/-- No pipe gets other semaphores, and none is opened. -/
structure KeepsPipeSems (k k' : Kernel) : Prop where
  pipes : ∀ id a, pipeOf k' id = some a → pipeOf k id = some a
  sems : ∀ a, (k'.pipe a).sems = (k.pipe a).sems

namespace KeepsPipeSems

variable {k k' : Kernel}

theorem of_same (hpipe : k'.pipe = k.pipe) (hpipes : k'.pipes = k.pipes) : KeepsPipeSems k k' :=
  ⟨(SameLinks.of_same hpipe hpipes).pipes, fun a => by rw [hpipe]⟩

theorem of_objects (h : SameObjects k k') : KeepsPipeSems k k' := .of_same h.pipe h.pipes

/-- Code that beyond the scheduler's data writes to one semaphore. -/
theorem of_modSem {s : Addr} {f : Sem → Sem} (h : k'.outside = (k.modSem s f).outside) :
    KeepsPipeSems k k' := by
  have hsame := SameObjects.of_outside h
  exact .of_same (hsame.pipe.trans rfl) (hsame.pipes.trans rfl)

/-- A write to other fields of a pipe object. -/
theorem modPipe (k : Kernel) (p : Addr) {f : Pipe → Pipe} (hf : ∀ x, (f x).sems = x.sems) :
    KeepsPipeSems k (k.modPipe p f) := by
  refine ⟨fun _ _ h => h, fun a => ?_⟩
  by_cases h : a = p
  · subst h
    simp only [Kernel.modPipe, Function.update_self, hf]
  · simp only [Kernel.modPipe, Function.update_of_ne h]

end KeepsPipeSems

/-- **Every instruction** but `open_pipe` leaves the pipes their semaphores. -/
theorem exec_keepsPipeSems (k : Kernel) (r : Regs) {i : Instr} (hopen : i ≠ .openPipe) :
    KeepsPipeSems k (exec k r i).k := by
  by_cases hi : i.touchesObjects = false
  · exact .of_objects (exec_sameObjects k r hi)
  · cases i
    all_goals first
      | exact absurd rfl hi
      | exact absurd rfl hopen
      | exact .of_same rfl rfl
      | skip
    case semLock s =>
        simp only [exec]
        split <;> exact .of_same rfl rfl
    case semWaitLocked s => exact .of_modSem (semWaitBody_outside k s)
    case semPostLocked s => exact .of_modSem (semPostBody_outside k s)
    case semDestroyLocked s => exact .of_modSem (semDestroyBody_outside k s)
    case attachLocked p => exact .modPipe k p (f := Pipe.attach) fun _ => rfl
    case unattachFromPipe id pid =>
        simp only [exec]
        repeat' split
        all_goals exact .of_same rfl rfl
    case unattachLocked p => exact .modPipe k p (f := Pipe.unattach) fun _ => rfl
    case destroyPipeFree id p =>
        refine ⟨(exec_sameLinks k r (by simp) (by simp) hopen).pipes, fun _ => rfl⟩
    case readLocked p bytes done =>
        simp only [exec]
        repeat' split
        · exact .of_same rfl rfl
        · exact .modPipe k p Pipe.addReader_sems
        · exact .modPipe k p (f := Pipe.take) fun _ => rfl
    case readWoken p => exact .modPipe k p Pipe.dropReader_sems
    case writeLocked p bytes written =>
        simp only [exec]
        split
        · exact .modPipe k p Pipe.addWriter_sems
        · exact .modPipe k p (f := fun x => x.put (bytes.getD written 0)) fun _ => rfl
    case writeWoken p => exact .modPipe k p Pipe.dropWriter_sems
    case clearLocked p => exact .modPipe k p (f := Pipe.reset) fun _ => rfl
    case exitSemPost p =>
        simp only [exec]
        split
        · exact .of_same rfl rfl
        · next s _ => exact .of_modSem (semPostBody_outside k s)
    case createProcess args use =>
        obtain ⟨hpipe, hpipes⟩ := createProcessCode_pipes k r args use
        exact .of_same hpipe hpipes
    case sys c =>
        cases c <;> try exact absurd rfl hi
        obtain ⟨hpipe, hpipes⟩ := semOpen_pipes k r _ _ _
        exact .of_same hpipe hpipes

/-- **Every instruction** but `open_pipe` makes no semaphore of a pipe. -/
theorem exec_pipeSem {k : Kernel} {r : Regs} {i : Instr} {s : Addr} (hs : PipeSem (exec k r i).k s) :
    PipeSem k s ∨ Inits k r i s ∧ i = .openPipe := by
  obtain ⟨id, a, ha, hmem⟩ := hs
  by_cases hopen : i = .openPipe
  · subst hopen
    rcases openPipe_cases k r with h | ⟨p, h⟩
    · refine .inl ⟨id, a, (KeepsPipeSems.of_same h.pipe h.pipes).pipes id a ha, ?_⟩
      rwa [show (exec k r .openPipe).k.pipe = k.pipe from h.pipe] at hmem
    · by_cases hap : a = p
      · subst hap
        exact .inr ⟨h.sems s hmem, rfl⟩
      · refine .inl ⟨id, a, ?_, by rwa [← h.pipe a hap]⟩
        refine ((openPipe_links k r).1 id a ha).resolve_left fun hid => hap ?_
        subst hid
        have hnew : pipeOf (openPipeCode k r).k k.nextPipeId = some p := by
          simp [pipeOf, h.pipes, h.room]
        exact Option.some.inj (ha.symm.trans hnew)
  · have hkeeps := exec_keepsPipeSems k r hopen
    exact .inl ⟨id, a, hkeeps.pipes id a ha, hkeeps.sems a ▸ hmem⟩

/-! ## Pending posts -/

/-- The semaphores on which the instruction, or the code it expands to, may `sem_post`, those left
    aside that `exec` reads from the pipe table or from a process only when it gets there. -/
def Instr.mayPost (k : Kernel) : Instr → List Addr
  | .semPost s | .semPostLocked s | .semPostMany s _ | .semReadValue s _ => [s]
  | .sys (.semPost s) | .sys (.semSetValue s _) => [s]
  | .closeLocked _ a | .closeReaders _ a _ | .closeWriters _ a _ _ | .readLoop a _ _
  | .readLocked a _ _ | .writeLoop a _ _ | .writeLocked a _ _ | .clearLocked a
  | .clearCount a => (k.pipe a).sems
  | _ => []

/-- Either the instruction says itself where it may post, or it names a pipe object. -/
theorem mayPost_cases (i : Instr) :
    (∀ k k', i.mayPost k' = i.mayPost k) ∨ ∃ a, ∀ k, i.mayPost k = (k.pipe a).sems := by
  cases i
  case sys c => exact .inl fun _ _ => by cases c <;> rfl
  all_goals first
    | exact .inl fun _ _ => rfl
    | exact .inr ⟨_, fun _ => rfl⟩

theorem mayPost_keeps {k k' : Kernel} (h : KeepsPipeSems k k') (i : Instr) :
    i.mayPost k' = i.mayPost k := by
  rcases mayPost_cases i with hi | ⟨a, hi⟩
  · exact hi k k'
  · rw [hi, hi, h.sems]

/-- The code posts only on semaphores of the pipe at `a`. -/
def PostsAt (k : Kernel) (a : Addr) (code : List Instr) : Prop :=
  ∀ j ∈ code, ∀ s ∈ j.mayPost k, s ∈ (k.pipe a).sems

@[simp] theorem postsAt_nil (k : Kernel) (a : Addr) : PostsAt k a [] := fun _ h => nomatch h

@[simp] theorem postsAt_cons (k : Kernel) (a : Addr) (j : Instr) (code : List Instr) :
    PostsAt k a (j :: code) ↔ (∀ s ∈ j.mayPost k, s ∈ (k.pipe a).sems) ∧ PostsAt k a code :=
  List.forall_mem_cons

theorem postsAt_replicate {k : Kernel} {a : Addr} {j : Instr} (n : Nat)
    (h : ∀ s ∈ j.mayPost k, s ∈ (k.pipe a).sems) : PostsAt k a (List.replicate n j) := by
  intro i hi
  rwa [(List.mem_replicate.mp hi).2]

theorem postsAt_closeTail (k : Kernel) (id : Nat) (a : Addr) (attached readers writers : Nat) :
    PostsAt k a (closeTail k id a attached readers writers) := by
  have happ : ∀ code code', PostsAt k a code → PostsAt k a code' → PostsAt k a (code ++ code') :=
    fun _ _ h h' j hj => (List.mem_append.mp hj).elim (h j) (h' j)
  unfold closeTail
  refine happ _ _ (happ _ _ (happ _ _ ?_ (postsAt_replicate _ ?_)) (postsAt_replicate _ ?_)) ?_ <;>
    simp [Instr.mayPost, Pipe.sems]

/-- **The code an instruction expands to** posts where the instruction may, or at a pipe of the
    table. -/
theorem exec_mayPost (k : Kernel) (r : Regs) (i : Instr) {j : Instr} (hj : j ∈ (exec k r i).code)
    {s : Addr} (hs : s ∈ j.mayPost k) : s ∈ i.mayPost k ∨ PipeSem k s := by
  have hnone : (exec k r i).code.all (fun j => (j.mayPost k).isEmpty) = true →
      s ∈ i.mayPost k ∨ PipeSem k s := by
    intro h
    rw [List.isEmpty_iff.mp (List.all_eq_true.mp h j hj)] at hs
    cases hs
  -- a pipe object the instruction already names, or one it has just found in the table
  have hnamed : ∀ a : Addr, PostsAt k a (exec k r i).code → i.mayPost k = (k.pipe a).sems →
      s ∈ i.mayPost k ∨ PipeSem k s := fun a h ha => .inl (ha ▸ h j hj s hs)
  have hfound : ∀ id : Nat, (∀ a, pipeOf k id = some a → PostsAt k a (exec k r i).code) →
      (pipeOf k id = none → (exec k r i).code = []) → s ∈ i.mayPost k ∨ PipeSem k s := by
    intro id h hn
    cases ha : pipeOf k id with
    | none =>
        rw [hn ha] at hj
        cases hj
    | some a => exact .inr ⟨id, a, ha, h a ha j hj s hs⟩
  cases i
  all_goals first
    | exact hnone rfl
    | (refine hnone ?_
       simp only [exec, openPipeCode, createNamedCode, initFirstCode, initLoopCode, initScanCode, initTailCode]
       repeat' split) <;> rfl
    | skip
  case semPost t =>
      simp only [exec, List.mem_cons, List.not_mem_nil, or_false] at hj
      rcases hj with rfl | rfl
      · cases hs
      · exact .inl hs
  case semPostMany t n =>
      simp only [exec] at hj
      split at hj
      · cases hj
      · simp only [List.mem_cons, List.not_mem_nil, or_false] at hj
        rcases hj with rfl | rfl <;> exact .inl hs
  case semReadValue t value =>
      simp only [exec] at hj
      split at hj
      · cases List.mem_singleton.mp hj
        exact .inl hs
      · split at hj
        · simp only [List.mem_cons, List.not_mem_nil, or_false] at hj
          rcases hj with rfl | rfl <;> cases hs
        · cases hj
  case attachToPipe id =>
      refine hfound id (fun a ha => ?_) fun ha => ?_ <;> simp [exec, ha, Instr.mayPost, Pipe.sems]
  case unattachFromPipe id pid =>
      refine hfound id (fun a ha => ?_) fun ha => by simp [exec, ha]
      simp only [exec, ha]
      split <;> simp [Instr.mayPost, Pipe.sems, Kernel.modSem, semRemoveProcess]
  case closePipe id =>
      refine hfound id (fun a ha => ?_) fun ha => ?_ <;> simp [exec, ha, Instr.mayPost, Pipe.sems]
  case closeLocked id a =>
      refine hnamed a ?_ rfl
      simp only [exec]
      split
      · simp
      · split
        · simp [Instr.mayPost]
        · exact postsAt_closeTail k id a _ 0 0
  case closeReaders id a attached => exact hnamed a (by simp [exec, Instr.mayPost]) rfl
  case closeWriters id a attached readers => exact hnamed a (postsAt_closeTail k id a attached readers _) rfl
  case readPipe id bytes =>
      by_cases hb : bytes = 0
      · simp [exec, hb] at hj
      · refine hfound id (fun a ha => ?_) fun ha => ?_ <;> simp [exec, hb, ha, Instr.mayPost, Pipe.sems]
  case readLoop a bytes done =>
      refine hnamed a ?_ rfl
      simp only [exec]
      split <;> simp [Instr.mayPost]
  case readLocked a bytes done =>
      refine hnamed a ?_ rfl
      simp only [exec]
      (repeat' split) <;> simp [Instr.mayPost, Pipe.sems]
  case writePipe id bytes =>
      by_cases hb : bytes.length = 0
      · simp [exec, hb] at hj
      · refine hfound id (fun a ha => ?_) fun ha => ?_ <;> simp [exec, hb, ha, Instr.mayPost, Pipe.sems]
  case writeLoop a bytes written =>
      refine hnamed a ?_ rfl
      simp only [exec]
      split <;> simp [Instr.mayPost]
  case writeLocked a bytes written =>
      refine hnamed a ?_ rfl
      simp only [exec]
      split <;> simp [Instr.mayPost, Pipe.sems]
  case clearPipe id =>
      refine hfound id (fun a ha => ?_) fun ha => ?_ <;> simp [exec, ha, Instr.mayPost, Pipe.sems]
  case clearLocked a => exact hnamed a (by simp [exec, Instr.mayPost]) rfl
  case clearCount a =>
      refine hnamed a ?_ rfl
      refine (postsAt_cons ..).mpr ⟨by simp [Instr.mayPost, Pipe.sems], postsAt_replicate _ ?_⟩
      simp [Instr.mayPost, Pipe.sems]
  case fdAttach cur changes rest attached =>
      refine hnone ?_
      simp only [exec]
      split
      · refine all_append ?_ rfl
        rw [List.all_flatMap]
        exact List.all_eq_true.mpr fun _ _ => rfl
      · rfl
  case fdAttached cur changes change rest attached =>
      refine hnone ?_
      simp only [exec]
      split
      · rfl
      · exact all_append (all_map (fun _ => rfl) _) rfl
  case createAttached c target targets attached =>
      refine hnone ?_
      simp only [exec]
      repeat' split
      · rfl
      · exact all_append (all_map (fun _ => rfl) _) rfl
      · rfl
  case createProcess args use =>
      refine hnone ?_
      simp only [exec, createProcessCode]
      repeat' split
      all_goals first | rfl | exact all_onSem _ fun _ => rfl
  case createRegister c attached =>
      refine hnone ?_
      simp only [exec, createRegisterCode]
      split
      · exact all_append (all_map (fun _ => rfl) _) rfl
      · rfl
  case createDone c =>
      refine hnone ?_
      rw [exec, createDone_code]
      rfl
  case createFailed use =>
      refine hnone ?_
      cases use <;> rfl
  case sys c =>
      cases c
      case semPost t =>
          simp only [exec, sysCode] at hj
          split at hj
          · cases hj
          · cases List.mem_singleton.mp hj
            exact .inl hs
      case semSetValue t value =>
          simp only [exec, sysCode] at hj
          split at hj
          · cases hj
          · simp only [List.mem_cons, List.not_mem_nil, or_false] at hj
            rcases hj with rfl | rfl | rfl
            · cases hs
            · exact .inl hs
            · cases hs
      all_goals
        refine hnone ?_
        simp only [exec, sysCode, processWaitPidCode]
        (repeat' split) <;> rfl
  case exitSemLock p => exact hnone (all_onSem _ fun _ => rfl)
  case processFreeMemory p => exact hnone (all_append (all_onSem _ fun _ => rfl) rfl)
  case reapChildProcess p => exact hnone (all_append (all_onSem _ fun _ => rfl) rfl)

end TpSo
