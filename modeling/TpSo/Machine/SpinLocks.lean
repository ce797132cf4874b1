import TpSo.Machine.Progress

set_option autoImplicit false

/-! # Spin locks

`semLock` turns round until the lock is free. There is one processor: with interrupts disabled nobody else
can free the lock meanwhile. The instruction that gives a lock back is the next one on the stack that has
taken it, so that no `semLock` finds its lock taken, as long as no interrupt comes in between. -/

namespace TpSo

/-! ## Two globals -/

/-- The same `next_pipe_id` and `registry_lock`. -/
structure SameGlobals (k k' : Kernel) : Prop where
  nextPipeId : k'.nextPipeId = k.nextPipeId
  registryLock : k'.registryLock = k.registryLock

namespace SameGlobals

variable {k k' k'' : Kernel}

theorem refl (k : Kernel) : SameGlobals k k := ⟨rfl, rfl⟩

theorem trans (h : SameGlobals k k') (h' : SameGlobals k' k'') : SameGlobals k k'' :=
  ⟨h'.nextPipeId.trans h.nextPipeId, h'.registryLock.trans h.registryLock⟩

theorem of_outer (h : k'.outer = k.outer) : SameGlobals k k' :=
  ⟨(congrArg Kernel.nextPipeId h :), (congrArg Kernel.registryLock h :)⟩

theorem of_outside (h : k'.outside = k.outside) : SameGlobals k k' := .of_outer (outer_of_outside h)

/-- Code that beyond the scheduler's data writes to one semaphore. -/
theorem of_modSem {s : Addr} {f : Sem → Sem} (h : k'.outside = (k.modSem s f).outside) :
    SameGlobals k k' := ⟨(congrArg Kernel.nextPipeId h :), (congrArg Kernel.registryLock h :)⟩

theorem of_family (h : FamilyOnly k k') : SameGlobals k k' := by
  constructor <;> rw [h.kernel]

theorem of_frees {p : Addr} (h : FreesProcess p k k') : SameGlobals k k' := by
  constructor <;> rw [h.kernel]

end SameGlobals

theorem createProcessCode_globals (k : Kernel) (r : Regs) (args : CreateArgs) (use : CreateUse) :
    SameGlobals k (createProcessCode k r args use).k := by
  unfold createProcessCode
  split
  · exact ⟨rfl, rfl⟩
  · split
    · exact ⟨rfl, rfl⟩
    · dsimp only
      rcases memAlloc_cases k .process with h | ⟨p, -, -, h⟩ <;> rw [h]
      · exact ⟨rfl, rfl⟩
      · have hb := buildProcess_builds (k.grant p .process) p (allocatePid k) args
        dsimp only
        split <;>
        · constructor <;>
          · rw [hb.kernel]
            rfl

theorem createRegisterCode_globals (k : Kernel) (r : Regs) (c : Creation) (attached : List Nat) :
    SameGlobals k (createRegisterCode k r c attached).k := by
  rw [createRegisterCode_k]
  constructor <;> rw [(enterTree_enters k c).kernel]

theorem createMark_globals (k : Kernel) (p : Addr) (use : CreateUse) :
    SameGlobals k (createMark k p use) := by
  cases use <;> exact ⟨rfl, rfl⟩

theorem createDone_globals (k : Kernel) (r : Regs) (p : Addr) (use : CreateUse) :
    SameGlobals k (createDone k r p use).k := by
  have hready : SameGlobals k (schedulerAddReady k p) := .of_outside (schedulerAddReady_outside k p)
  cases use with
  | syscall => exact hready
  | firstShell => exact hready
  | respawn => exact hready.trans ⟨rfl, rfl⟩

theorem sysCode_globals (k : Kernel) (r : Regs) (c : Syscall) : SameGlobals k (sysCode k r c).k := by
  cases c
  all_goals first
    | exact ⟨rfl, rfl⟩
    | (simp only [sysCode]; repeat' split) <;> exact ⟨rfl, rfl⟩
    | skip
  case semOpen name count create =>
      simp only [sysCode]
      split
      · exact ⟨rfl, rfl⟩
      split
      · exact ⟨rfl, rfl⟩
      · split
        · exact ⟨rfl, rfl⟩
        · rcases memAlloc_cases k .userSemaphore with h | ⟨s, -, -, h⟩ <;> rw [h]
          · exact ⟨rfl, rfl⟩
          · constructor <;>
            · dsimp only
              rw [(semInit_inits _ s name count).kernel]
              rfl
  case sleepTicks n =>
      have hs := sleepTicks_sleeps k n
      unfold SleepsOnly at hs
      exact ⟨(congrArg Kernel.nextPipeId hs :), (congrArg Kernel.registryLock hs :)⟩
  case processSetPriority pid n => exact .of_outside (schedulerSetProcessPriority_between k pid n).2
  case processBlock pid =>
      simp only [sysCode]
      split
      · exact ⟨rfl, rfl⟩
      · next p _ => split <;> exact .of_outside (processBlock_outside k p)
  case processUnblock pid =>
      simp only [sysCode]
      split
      · exact ⟨rfl, rfl⟩
      · next p _ => exact .of_outside (processUnblock_outside k p)
  case processWaitPid pid =>
      simp only [sysCode, processWaitPidCode]
      repeat' split
      all_goals exact ⟨rfl, rfl⟩
  case processGiveForeground pid =>
      simp only [sysCode, giveForegroundTo]
      repeat' split
      all_goals exact ⟨rfl, rfl⟩

/-- Does the instruction write to one of the two? -/
def Instr.touchesGlobals : Instr → Bool
  | .openPipe | .registryLock | .semUnregister _ | .createNamed _ _ _ _ => true
  | _ => false

/-- **All other instructions** leave them as they are. -/
theorem exec_sameGlobals (k : Kernel) (r : Regs) {i : Instr} (hi : i.touchesGlobals = false) :
    SameGlobals k (exec k r i).k := by
  cases i
  all_goals first
    | cases hi; done
    | exact ⟨rfl, rfl⟩
    | (simp only [exec]; repeat' split) <;> exact ⟨rfl, rfl⟩
    | skip
  case semWaitLocked s => exact .of_modSem (semWaitBody_outside k s)
  case semPostLocked s => exact .of_modSem (semPostBody_outside k s)
  case semDestroyLocked s => exact .of_modSem (semDestroyBody_outside k s)
  case processExit p => exact .of_outer (exitFirstHalf_outer k p)
  case exitSemPost p =>
      simp only [exec]
      split
      · exact ⟨rfl, rfl⟩
      · next s _ => exact .of_modSem (semPostBody_outside k s)
  case createProcess args use => exact createProcessCode_globals k r args use
  case createRegister c attached => exact createRegisterCode_globals k r c attached
  case createForeground c =>
      simp only [exec, createForeground]
      split <;> exact ⟨rfl, rfl⟩
  case createMark c => exact createMark_globals k c.process c.use
  case createDone c => exact createDone_globals k r c.process c.use
  case createFailed use => cases use <;> exact ⟨rfl, rfl⟩
  case processFreeMemory p => exact .of_frees (freeArgvAndStack_frees k p)
  case processFreeRest p => exact .of_frees (freeExitSemAndProcess_frees k p)
  case reapUnregister p =>
      simp only [exec]
      rw [processUnregister_kernel]
      exact ⟨rfl, rfl⟩
  case initFirst =>
      simp only [exec, initFirstCode]
      repeat' split
      all_goals exact ⟨rfl, rfl⟩
  case initLoop =>
      simp only [exec, initLoopCode]
      split <;> exact ⟨rfl, rfl⟩
  case initScan self left =>
      have hpop : SameGlobals k (k.setChildren self (queuePop (k.proc self).children).2) := ⟨rfl, rfl⟩
      simp only [exec, initScanCode]
      split
      · exact ⟨rfl, rfl⟩
      · split
        · exact hpop
        · split
          · exact hpop
          · exact hpop.trans (.of_family (pushChild_family _ _ _))
  case initTail self =>
      exact List.foldlRecOn levels queueForPriority (motive := SameGlobals k) (.refl k)
        fun k' h priority _ => h.trans (.of_outside (queueForPriority_same k' priority).outside)
  case sys c => exact sysCode_globals k r c

/-- **Every step** that executes nothing but an `int 0x20`. -/
theorem Machine.step_globals {m m' : Machine} {a : Action} (hs : m.step a = some m')
    (ha : ∀ i, m.Executes a i → i = .int20) : SameGlobals m.k m'.k := by
  have hswitch : ∀ k rsp, SameGlobals k (scheduleTick k rsp).2 := fun k rsp =>
    .of_outside (scheduleTick_outside k rsp)
  cases a with
  | exec =>
      obtain ⟨i, hn, -, rfl⟩ := step_exec hs
      cases ha i ⟨rfl, hn⟩
      exact hswitch _ _
  | tick =>
      obtain ⟨-, rfl⟩ := step_tick hs
      have hwake := SameGlobals.of_outside (wakeSleepers_outside (m.k.sleepingQueue.getD []) (nextTick m.k))
      have htimer : SameGlobals m.k (timerHandler m.k) := by
        rw [timerHandler_kernel]
        exact ⟨hwake.nextPipeId, hwake.registryLock⟩
      exact htimer.trans (hswitch _ _)
  | syscall c =>
      obtain ⟨-, -, -, rfl⟩ := step_syscall hs
      exact .refl _
  | ret =>
      obtain ⟨-, -, rfl⟩ := step_ret hs
      exact .refl _
  | exception =>
      obtain ⟨-, -, rfl⟩ := step_exception hs
      exact .refl _
  | key e =>
      obtain ⟨-, rfl⟩ := step_key hs
      exact .refl _

/-! ## Locks -/

/-- The locks that `semLock` takes: that of the registry, and one in each semaphore. -/
inductive SpinLock
  | registry
  | sem (s : Addr)

/-- Is it taken? -/
def SpinLock.taken (k : Kernel) : SpinLock → Bool
  | .registry => k.registryLock
  | .sem s => (k.sem s).lock

/-- The lock that the instruction takes. -/
def Instr.takes : Instr → Option SpinLock
  | .registryLock => some .registry
  | .semLock s => some (.sem s)
  | _ => none

/-- The lock that the instruction gives back, where it does not have to look for it. -/
def Instr.unlocks : Instr → Option SpinLock
  | .semUnregister _ | .createNamed _ _ _ _ => some .registry
  | .semWaitLocked s | .semPostLocked s | .semDestroyLocked s | .semReadValue s _
  | .semStoreValue s _ => some (.sem s)
  | _ => none

/-- The lock that the instruction gives back in `k`. -/
def Instr.unlocksIn (k : Kernel) : Instr → Option SpinLock
  | .closeReaders _ p _ => some (.sem (k.pipe p).canRead)
  | .closeWriters _ p _ _ | .clearCount p => some (.sem (k.pipe p).canWrite)
  | .exitSemPost p => (k.proc p).exitSem.map .sem
  | i => i.unlocks

theorem Instr.unlocksIn_of_unlocks {i : Instr} {l : SpinLock} (h : i.unlocks = some l) (k : Kernel) :
    i.unlocksIn k = some l := by
  cases i <;> first | exact h | cases h

/-- The processor turns round at a lock that is taken. -/
def Machine.Spins (m : Machine) : Prop :=
  ∃ i, m.next = some i ∧ (i = .spin ∨ ∃ l, i.takes = some l ∧ l.taken m.k = true)

/-- No interrupt comes where a lock is taken or about to be. -/
def Machine.LeavesLocks (m : Machine) (a : Action) : Prop :=
  a.interrupts = true → ∀ i, m.next = some i → i.takes = none ∧ i.unlocksIn m.k = none

instance (m : Machine) (a : Action) : Decidable (m.LeavesLocks a) :=
  decidable_of_iff
    (a.interrupts = true → m.next.all (fun i => i.takes.isNone && (i.unlocksIn m.k).isNone) = true)
    (by cases hn : m.next <;> simp [Machine.LeavesLocks, hn])

/-! ## What one instruction does to them -/

/-- No lock of a semaphore is taken that was free. -/
def TakesNone (k k' : Kernel) : Prop := ∀ s, (k'.sem s).lock = true → (k.sem s).lock = true

namespace TakesNone

variable {k k' k'' : Kernel}

theorem of_sem (h : k'.sem = k.sem) : TakesNone k k' := fun s hs => by rwa [h] at hs

theorem trans (h : TakesNone k k') (h' : TakesNone k' k'') : TakesNone k k'' := fun s hs => h s (h' s hs)

/-- A write to one semaphore that does not take its lock. -/
theorem modSem {s : Addr} {f : Sem → Sem} (hsem : k'.sem = (k.modSem s f).sem)
    (hf : (f (k.sem s)).lock = true → (k.sem s).lock = true) : TakesNone k k' := by
  intro t ht
  rw [hsem] at ht
  simp only [Kernel.modSem, Function.update_apply] at ht
  split at ht
  · next hts =>
    subst hts
    exact hf ht
  · exact ht

theorem semInitFields (k : Kernel) (s : Addr) (name : Name) (count : Nat) :
    TakesNone k (semInitFields k s name count).2 := by
  have hsem : (ensureRegistry k).sem = k.sem := by
    unfold ensureRegistry
    split <;> rfl
  unfold TpSo.semInitFields
  dsimp only
  split
  · refine (of_sem hsem).trans (.modSem rfl ?_)
    simp [Sem.start]
  · exact (of_sem hsem).trans (.modSem (f := fun x => { x with name := none }) rfl id)

theorem semInit (k : Kernel) (s : Addr) (name : Name) (count : Nat) :
    TakesNone k (semInit k s name count) := by
  have hfields := TakesNone.semInitFields k s name count
  unfold TpSo.semInit
  dsimp only
  split
  · exact hfields.trans (of_sem (registerSem_sem _ s name))
  · exact hfields

/-- Getting memory for a semaphore, and its `sem_init`. -/
theorem grantInit (h : TakesNone k k') (s : Addr) (b : Block) (name : Name) (count : Nat) :
    TakesNone k (TpSo.semInit (k'.grant s b) s name count) :=
  h.trans (.semInit (k'.grant s b) s name count)

theorem openPipeCode (k : Kernel) (r : Regs) : TakesNone k (openPipeCode k r).k := by
  unfold TpSo.openPipeCode
  dsimp only
  split
  · exact .of_sem rfl
  rcases memAlloc_cases k .pipe with h | ⟨a, -, -, h⟩ <;> rw [h] <;> dsimp only
  · exact .of_sem rfl
  have h1 : TakesNone k (k.grant a .pipe) := .of_sem rfl
  rcases memAlloc_cases (k.grant a .pipe) .semaphore with h | ⟨s, -, -, h⟩ <;> rw [h] <;> dsimp only
  · exact .of_sem rfl
  have h2 := h1.grantInit s .semaphore (semName k.nextPipeId 'R') 0
  split
  · exact .of_sem rfl
  generalize TpSo.semInit ((k.grant a .pipe).grant s .semaphore) s (semName k.nextPipeId 'R') 0 = k2 at h2 ⊢
  rcases memAlloc_cases k2 .semaphore with h | ⟨t, -, -, h⟩ <;> rw [h] <;> dsimp only
  · exact h2
  have h3 := h2.grantInit t .semaphore (semName k.nextPipeId 'W') 0
  split
  · exact .of_sem rfl
  generalize TpSo.semInit (k2.grant t .semaphore) t (semName k.nextPipeId 'W') 0 = k3 at h3 ⊢
  rcases memAlloc_cases k3 .semaphore with h | ⟨u, -, -, h⟩ <;> rw [h] <;> dsimp only
  · exact h3
  split
  · exact .of_sem rfl
  · exact h3.grantInit u .semaphore (semName k.nextPipeId 'M') 1

theorem createProcessCode (k : Kernel) (r : Regs) (args : CreateArgs) (use : CreateUse) :
    TakesNone k (createProcessCode k r args use).k := by
  have hargv : ∀ (k : Kernel) p n, (allocArgv k p n).2.sem = k.sem := by
    intro k p n
    unfold allocArgv
    rcases memAlloc_cases k .bytes with h | ⟨a, -, -, h⟩ <;> rw [h] <;> dsimp only
    · rfl
    · rw [allocArgs_kernel]
      rfl
  have hstack : ∀ (k : Kernel) p, (allocStack k p).2.sem = k.sem := by
    intro k p
    unfold allocStack
    rcases memAlloc_cases k .bytes with h | ⟨a, -, -, h⟩ <;> rw [h] <;> rfl
  have hexit : ∀ (k : Kernel) p pid, TakesNone k (allocExitSem k p pid).2 := by
    intro k p pid
    unfold allocExitSem
    rcases memAlloc_cases k .semaphore with h | ⟨s, -, -, h⟩ <;> rw [h] <;> dsimp only
    · exact .of_sem rfl
    · exact .semInitFields ((k.grant s .semaphore).modProc p (Process.setExitSem s)) s (exitSemName pid) 0
  have hbuild : ∀ (k : Kernel) p pid, TakesNone k (buildProcess k p pid args).2 := by
    intro k p pid
    unfold buildProcess
    dsimp only
    split
    · exact .of_sem rfl
    · split
      · exact .of_sem (hargv _ p _)
      · split
        · exact .of_sem ((hstack _ p).trans (hargv _ p _))
        · refine TakesNone.trans ?_ (hexit _ p pid)
          exact .of_sem ((hstack _ p).trans (hargv _ p _))
  unfold TpSo.createProcessCode
  split
  · exact .of_sem rfl
  · split
    · exact .of_sem rfl
    · dsimp only
      rcases memAlloc_cases k .process with h | ⟨p, -, -, h⟩ <;> rw [h] <;> dsimp only
      · exact .of_sem rfl
      · split <;> exact hbuild (k.grant p .process) p (allocatePid k)

end TakesNone

/-- A write that gives the lock of one semaphore back. -/
theorem unlocked_of_modSem {k k' : Kernel} {t : Addr} {f : Sem → Sem} (hsem : k'.sem = (k.modSem t f).sem)
    (hf : (f (k.sem t)).lock = false) {s : Addr} (hs : (k'.sem s).lock = true) :
    (k.sem s).lock = true ∧ t ≠ s := by
  rw [hsem] at hs
  simp only [Kernel.modSem, Function.update_apply] at hs
  split at hs
  · rw [hf] at hs
    cases hs
  · next hst => exact ⟨hs, Ne.symm hst⟩

theorem waitedSem_lock (k : Kernel) (s : Addr) : (waitedSem k s).lock = false := by
  unfold waitedSem
  repeat' split
  all_goals rfl

theorem postedSem_lock (k : Kernel) (s : Addr) : (postedSem k s).lock = false := by
  unfold postedSem
  split <;> rfl

/-- The locks of semaphores: only `semLock` takes one. -/
theorem exec_semTaken (k : Kernel) (r : Regs) {i : Instr} {s : Addr} (h : ((exec k r i).k.sem s).lock = true)
    (hi : i ≠ .semLock s) : (k.sem s).lock = true ∧ i.unlocksIn k ≠ some (.sem s) := by
  by_cases htouch : i.touchesObjects = false
  · rw [(exec_sameObjects k r htouch).sem] at h
    refine ⟨h, ?_⟩
    cases i <;> first | (simp [Instr.unlocksIn, Instr.unlocks]; done) | cases htouch
  have hquiet : TakesNone k (exec k r i).k → i.unlocksIn k = none →
      (k.sem s).lock = true ∧ i.unlocksIn k ≠ some (.sem s) := by
    intro htakes hnone
    exact ⟨htakes s h, by simp [hnone]⟩
  have hunlock : ∀ {t f}, (exec k r i).k.sem = (k.modSem t f).sem → (f (k.sem t)).lock = false →
      i.unlocksIn k = some (.sem t) → (k.sem s).lock = true ∧ i.unlocksIn k ≠ some (.sem s) := by
    intro t f hsem hf ht
    obtain ⟨hs, hne⟩ := unlocked_of_modSem hsem hf h
    exact ⟨hs, by simpa [ht] using hne⟩
  cases i
  all_goals first
    | exact absurd rfl htouch
    | exact hquiet (.of_sem rfl) rfl
    | skip
  case semLock t =>
      have hne : s ≠ t := by
        rintro rfl
        exact hi rfl
      refine ⟨?_, by simp [Instr.unlocksIn, Instr.unlocks]⟩
      simp only [exec] at h
      split at h
      · exact h
      · rwa [show (k.modSem t fun x => { x with lock := true }).sem s = k.sem s from
          Function.update_of_ne hne ..] at h
  case semWaitLocked t =>
      exact hunlock (sem_of_outside (semWaitBody_outside k t)) (waitedSem_lock k t) rfl
  case semPostLocked t =>
      exact hunlock (sem_of_outside (semPostBody_outside k t)) (postedSem_lock k t) rfl
  case semDestroyLocked t => exact hunlock (sem_of_outside (semDestroyBody_outside k t)) rfl rfl
  case semReadValue t value => exact hunlock (t := t) (f := fun x => { x with lock := false }) rfl rfl rfl
  case semStoreValue t value =>
      exact hunlock (t := t) (f := fun x => { x with count := value, lock := false }) rfl rfl rfl
  case unattachFromPipe id pid =>
      refine hquiet ?_ rfl
      simp only [exec]
      split
      · exact .of_sem rfl
      · split
        · exact .of_sem rfl
        · next pipe _ _ =>
          have hremove : ∀ (k : Kernel) t, TakesNone k (semRemoveProcess k t pid) := fun k t =>
            .modSem (f := fun x => { x with waitingProcesses := (queueRemove x.waitingProcesses pid).2 }) rfl
              fun hlock => hlock
          exact (hremove k _).trans (hremove _ _)
  case closeReaders id p attached =>
      exact hunlock (t := (k.pipe p).canRead) (f := fun x => { x with lock := false }) rfl rfl rfl
  case closeWriters id p attached readers =>
      exact hunlock (t := (k.pipe p).canWrite) (f := fun x => { x with lock := false }) rfl rfl rfl
  case openPipe => exact hquiet (.openPipeCode k r) rfl
  case readLocked p bytes done =>
      refine hquiet ?_ rfl
      simp only [exec]
      repeat' split
      all_goals exact .of_sem rfl
  case writeLocked p bytes written =>
      refine hquiet ?_ rfl
      simp only [exec]
      split <;> exact .of_sem rfl
  case clearCount p =>
      exact hunlock (t := (k.pipe p).canWrite) (f := fun x => { x with lock := false }) rfl rfl rfl
  case exitSemPost p =>
      simp only [exec] at h hunlock
      cases hexit : (k.proc p).exitSem with
      | none =>
          rw [hexit] at h
          exact ⟨h, by simp [Instr.unlocksIn, hexit]⟩
      | some t =>
          rw [hexit] at hunlock
          exact hunlock (sem_of_outside (semPostBody_outside k t)) (postedSem_lock k t)
            (by simp [Instr.unlocksIn, hexit])
  case createProcess args use => exact hquiet (.createProcessCode k r args use) rfl
  case sys c =>
      cases c <;> try exact absurd rfl htouch
      case semOpen name count create =>
          refine hquiet ?_ rfl
          simp only [exec, sysCode]
          split
          · exact .of_sem rfl
          split
          · exact .of_sem rfl
          · split
            · exact .of_sem rfl
            · rcases memAlloc_cases k .userSemaphore with h | ⟨t, -, -, h⟩ <;> rw [h] <;> dsimp only
              · exact .of_sem rfl
              · exact .semInit (k.grant t .userSemaphore) t name count

/-- **A lock that is taken after an instruction** has been taken by it, or was taken before and is not the one
    that it gives back. -/
theorem exec_taken {k : Kernel} {r : Regs} {i : Instr} {l : SpinLock} (h : l.taken (exec k r i).k = true) :
    i.takes = some l ∨ l.taken k = true ∧ i.unlocksIn k ≠ some l := by
  cases l with
  | sem s =>
      by_cases hi : i = .semLock s
      · exact .inl (hi ▸ rfl)
      · exact .inr (exec_semTaken k r h hi)
  | registry =>
      change (exec k r i).k.registryLock = true at h
      by_cases htouch : i.touchesGlobals = false
      · rw [(exec_sameGlobals k r htouch).registryLock] at h
        refine .inr ⟨h, ?_⟩
        cases i <;> first | (simp [Instr.unlocksIn, Instr.unlocks]; done) | cases htouch
      · cases i <;> try exact absurd rfl htouch
        case registryLock => exact .inl rfl
        case semUnregister s => cases h
        case openPipe =>
            rw [show (exec k r .openPipe).k = (openPipeCode k r).k from rfl, (openPipeCode_opens k r).kernel] at h
            exact .inr ⟨h, by simp [Instr.unlocksIn, Instr.unlocks]⟩
        case createNamed c s name targets =>
            rw [show (exec k r (.createNamed c s name targets)).k = (createNamedCode k r c s name targets).k
              from rfl, createNamedCode_kernel] at h
            cases h

/-! ## Every lock is given back by the next instruction -/

/-- Does something have to follow the instruction? -/
def Instr.opens : Instr → Bool
  | .spin | .exitSemLock _ | .registryLock | .semLock _ => true
  | _ => false

/-- The instruction `j` gives back the lock that `i` takes, or that `exitSemLock` is about to take. -/
def Instr.couples (i j : Instr) : Prop :=
  match i with
  | .spin => False
  | .exitSemLock p => j = .exitSemPost p
  | i => ∀ l, i.takes = some l → j.unlocks = some l

/-- The same in `k`, where the lock may have to be looked for. -/
def Instr.couplesIn (k : Kernel) (i j : Instr) : Prop :=
  match i with
  | .spin => False
  | .exitSemLock p => j = .exitSemPost p
  | i => ∀ l, i.takes = some l → j.unlocksIn k = some l

theorem Instr.couplesIn_of_couples {i j : Instr} (h : i.couples j) (k : Kernel) : i.couplesIn k j := by
  cases i <;> first | exact h | exact fun l hl => Instr.unlocksIn_of_unlocks (h l hl) k

/-- Whatever takes a lock is followed by what gives it back. -/
def Coupled : List Instr → Prop
  | [] => True
  | i :: rest => (i.opens = true → ∃ j back, rest = j :: back ∧ i.couples j) ∧ Coupled rest

theorem coupled_of_closed {code : List Instr} (h : ∀ i ∈ code, i.opens = false) : Coupled code := by
  induction code with
  | nil => trivial
  | cons i rest ih =>
      refine ⟨fun hi => ?_, ih fun j hj => h j (.tail _ hj)⟩
      rw [h i List.mem_cons_self] at hi
      cases hi

theorem Coupled.append {code code' : List Instr} (h : Coupled code) (h' : Coupled code') :
    Coupled (code ++ code') := by
  induction code with
  | nil => exact h'
  | cons i rest ih =>
      refine ⟨fun hi => ?_, ih h.2⟩
      obtain ⟨j, back, rfl, hj⟩ := h.1 hi
      exact ⟨j, back ++ code', rfl, hj⟩

theorem Coupled.of_append {code code' : List Instr} (h : Coupled (code ++ code')) : Coupled code' := by
  induction code with
  | nil => exact h
  | cons i rest ih => exact ih h.2

/-- So is what the running stack is at, in the kernel as it is now. -/
structure Poised (k : Kernel) (code : List Instr) : Prop where
  head : ∀ i rest, code = i :: rest → i.opens = true → ∃ j back, rest = j :: back ∧ i.couplesIn k j
  tail : Coupled code.tail

theorem Coupled.poised {code : List Instr} (h : Coupled code) (k : Kernel) : Poised k code := by
  cases code with
  | nil => exact ⟨nofun, trivial⟩
  | cons i rest =>
      refine ⟨?_, h.2⟩
      rintro i' rest' ⟨⟩ hi
      obtain ⟨j, back, hrest, hj⟩ := h.1 hi
      exact ⟨j, back, hrest, Instr.couplesIn_of_couples hj k⟩

/-- A lock that is looked for, and the instruction that looks for it again to give it back. -/
theorem Poised.pair {k : Kernel} {s : Addr} {j : Instr} {back : List Instr}
    (hj : j.unlocksIn k = some (.sem s)) (hopens : j.opens = false) (hback : Coupled back) :
    Poised k (.semLock s :: j :: back) := by
  refine ⟨?_, ⟨fun hopen => ?_, hback⟩⟩
  · rintro i rest ⟨⟩ -
    refine ⟨j, back, rfl, ?_⟩
    rintro l ⟨⟩
    exact hj
  · rw [hopens] at hopen
    cases hopen

/-- The instruction is not entered with a lock taken that it needs. -/
structure FindsFree (k : Kernel) (i : Instr) : Prop where
  spin : i ≠ .spin
  takes : ∀ l, i.takes = some l → l.taken k = false
  registry : k.registryLock = true → i.unlocksIn k = some .registry

/-- `open_pipe` does not come to a `registry_lock` that is taken. -/
theorem openPipeCode_passes {k : Kernel} (h : k.registryLock = false) (r : Regs) :
    .spin ∉ (openPipeCode k r).code := by
  have hpass : ∀ k' : Kernel, k'.registryLock = false → ¬ semInitSpins k' = true := by
    intro k' hk
    simp [semInitSpins, hk]
  have hinit : ∀ {k' : Kernel} (s : Addr) (name : Name) (n : Nat), k'.registryLock = false →
      (semInit (k'.grant s .semaphore) s name n).registryLock = false := by
    intro k' s name n hk
    rw [(semInit_inits _ s name n).kernel]
    exact hk
  unfold openPipeCode
  dsimp only
  split
  · simp
  rcases memAlloc_cases k .pipe with ha | ⟨a, -, -, ha⟩ <;> rw [ha] <;> dsimp only
  · simp
  rcases memAlloc_cases (k.grant a .pipe) .semaphore with ha | ⟨s, -, -, ha⟩ <;> rw [ha] <;> dsimp only
  · simp
  have h1 : (k.grant a .pipe).registryLock = false := h
  rw [if_neg (hpass ((k.grant a .pipe).grant s .semaphore) h1)]
  have h2 := hinit s (semName k.nextPipeId 'R') 0 h1
  generalize semInit ((k.grant a .pipe).grant s .semaphore) s (semName k.nextPipeId 'R') 0 = k2 at h2 ⊢
  rcases memAlloc_cases k2 .semaphore with ha | ⟨t, -, -, ha⟩ <;> rw [ha] <;> dsimp only
  · simp
  rw [if_neg (hpass (k2.grant t .semaphore) h2)]
  have h3 := hinit t (semName k.nextPipeId 'W') 0 h2
  generalize semInit (k2.grant t .semaphore) t (semName k.nextPipeId 'W') 0 = k3 at h3 ⊢
  rcases memAlloc_cases k3 .semaphore with ha | ⟨u, -, -, ha⟩ <;> rw [ha] <;> dsimp only
  · simp
  rw [if_neg (hpass (k3.grant u .semaphore) h3)]
  simp

theorem createProcessCode_coupled (k : Kernel) (r : Regs) (args : CreateArgs) (use : CreateUse) :
    Coupled (createProcessCode k r args use).code := by
  have hclosed : ∀ i : Instr, i.opens = false → Coupled [i] := fun i hi =>
    coupled_of_closed fun j hj => List.mem_singleton.mp hj ▸ hi
  unfold createProcessCode
  split
  · exact hclosed _ rfl
  · split
    · exact hclosed _ rfl
    · dsimp only
      rcases memAlloc_cases k .process with h | ⟨p, -, -, h⟩ <;> rw [h] <;> dsimp only
      · exact hclosed _ rfl
      · split
        · cases ((buildProcess (k.grant p .process) p (allocatePid k) args).2.proc p).exitSem with
          | none => trivial
          | some s => simp [onSem, Coupled, Instr.opens, Instr.couples, Instr.takes, Instr.unlocks]
        · exact coupled_of_closed (by simp [Instr.opens])

/-- The code of all instructions but those that look for the lock. -/
theorem exec_coupled {k : Kernel} {i : Instr} (r : Regs) (h : FindsFree k i)
    (hlook : ∀ p, i ≠ .exitSemLock p) (hclose : ∀ id p, i ≠ .closeLocked id p)
    (hreaders : ∀ id p n, i ≠ .closeReaders id p n) (hclear : ∀ p, i ≠ .clearLocked p) :
    Coupled (exec k r i).code := by
  have hclosed : (∀ j, i.comesTo j = true → j.opens = false) → Coupled (exec k r i).code := fun hi =>
    coupled_of_closed fun j hj => hi j (exec_comesTo k r i j hj)
  cases i
  all_goals try (refine hclosed fun j hj => ?_; cases j <;> first | rfl | (cases hj; done))
  case spin => exact absurd rfl h.spin
  case exitSemLock p => exact absurd rfl (hlook p)
  case closeLocked id p => exact absurd rfl (hclose id p)
  case closeReaders id p n => exact absurd rfl (hreaders id p n)
  case clearLocked p => exact absurd rfl (hclear p)
  case registryLock =>
      have hfree : k.registryLock = false := h.takes .registry rfl
      simp [exec, hfree, Coupled]
  case semLock s =>
      have hfree : (k.sem s).lock = false := h.takes (.sem s) rfl
      simp [exec, hfree, Coupled]
  case semWait s => simp [exec, Coupled, Instr.opens, Instr.couples, Instr.takes, Instr.unlocks]
  case semPost s => simp [exec, Coupled, Instr.opens, Instr.couples, Instr.takes, Instr.unlocks]
  case semDestroy s => simp [exec, Coupled, Instr.opens, Instr.couples, Instr.takes, Instr.unlocks]
  case semReadValue s value =>
      simp only [exec]
      repeat' split
      all_goals simp [Coupled, Instr.opens, Instr.couples, Instr.takes, Instr.unlocks]
  case openPipe =>
      have hfree : k.registryLock = false := by
        rw [← Bool.not_eq_true]
        intro htaken
        cases h.registry htaken
      refine coupled_of_closed fun j hj => ?_
      have hcomes := exec_comesTo k r .openPipe j hj
      cases j <;> first | rfl | (cases hcomes; done) | exact absurd hj (openPipeCode_passes hfree r)
  case processExit p =>
      refine Coupled.append ?_ (coupled_of_closed ?_)
      · simp [Coupled, Instr.opens, Instr.couples]
      · split <;> simp [Instr.opens]
  case createProcess args use => exact createProcessCode_coupled k r args use
  case sys c =>
      have hfree : ¬ k.registryLock = true := fun htaken => by cases h.registry htaken
      cases c <;> simp only [exec, sysCode, processWaitPidCode, if_neg hfree] <;> (repeat' split) <;>
        simp [Coupled, Instr.opens, Instr.couples, Instr.takes, Instr.unlocks]

/-- **The code after an instruction**, that of all instructions. -/
theorem exec_poised {k : Kernel} {i : Instr} {rest : List Instr} (r : Regs) (h : Poised k (i :: rest))
    (hfree : FindsFree k i) : Poised (exec k r i).k ((exec k r i).code ++ rest) := by
  have hrest : Coupled rest := h.tail
  by_cases hlook : ∃ p, i = .exitSemLock p
  · obtain ⟨p, rfl⟩ := hlook
    obtain ⟨j, back, rfl, rfl⟩ := h.head _ _ rfl rfl
    cases hexit : (k.proc p).exitSem with
    | none =>
        simp only [exec, hexit, onSem]
        exact hrest.poised k
    | some s =>
        simp only [exec, hexit, onSem]
        exact .pair (by simp [Instr.unlocksIn, hexit]) rfl hrest.2
  by_cases hclose : ∃ id p, i = .closeLocked id p
  · obtain ⟨id, p, rfl⟩ := hclose
    simp only [exec]
    split
    · exact hrest.poised k
    · split
      · exact .pair rfl rfl hrest
      · refine Coupled.poised (.append (coupled_of_closed fun j hj => ?_) hrest) k
        simp only [closeTail, List.replicate_zero, List.append_nil, List.singleton_append, List.mem_cons,
          List.not_mem_nil, or_false] at hj
        rcases hj with rfl | rfl <;> rfl
  by_cases hreaders : ∃ id p n, i = .closeReaders id p n
  · obtain ⟨id, p, n, rfl⟩ := hreaders
    exact .pair rfl rfl hrest
  by_cases hclear : ∃ p, i = .clearLocked p
  · obtain ⟨p, rfl⟩ := hclear
    refine .pair ?_ rfl hrest
    simp [exec, Instr.unlocksIn, Kernel.modPipe, Pipe.reset]
  · refine Coupled.poised (.append (exec_coupled r hfree (fun p hp => hlook ⟨p, hp⟩)
      (fun id p hp => hclose ⟨id, p, hp⟩) (fun id p n hp => hreaders ⟨id, p, n, hp⟩)
      fun p hp => hclear ⟨p, hp⟩) hrest) _

/-! ## Runs -/

/-- A lock that is taken is given back by the instruction the processor is at, and so it will be by the code
    of all stacks. -/
structure LocksReturned (m : Machine) : Prop where
  held : ∀ l : SpinLock, l.taken m.k = true → ∃ i, m.next = some i ∧ i.unlocksIn m.k = some l
  running : Poised m.k (m.code m.cpu)
  others : ∀ t, t ≠ m.cpu → Coupled (m.code t)

theorem Machine.next_of_code {m : Machine} {i : Instr} {rest : List Instr} (h : m.code m.cpu = i :: rest) :
    m.next = some i := by
  unfold Machine.code at h
  unfold Machine.next Machine.thread
  cases hsys : (m.threads m.cpu).sys with
  | cons j sys =>
      rw [hsys] at h
      exact congrArg some (List.cons.inj h).1
  | nil =>
      rw [hsys, List.nil_append] at h
      rw [h]

namespace LocksReturned
variable {m m' : Machine} {i : Instr} {a : Action}

theorem findsFree (h : LocksReturned m) (hn : m.next = some i) : FindsFree m.k i := by
  obtain ⟨rest, hcode, -⟩ := Machine.code_of_next hn
  have hheld : ∀ {l : SpinLock}, l.taken m.k = true → i.unlocksIn m.k = some l := by
    intro l hl
    obtain ⟨i', hn', hunlocks⟩ := h.held l hl
    cases hn.symm.trans hn'
    exact hunlocks
  refine ⟨?_, fun l hl => ?_, hheld (l := .registry)⟩
  · rintro rfl
    obtain ⟨j, back, -, hno⟩ := h.running.head _ _ hcode rfl
    exact hno
  · rw [← Bool.not_eq_true]
    intro htaken
    have hunlocks := hheld htaken
    cases i <;> first | cases hl; done | cases hunlocks

theorem not_spins (h : LocksReturned m) : ¬ m.Spins := by
  rintro ⟨i, hn, rfl | ⟨l, hl, htaken⟩⟩
  · exact (h.findsFree hn).spin rfl
  · rw [(h.findsFree hn).takes l hl] at htaken
    cases htaken

/-- An instruction that takes a lock leaves it to the next one. -/
theorem exec_takes (h : LocksReturned m) (hn : m.next = some i) (hi : i ≠ .int20) {l : SpinLock}
    (hl : i.takes = some l) : ∃ j, (m.execInstr i).next = some j ∧ j.unlocksIn (m.execInstr i).k = some l := by
  obtain ⟨rest, hcode, hrest⟩ := Machine.code_of_next hn
  have hfree := (h.findsFree hn).takes l hl
  obtain ⟨j, back, rfl, hj⟩ := h.running.head i rest hcode (by cases i <;> first | rfl | cases hl)
  have hquiet : (exec m.k m.thread.regs i).spawned = none ∧ (exec m.k m.thread.regs i).code = [] ∧
      (exec m.k m.thread.regs i).k.pipe = m.k.pipe ∧ (exec m.k m.thread.regs i).k.proc = m.k.proc := by
    cases i <;> cases hl
    case registryLock.refl =>
        change m.k.registryLock = false at hfree
        simp [exec, hfree, Outcome.spawned]
    case semLock.refl s =>
        change (m.k.sem s).lock = false at hfree
        simp [exec, hfree, Outcome.spawned, Kernel.modSem]
  obtain ⟨hspawned, hnil, hpipe, hproc⟩ := hquiet
  refine ⟨j, @Machine.next_of_code _ _ back ?_, ?_⟩
  · rw [m.execInstr_cpu hi, Machine.execInstr_code hi hrest, hspawned, if_neg (by simp), if_pos rfl, hnil]
    rfl
  · have hunlocks : j.unlocksIn m.k = some l := by
      cases i <;> first | exact hj l hl | cases hl
    rw [m.execInstr_k hi, ← hunlocks]
    cases j <;> simp only [Instr.unlocksIn, hpipe, hproc]

/-- **Execution** of a stretch of code. -/
theorem exec (h : LocksReturned m) (hn : m.next = some i) (hi : i ≠ .int20) :
    LocksReturned (m.execInstr i) := by
  obtain ⟨rest, hcode, hrest⟩ := Machine.code_of_next hn
  have hentry : Coupled entryCode := coupled_of_closed (by simp [entryCode, Instr.opens])
  refine ⟨fun l hl => ?_, ?_, fun t ht => ?_⟩
  · rw [m.execInstr_k hi] at hl
    rcases exec_taken hl with htakes | ⟨htaken, hne⟩
    · exact h.exec_takes hn hi htakes
    · obtain ⟨i', hn', hunlocks⟩ := h.held l htaken
      cases hn.symm.trans hn'
      exact absurd hunlocks hne
  · rw [m.execInstr_cpu hi, m.execInstr_k hi, Machine.execInstr_code hi hrest]
    split
    · exact hentry.poised _
    · rw [if_pos rfl]
      exact exec_poised m.thread.regs (hcode ▸ h.running) (h.findsFree hn)
  · rw [m.execInstr_cpu hi] at ht
    rw [Machine.execInstr_code hi hrest]
    split
    · exact hentry
    · exact h.others t ht

/-- **Any other step.** Nothing is locked then, and what comes on top of a stack takes no lock itself. -/
theorem other (h : LocksReturned m) (hg : m.LeavesLocks a) (hs : m.step a = some m')
    (ha : ∀ i, m.Executes a i → i = .int20) : LocksReturned m' := by
  obtain ⟨hobj, hcode⟩ := Machine.step_other hs ha
  have hat : ∀ i, m.next = some i → i.takes = none ∧ i.unlocksIn m.k = none := by
    intro i hn
    cases a with
    | exec =>
        cases ha i ⟨rfl, hn⟩
        exact ⟨rfl, rfl⟩
    | tick => exact hg rfl i hn
    | key e => exact hg rfl i hn
    | syscall c =>
        obtain ⟨-, huser, -⟩ := Machine.step_syscall hs
        cases hn.symm.trans huser
        exact ⟨rfl, rfl⟩
    | ret =>
        obtain ⟨-, huser, -⟩ := Machine.step_ret hs
        cases hn.symm.trans huser
        exact ⟨rfl, rfl⟩
    | exception =>
        obtain ⟨-, huser, -⟩ := Machine.step_exception hs
        cases hn.symm.trans huser
        exact ⟨rfl, rfl⟩
  have hall : ∀ t, Coupled (m.code t) := by
    intro t
    by_cases ht : t = m.cpu
    · subst ht
      cases hc : m.code m.cpu with
      | nil => trivial
      | cons i rest =>
          refine ⟨fun hopens => ?_, ?_⟩
          · obtain ⟨j, back, hback, hj⟩ := h.running.head i rest hc hopens
            have htakes := (hat i (Machine.next_of_code hc)).1
            refine ⟨j, back, hback, ?_⟩
            cases i <;> first | exact hj | cases htakes; done | cases hopens
          · have htail := h.running.tail
            rwa [hc] at htail
    · exact h.others t ht
  have hall' : ∀ t, Coupled (m'.code t) := by
    intro t
    obtain ⟨gone, new, rest, hold, hnew, -, hentered⟩ := hcode t
    rw [hnew]
    refine Coupled.append (coupled_of_closed fun j hj => ?_) (@Coupled.of_append gone _ (hold ▸ hall t))
    have hstarts := Machine.entered_starts j (hentered j hj)
    cases j <;> first | rfl | cases hstarts
  refine ⟨fun l hl => ?_, (hall' _).poised _, fun t _ => hall' t⟩
  have htaken : l.taken m.k = true := by
    cases l with
    | registry =>
        change m'.k.registryLock = true at hl
        rwa [(Machine.step_globals hs ha).registryLock] at hl
    | sem s =>
        change (m'.k.sem s).lock = true at hl
        rwa [hobj.sem] at hl
  obtain ⟨i, hn, hunlocks⟩ := h.held l htaken
  rw [(hat i hn).2] at hunlocks
  cases hunlocks

/-- **Step lemma.** -/
theorem step (h : LocksReturned m) (hg : m.LeavesLocks a) (hs : m.step a = some m') : LocksReturned m' := by
  by_cases hexec : ∃ i, m.Executes a i ∧ i ≠ .int20
  · obtain ⟨i, ⟨rfl, hn⟩, hi⟩ := hexec
    obtain ⟨j, hj, -, rfl⟩ := Machine.step_exec hs
    cases hn.symm.trans hj
    exact h.exec hn hi
  · refine h.other hg hs fun i hi => ?_
    by_contra hne
    exact hexec ⟨i, hi, hne⟩

theorem boot (memAnswers : Nat → Option Addr) : LocksReturned (Boot.machine memAnswers) := by
  have hcode : ∀ t, Coupled ((Boot.machine memAnswers).code t) := by
    intro t
    refine coupled_of_closed fun i hi => ?_
    simp only [Machine.code, Boot.machine] at hi
    split at hi
    · rw [List.mem_singleton.mp hi]
      rfl
    · rw [List.mem_singleton.mp hi]
      rfl
  refine ⟨fun l hl => ?_, (hcode _).poised _, fun t _ => hcode t⟩
  cases l with
  | registry => cases hl
  | sem s =>
      have hfree : ∀ x ∈ Boot.sems, x.2.lock = false := by decide
      change ((Boot.sems.lookup s).getD {}).lock = true at hl
      cases hlook : Boot.sems.lookup s with
      | none =>
          rw [hlook] at hl
          cases hl
      | some x =>
          rw [hlook] at hl
          obtain ⟨before, after, hsems, -⟩ := List.lookup_eq_some_iff.mp hlook
          have hx : x.lock = false := hfree (s, x) (by simp [hsems])
          exact absurd hl (by simp [hx])

end LocksReturned

/-- **Nobody spins for ever**: as long as no interrupt comes where a spin lock is taken or about to be, every
    `semLock` finds its lock free. -/
theorem never_spins {memAnswers : Nat → Option Addr} {as : List Action} {m : Machine}
    (h : GuardedRun Machine.step Machine.LeavesLocks (Boot.machine memAnswers) as m) : ¬ m.Spins :=
  (h.invariant LocksReturned (fun _ _ _ hi hg hs => hi.step hg hs) (.boot memAnswers)).not_spins

end TpSo
