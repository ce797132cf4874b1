import TpSo.Library.Interference
import TpSo.Pipes.Closing
import TpSo.Pipes.Retarget
import TpSo.Process.Ownership
import TpSo.Sem.Isolation

set_option autoImplicit false

/-! # How `createProcess` takes back what it has done

The call allocates the object and what it points to, attaches the pipes one after the other and enters
the process in the table and among its parent's children. When one of these fails it gives up the
attachments it has made, destroys the exit semaphore and frees the object. Where it waits for the mutex of
a pipe, and where interrupts are enabled between any two of its instructions, other processes run. -/

namespace TpSo

/-! ## What a failed call leaves -/

/-- Nothing of the semaphore is left but its block. -/
def Sem.gone (s : Sem) : Prop := s.name = none ∧ s.waitingProcesses = none

/-- A call of `createProcess` that began in `k0` has failed and leaves nothing behind. -/
structure Restored (k0 k : Kernel) (parent : Option Addr) : Prop where
  processes : k.processes = k0.processes
  processCount : k.processCount = k0.processCount
  foreground : k.foregroundPid = k0.foregroundPid
  attached : ∀ a, (k.pipe a).attachedCount = (k0.pipe a).attachedCount
  registered : k.registeredSemaphores = k0.registeredSemaphores
  children : ∀ q, parent = some q → KeepsChildren (k0.proc q).children (k.proc q).children
  live : k.live = k0.live
  /-- Neither the name nor the waiting queue of a new semaphore is left. -/
  sems : ∀ s, k0.live s = none → k.sem s = k0.sem s ∨ (k.sem s).gone

/-- `sem_init` has written all fields of the semaphore, and nobody waits for it or holds its lock. -/
structure Destroyable (k : Kernel) (s : Addr) : Prop where
  name : (k.sem s).name ≠ none
  lock : (k.sem s).lock = false
  waiting : (k.sem s).waitingProcesses.getD [] = []

/-- What the instructions of the call have to find: `sem_destroy` a semaphore that `sem_init` has completed,
    the spin locks free, and the return of `NULL` everything as it was. -/
def FindsReady (k0 : Kernel) (parent : Option Addr) (x : Kernel × Regs) : Instr → Prop
  | .semDestroy s => Destroyable x.1 s
  | .registryLock => x.1.registryLock = false
  | .semLock s => k0.live s = none → (x.1.sem s).lock = false
  | .createFailed _ => Restored k0 x.1 parent
  | _ => True

/-! ## Other processes during the call -/

/-- What other processes leave alone: what the call has to restore, the objects of processes, and
    semaphores that were not there when it began in `k0`. -/
structure CallUndisturbed (k0 k k' : Kernel) : Prop where
  processes : k'.processes = k.processes
  processCount : k'.processCount = k.processCount
  foreground : k'.foregroundPid = k.foregroundPid
  pipes : k'.pipes = k.pipes
  pipeSems : ∀ a, (k'.pipe a).sems = (k.pipe a).sems
  attached : ∀ a, (k'.pipe a).attachedCount = (k.pipe a).attachedCount
  registered : k'.registeredSemaphores = k.registeredSemaphores
  registryLock : k'.registryLock = k.registryLock
  live : k'.live = k.live
  object : ∀ q, (k'.proc q).outside = (k.proc q).outside
  sem : ∀ s, k0.live s = none → k'.sem s = k.sem s

namespace CallUndisturbed

variable {k0 k k' k'' : Kernel}

theorem refl (k0 k : Kernel) : CallUndisturbed k0 k k :=
  ⟨rfl, rfl, rfl, rfl, fun _ => rfl, fun _ => rfl, rfl, rfl, rfl, fun _ => rfl, fun _ _ => rfl⟩

theorem trans (h : CallUndisturbed k0 k k') (h' : CallUndisturbed k0 k' k'') :
    CallUndisturbed k0 k k'' where
  processes := h'.processes.trans h.processes
  processCount := h'.processCount.trans h.processCount
  foreground := h'.foreground.trans h.foreground
  pipes := h'.pipes.trans h.pipes
  pipeSems a := (h'.pipeSems a).trans (h.pipeSems a)
  attached a := (h'.attached a).trans (h.attached a)
  registered := h'.registered.trans h.registered
  registryLock := h'.registryLock.trans h.registryLock
  live := h'.live.trans h.live
  object q := (h'.object q).trans (h.object q)
  sem s hs := (h'.sem s hs).trans (h.sem s hs)

theorem of_outside (h : k'.outside = k.outside) : CallUndisturbed k0 k k' where
  processes := (congrArg Kernel.processes h :)
  processCount := (congrArg Kernel.processCount h :)
  foreground := (congrArg Kernel.foregroundPid h :)
  pipes := (congrArg Kernel.pipes h :)
  pipeSems a := (congrArg (fun k : Kernel => (k.pipe a).sems) h :)
  attached a := (congrArg (fun k : Kernel => (k.pipe a).attachedCount) h :)
  registered := (congrArg Kernel.registeredSemaphores h :)
  registryLock := (congrArg Kernel.registryLock h :)
  live := (congrArg Kernel.live h :)
  object q := (congrArg (fun k : Kernel => k.proc q) h :)
  sem s _ := (congrArg (fun k : Kernel => k.sem s) h :)

/-- While somebody holds `registry_lock`. -/
theorem unlocked (h : CallUndisturbed k0 k k') :
    CallUndisturbed k0 (registryUnlock k) (registryUnlock k') :=
  ⟨h.processes, h.processCount, h.foreground, h.pipes, h.pipeSems, h.attached, h.registered, rfl, h.live,
    h.object, h.sem⟩

/-- Code that beyond the scheduler's data writes to one semaphore that was there. -/
theorem of_modSem {t : Addr} {f : Sem → Sem} (ht : k0.live t ≠ none)
    (h : k'.outside = (k.modSem t f).outside) : CallUndisturbed k0 k k' := by
  have hsem : CallUndisturbed k0 k (k.modSem t f) := by
    refine { refl k0 k with sem := fun s hs => Function.update_of_ne ?_ .. }
    rintro rfl
    exact ht hs
  exact hsem.trans (of_outside h)

/-- A write to a pipe, neither to its attachments nor to its semaphores. -/
theorem modPipe (k : Kernel) (a : Addr) {f : Pipe → Pipe}
    (hcount : (f (k.pipe a)).attachedCount = (k.pipe a).attachedCount)
    (hsems : (f (k.pipe a)).sems = (k.pipe a).sems) : CallUndisturbed k0 k (k.modPipe a f) := by
  refine { refl k0 k with pipeSems := fun b => ?_, attached := fun b => ?_ } <;>
  · by_cases hb : b = a
    · subst hb
      simp [Kernel.modPipe, hcount, hsems]
    · simp [Kernel.modPipe, hb]

theorem semRemoveProcess {t : Addr} (ht : k0.live t ≠ none) (pid : Nat) :
    CallUndisturbed k0 k (semRemoveProcess k t pid) :=
  .of_modSem (f := fun s => { s with waitingProcesses := (queueRemove s.waitingProcesses pid).2 }) ht rfl

end CallUndisturbed

/-- The code with which a call waits for a semaphore that was there, or posts on it. -/
theorem exec_isLocking_undisturbed {k0 : Kernel} (k : Kernel) (r : Regs) {i : Instr} (hi : i.isLocking)
    (hsem : ∀ t, i.operand = some t → k0.live t ≠ none) : CallUndisturbed k0 k (exec k r i).k := by
  cases i <;> try cases hi
  case int20 => exact .of_outside rfl
  case processYield =>
      simp only [exec]
      split
      · exact .of_outside rfl
      · next current _ => exact .of_outside (modProc_outside k current _ rfl)
  case semWait s => exact .of_outside rfl
  case semLock s =>
      simp only [exec]
      split
      · exact .of_outside rfl
      · exact .of_modSem (hsem s rfl) rfl
  case semWaitLocked s => exact .of_modSem (hsem s rfl) (semWaitBody_outside k s)
  case semWaitReturn s ret => exact .of_outside rfl
  case semPost s => exact .of_outside rfl
  case semPostLocked s => exact .of_modSem (hsem s rfl) (semPostBody_outside k s)
  case readWoken pipe =>
      refine .modPipe k pipe ?_ (k.pipe pipe).dropReader_sems
      rw [Pipe.dropReader]

/-- It stays with its semaphore. -/
theorem exec_isLocking_operand (k : Kernel) (r : Regs) {i : Instr} (hi : i.isLocking) {t : Addr} :
    ∀ j ∈ (exec k r i).code, j.operand = some t → i.operand = some t := by
  cases i <;> try cases hi
  case int20 => simp [exec]
  case processYield =>
      simp only [exec]
      split <;> simp [Instr.operand]
  case semWait s => simp [exec, Instr.operand]
  case semLock s =>
      simp only [exec]
      split <;> simp [Instr.operand]
  case semWaitLocked s =>
      simp only [exec]
      split <;> simp [Instr.operand]
  case semWaitReturn s ret => simp [exec]
  case semPost s => simp [exec, Instr.operand]
  case semPostLocked s =>
      simp only [exec]
      split <;> simp [Instr.operand]
  case readWoken pipe => simp [exec]

/-! ## The call under way -/

/-- What the call has not changed, or accounts for, while it builds the object at `p` and has attached
    these pipes. -/
structure Surrounds (k0 : Kernel) (p : Addr) (attached : List Nat) (k : Kernel) : Prop where
  processes : k.processes = k0.processes
  processCount : k.processCount = k0.processCount
  foreground : k.foregroundPid = k0.foregroundPid
  pipes : k.pipes = k0.pipes
  pipeSems : ∀ a, (k.pipe a).sems = (k0.pipe a).sems
  attached : ∀ a, (k.pipe a).attachedCount = (k0.pipe a).attachedCount + idsOf k0 attached a
  children : ∀ q, q ≠ p → KeepsChildren (k0.proc q).children (k.proc q).children
  registryLock : k.registryLock = k0.registryLock
  pid : (k.proc p).pid = allocatePid k0
  owned : Owned k0 k p

/-- Besides, the exit semaphore, if there is one, is complete. -/
structure Creating (k0 : Kernel) (p : Addr) (attached : List Nat) (k : Kernel) : Prop
    extends Surrounds k0 p attached k where
  registered : k.registeredSemaphores = k0.registeredSemaphores ∨
    ∃ s others, (k.proc p).exitSem = some s ∧ k0.registeredSemaphores = some others ∧
      k.registeredSemaphores = some (others ++ [s])
  sems : ∀ s, k0.live s = none → (k.proc p).exitSem ≠ some s → k.sem s = k0.sem s
  destroyable : ∀ s, (k.proc p).exitSem = some s → Destroyable k s

/-- The object has nothing left but its exit semaphore `e`, which is no longer registered; `P` says what
    it still has. -/
structure Emptied (k0 : Kernel) (p : Addr) (e : Option Addr) (P : Sem → Prop) (k : Kernel) : Prop
    extends Surrounds k0 p [] k where
  argv : (k.proc p).argv = none
  stackBase : (k.proc p).stackBase = none
  exitSem : (k.proc p).exitSem = e
  registered : k.registeredSemaphores = k0.registeredSemaphores
  sems : ∀ s, k0.live s = none → e ≠ some s → k.sem s = k0.sem s
  sem : ∀ s, e = some s → P (k.sem s)

section Stability
variable {k0 k k' : Kernel} {p : Addr} {attached : List Nat} {parent e : Option Addr} {P : Sem → Prop}

/-- The fields of a process object that others leave alone. -/
theorem CallUndisturbed.fields (hu : CallUndisturbed k0 k k') (q : Addr) :
    (k'.proc q).pid = (k.proc q).pid ∧ (k'.proc q).children = (k.proc q).children ∧
      (k'.proc q).argv = (k.proc q).argv ∧ (k'.proc q).stackBase = (k.proc q).stackBase ∧
      (k'.proc q).exitSem = (k.proc q).exitSem :=
  ⟨(congrArg Process.pid (hu.object q) :), (congrArg Process.children (hu.object q) :),
    (congrArg Process.argv (hu.object q) :), (congrArg Process.stackBase (hu.object q) :),
    (congrArg Process.exitSem (hu.object q) :)⟩

/-- Only the children of others are written, and the object. -/
theorem Surrounds.congr (h : Surrounds k0 p attached k) (hprocesses : k'.processes = k.processes)
    (hcount : k'.processCount = k.processCount) (hforeground : k'.foregroundPid = k.foregroundPid)
    (hpipes : k'.pipes = k.pipes) (hpipe : k'.pipe = k.pipe)
    (hchildren : ∀ q, q ≠ p → KeepsChildren (k.proc q).children (k'.proc q).children)
    (hlock : k'.registryLock = k.registryLock) (hpid : (k'.proc p).pid = (k.proc p).pid)
    (howned : Owned k0 k' p) : Surrounds k0 p attached k' where
  processes := hprocesses.trans h.processes
  processCount := hcount.trans h.processCount
  foreground := hforeground.trans h.foreground
  pipes := hpipes.trans h.pipes
  pipeSems a := by
    rw [hpipe]
    exact h.pipeSems a
  attached a := by
    rw [hpipe]
    exact h.attached a
  children q hq := (h.children q hq).trans (hchildren q hq)
  registryLock := hlock.trans h.registryLock
  pid := hpid.trans h.pid
  owned := howned

theorem Surrounds.undisturbed (h : Surrounds k0 p attached k) (hu : CallUndisturbed k0 k k') :
    Surrounds k0 p attached k' where
  processes := hu.processes.trans h.processes
  processCount := hu.processCount.trans h.processCount
  foreground := hu.foreground.trans h.foreground
  pipes := hu.pipes.trans h.pipes
  pipeSems a := (hu.pipeSems a).trans (h.pipeSems a)
  attached a := (hu.attached a).trans (h.attached a)
  children q hq := by
    rw [(hu.fields q).2.1]
    exact h.children q hq
  registryLock := hu.registryLock.trans h.registryLock
  pid := (hu.fields p).1.trans h.pid
  owned := h.owned.congr (congrArg Process.blocks (hu.object p) :) hu.live

/-- Neither the registry is written nor the exit semaphore, nor another one that was not there. -/
theorem Creating.of_surrounds {attached' : List Nat} (h : Creating k0 p attached k)
    (hs : Surrounds k0 p attached' k') (hregistered : k'.registeredSemaphores = k.registeredSemaphores)
    (hexit : (k'.proc p).exitSem = (k.proc p).exitSem)
    (hsem : ∀ s, k0.live s = none → k'.sem s = k.sem s) : Creating k0 p attached' k' where
  toSurrounds := hs
  registered := by
    rw [hregistered, hexit]
    exact h.registered
  sems s hfree hne := (hsem s hfree).trans (h.sems s hfree (hexit ▸ hne))
  destroyable s he := by
    have hfree : k0.live s = none := hs.owned.free s (by simp [Process.blocks, he])
    obtain ⟨hname, hlock, hwaiting⟩ := h.destroyable s (hexit ▸ he)
    rw [← hsem s hfree] at hname hlock hwaiting
    exact ⟨hname, hlock, hwaiting⟩

theorem Creating.undisturbed (h : Creating k0 p attached k) (hu : CallUndisturbed k0 k k') :
    Creating k0 p attached k' :=
  h.of_surrounds (h.toSurrounds.undisturbed hu) hu.registered (hu.fields p).2.2.2.2 hu.sem

theorem Emptied.undisturbed (h : Emptied k0 p e P k) (hu : CallUndisturbed k0 k k') :
    Emptied k0 p e P k' := by
  obtain ⟨-, -, hargv, hstack, hsem⟩ := hu.fields p
  refine { h.toSurrounds.undisturbed hu with
           argv := hargv.trans h.argv, stackBase := hstack.trans h.stackBase
           exitSem := hsem.trans h.exitSem, registered := hu.registered.trans h.registered
           sems := fun s hs hne => (hu.sem s hs).trans (h.sems s hs hne), sem := fun s hs => ?_ }
  have hfree : k0.live s = none := h.owned.free s (by simp [Process.blocks, h.exitSem, hs])
  rw [hu.sem s hfree]
  exact h.sem s hs

theorem Restored.undisturbed (h : Restored k0 k parent) (hu : CallUndisturbed k0 k k') :
    Restored k0 k' parent where
  processes := hu.processes.trans h.processes
  processCount := hu.processCount.trans h.processCount
  foreground := hu.foreground.trans h.foreground
  attached a := (hu.attached a).trans (h.attached a)
  registered := hu.registered.trans h.registered
  children q hq := by
    rw [(hu.fields q).2.1]
    exact h.children q hq
  live := hu.live.trans h.live
  sems s hs := by
    rw [hu.sem s hs]
    exact h.sems s hs

end Stability

/-! ## The code of the call -/

/-- The code of a call that began in `k0`, while others leave it undisturbed. -/
abbrev RollsBack (k0 : Kernel) (parent : Option Addr) (pre : Kernel × Regs → Prop) (code : List Instr)
    (post : Kernel × Regs → Prop) : Prop :=
  (callCode (CallUndisturbed k0)).Interrupted (FindsReady k0 parent) pre code post

section Code
variable {k0 : Kernel} {p : Addr} {attached : List Nat} {parent e : Option Addr}

theorem creating_stable (P : Regs → Prop) :
    (callCode (CallUndisturbed k0)).Stable (fun x => P x.2 ∧ Creating k0 p attached x.1) := by
  rintro x x' ⟨hP, h⟩ ⟨hu, hr⟩
  exact ⟨hr ▸ hP, h.undisturbed hu⟩

theorem creating_stable' :
    (callCode (CallUndisturbed k0)).Stable (fun x => Creating k0 p attached x.1) :=
  fun _ _ h hb => h.undisturbed hb.1

theorem emptied_stable (P : Sem → Prop) :
    (callCode (CallUndisturbed k0)).Stable (fun x => Emptied k0 p e P x.1) :=
  fun _ _ h hb => h.undisturbed hb.1

/-- `semLock(&registry_lock)`: the lock is free, so that it does not spin. -/
theorem rollsBack_registryLock {P : Kernel → Prop}
    (hstable : ∀ k k', P k → CallUndisturbed k0 k k' → P k') (hfree : ∀ k, P k → k.registryLock = false) :
    RollsBack k0 parent (fun x => P x.1) [.registryLock] (fun x => P (registryUnlock x.1)) := by
  have hexec : ∀ x : Kernel × Regs, P x.1 →
      exec x.1 x.2 .registryLock = { k := { x.1 with registryLock := true }, r := x.2 } := by
    intro x h
    simp [exec, hfree x.1 h]
  refine .simple (fun x x' h hb => hstable _ _ h hb.1) (by simp [callCode]) (fun x h => ?_)
    (fun x h => hfree x.1 h) fun x h => ?_
  · simp [callCode, hexec x h]
  · have hunlock : registryUnlock { x.1 with registryLock := true } = x.1 := by
      rw [registryUnlock, ← hfree x.1 h]
    simp only [callCode, hexec x h, hunlock]
    exact h

theorem Surrounds.pipeOf {k : Kernel} (h : Surrounds k0 p attached k) (id : Nat) :
    pipeOf k id = TpSo.pipeOf k0 id := by
  unfold TpSo.pipeOf
  rw [h.pipes]

/-- `sem_wait` and `sem_post` on a semaphore that was there. -/
theorem rollsBack_locking {i : Instr} (hi : i.isLocking)
    (hsem : ∀ t, i.operand = some t → k0.live t ≠ none) :
    RollsBack k0 parent (fun x => Creating k0 p attached x.1) [i]
      (fun x => Creating k0 p attached x.1) := by
  refine .invariant (fun j => j.isLocking ∧ ∀ t, j.operand = some t → k0.live t ≠ none)
    creating_stable' (by simpa using ⟨hi, hsem⟩) ?_ ?_
  · rintro x j h ⟨hj, ht⟩ -
    refine ⟨h.undisturbed (exec_isLocking_undisturbed x.1 x.2 hj ht), fun j' hj' => ?_⟩
    exact ⟨exec_isLocking x.1 x.2 hj j' hj', fun t hop =>
      ht t (exec_isLocking_operand x.1 x.2 hj j' hj' hop)⟩
  · rintro x j - ⟨hj, ht⟩
    cases j <;> first | exact trivial | cases hj; done | exact fun hfree => absurd hfree (ht _ rfl)

/-- `sem_wait(mutex)`, a write to the attachments of the pipe, `sem_post(mutex)`. -/
theorem rollsBack_underMutex {mutex a : Addr} {i : Instr} {f : Pipe → Pipe} {attached' : List Nat}
    (hmutex : k0.live mutex ≠ none) (hi : i ≠ .int20)
    (hexec : ∀ k r, exec k r i = { k := k.modPipe a f, r := r }) (hok : ∀ x, FindsReady k0 parent x i)
    (hsame : ∀ b, b ≠ a → idsOf k0 attached' b = idsOf k0 attached b)
    (hf : ∀ p : Pipe, p.attachedCount = (k0.pipe a).attachedCount + idsOf k0 attached a →
      (f p).attachedCount = (k0.pipe a).attachedCount + idsOf k0 attached' a)
    (hsems : ∀ p : Pipe, (f p).sems = p.sems) :
    RollsBack k0 parent (fun x => Creating k0 p attached x.1) [.semWait mutex, i, .semPost mutex]
      (fun x => Creating k0 p attached' x.1) := by
  have hlive : ∀ t, some mutex = some t → k0.live t ≠ none := by
    rintro t ⟨⟩
    exact hmutex
  refine .cons (rollsBack_locking rfl hlive) (.cons ?_ (rollsBack_locking rfl hlive))
  refine .simple creating_stable' hi (fun x _ => by simp [callCode, hexec]) (fun x _ => hok x) fun x h => ?_
  simp only [callCode, hexec]
  have hpipe : ∀ b, (x.1.modPipe a f).pipe b = if b = a then f (x.1.pipe a) else x.1.pipe b := fun b =>
    Function.update_apply ..
  refine h.of_surrounds { h.toSurrounds with pipeSems := fun b => ?_, attached := fun b => ?_
                                             owned := h.owned.congr rfl rfl } rfl rfl fun _ _ => rfl
  · rw [hpipe]
    split
    · next hb => rw [hsems, hb, h.pipeSems]
    · exact h.pipeSems b
  · rw [hpipe]
    split
    · next hb => rw [hb, hf _ (h.attached a)]
    · next hb => rw [h.attached, hsame b hb]

/-! ### The pipes -/

/-- The semaphores of the open pipes are there. -/
def PipeSemsLive (k : Kernel) : Prop :=
  ∀ id a, TpSo.pipeOf k id = some a → ∀ s ∈ (k.pipe a).sems, k.live s ≠ none

theorem idsOf_cons (k : Kernel) (id : Nat) (ids : List Nat) (a : Addr) :
    idsOf k (id :: ids) a = idsOf k ids a + if TpSo.pipeOf k id = some a then 1 else 0 := by
  simp only [idsOf, List.countP_cons, decide_eq_true_eq]

theorem rollsBack_setRax (v : Int) : RollsBack k0 parent (fun x => Creating k0 p attached x.1) [.setRax v]
    (fun x => x.2.rax = v ∧ Creating k0 p attached x.1) :=
  .simple creating_stable' (by simp [callCode]) (fun _ _ => rfl) (fun _ _ => trivial) fun _ h => ⟨rfl, h⟩

/-- `attach_to_pipe` without such a pipe. -/
theorem rollsBack_attach_none {id : Nat} (hid : TpSo.pipeOf k0 id = none) :
    RollsBack k0 parent (fun x => Creating k0 p attached x.1) [.attachToPipe id]
      (fun x => x.2.rax = -1 ∧ Creating k0 p attached x.1) := by
  have hexec : ∀ x : Kernel × Regs, Creating k0 p attached x.1 →
      exec x.1 x.2 (.attachToPipe id) = { k := x.1, r := { x.2 with rax := -1 } } := by
    intro x h
    simp only [exec, h.pipeOf, hid]
  refine .simple creating_stable' (by simp [callCode]) (fun x h => ?_) (fun _ _ => trivial) fun x h => ?_
  · simp only [callCode, hexec x h]
  · simp only [callCode, hexec x h]
    exact ⟨trivial, h⟩

/-- A semaphore of an open pipe was there when the call began. -/
theorem Surrounds.sem_live {k : Kernel} (h : Surrounds k0 p attached k) (hpipes : PipeSemsLive k0)
    {id : Nat} {a s : Addr} (hid : TpSo.pipeOf k0 id = some a) (hs : s ∈ (k.pipe a).sems) :
    k0.live s ≠ none := hpipes id a hid s (h.pipeSems a ▸ hs)

/-- `attach_to_pipe`. -/
theorem rollsBack_attach (hpipes : PipeSemsLive k0) {id : Nat} {a : Addr}
    (hid : TpSo.pipeOf k0 id = some a)
    (hroom : (k0.pipe a).attachedCount + idsOf k0 (id :: attached) a < 256) :
    RollsBack k0 parent (fun x => Creating k0 p attached x.1) [.attachToPipe id]
      (fun x => x.2.rax = 0 ∧ Creating k0 p (id :: attached) x.1) := by
  refine .instr creating_stable' (by simp [callCode]) fun x h => ⟨trivial, ?_⟩
  have hcode : exec x.1 x.2 (.attachToPipe id) = { k := x.1, r := x.2, code :=
      [.semWait (x.1.pipe a).mutex, .attachLocked a, .semPost (x.1.pipe a).mutex] ++ [.setRax 0] } := by
    simp only [exec, h.pipeOf, hid]
    rfl
  have hmutex : k0.live (x.1.pipe a).mutex ≠ none := h.sem_live hpipes hid (by simp [Pipe.sems])
  simp only [callCode, hcode]
  refine .start (.append (rollsBack_underMutex hmutex (by simp) (fun _ _ => rfl) (fun _ => trivial)
    (fun b hb => ?_) (fun q hq => ?_) fun _ => rfl) (rollsBack_setRax 0)) h
  · rw [idsOf_cons, if_neg fun heq => hb (Option.some.inj (hid.symm.trans heq)).symm, Nat.add_zero]
  · rw [idsOf_cons, if_pos hid] at hroom ⊢
    rw [Pipe.attach, hq, Nat.mod_eq_of_lt (by omega), Nat.add_assoc]

theorem allocatePid_valid {k : Kernel} (h : allocatePid k ≠ 0) :
    ¬ (allocatePid k < PROCESS_FIRST_PID ∨
      allocatePid k ≥ PROCESS_FIRST_PID + PROCESS_MAX_PROCESSES) := by
  unfold allocatePid at h ⊢
  split at h
  · next i hi =>
    have hmem := List.mem_of_find?_eq_some hi
    rw [List.mem_range] at hmem
    omega
  · exact absurd rfl h

/-- `unattach_from_pipe` after `attach_to_pipe`. -/
theorem rollsBack_unattach (hpipes : PipeSemsLive k0) (hpid : allocatePid k0 ≠ 0) (id : Nat) :
    RollsBack k0 parent (fun x => Creating k0 p (id :: attached) x.1)
      [.unattachFromPipe id (allocatePid k0)] (fun x => Creating k0 p attached x.1) := by
  refine .instr creating_stable' (by simp [callCode]) fun x h => ⟨trivial, ?_⟩
  simp only [callCode, exec, h.pipeOf]
  cases hid : TpSo.pipeOf k0 id with
  | none =>
      refine .nil ?_
      rintro y rfl
      have hsame : ∀ a, idsOf k0 (id :: attached) a = idsOf k0 attached a := by
        intro a
        rw [idsOf_cons, if_neg (by simp [hid]), Nat.add_zero]
      exact { h with attached := fun a => hsame a ▸ h.attached a }
  | some a =>
      simp only [if_neg (allocatePid_valid hpid)]
      have hlive : ∀ s ∈ (x.1.pipe a).sems, k0.live s ≠ none := fun s hs => h.sem_live hpipes hid hs
      simp only [Pipe.sems, List.forall_mem_cons] at hlive
      obtain ⟨hread, hwrite, hmutex, -⟩ := hlive
      have hremoved := (h.undisturbed (.semRemoveProcess hread (allocatePid k0))).undisturbed
        (.semRemoveProcess hwrite (allocatePid k0))
      refine .start (rollsBack_underMutex hmutex (by simp) (fun _ _ => rfl) (fun _ => trivial)
        (fun b hb => ?_) (fun q hq => ?_) fun _ => rfl) hremoved
      · rw [idsOf_cons, if_neg fun heq => hb (Option.some.inj (hid.symm.trans heq)).symm, Nat.add_zero]
      · rw [idsOf_cons, if_pos hid] at hq
        show q.attachedCount - 1 = _
        omega

/-! ### The object -/

/-- The object has nothing left but its exit semaphore, which is complete. -/
structure Stripped (k0 : Kernel) (p s : Addr) (k : Kernel) : Prop extends Creating k0 p [] k where
  argv : (k.proc p).argv = none
  stackBase : (k.proc p).stackBase = none
  exitSem : (k.proc p).exitSem = some s

theorem Stripped.undisturbed {s : Addr} {k k' : Kernel} (h : Stripped k0 p s k)
    (hu : CallUndisturbed k0 k k') : Stripped k0 p s k' := by
  obtain ⟨-, -, hargv, hstack, hsem⟩ := hu.fields p
  exact { h.toCreating.undisturbed hu with
          argv := hargv.trans h.argv, stackBase := hstack.trans h.stackBase
          exitSem := hsem.trans h.exitSem }

theorem freeArgvAndStack_fields (k : Kernel) (p : Addr) :
    ((freeArgvAndStack k p).proc p).argv = none ∧ ((freeArgvAndStack k p).proc p).stackBase = none ∧
      ((freeArgvAndStack k p).proc p).exitSem = (k.proc p).exitSem := by
  rw [freeArgvAndStack_proc]
  exact ⟨rfl, rfl, rfl⟩

/-- Where nothing else is written the call is under way as before. -/
theorem Creating.of_object {k k' : Kernel} (h : Creating k0 p attached k)
    (hk : k' = { k with proc := k'.proc, live := k'.live, memCalls := k'.memCalls })
    (hother : ∀ q, q ≠ p → k'.proc q = k.proc q) (hpid : (k'.proc p).pid = (k.proc p).pid)
    (hsem : (k'.proc p).exitSem = (k.proc p).exitSem) (howned : Owned k0 k' p) :
    Creating k0 p attached k' := by
  refine h.of_surrounds (h.toSurrounds.congr ?_ ?_ ?_ ?_ ?_ (fun q hq => ?_) ?_ hpid howned) ?_ hsem
    fun s _ => ?_
  · rw [hk]
  · rw [hk]
  · rw [hk]
  · rw [hk]
  · rw [hk]
  · rw [hother q hq]
    exact .refl _
  · rw [hk]
  · rw [hk]
  · rw [hk]

theorem freeArgvAndStack_creating {k : Kernel} (h : Creating k0 p attached k) :
    Creating k0 p attached (freeArgvAndStack k p) := by
  have hfrees := freeArgvAndStack_frees k p
  refine h.of_object ?_ hfrees.other ?_ ?_ (freeArgvAndStack_owned h.owned)
  · rw [hfrees.kernel]
  · rw [freeArgvAndStack_proc]
  · rw [freeArgvAndStack_proc]

/-- The semaphore at `s` is written to. -/
theorem Emptied.modSem {s : Addr} {P Q : Sem → Prop} {k : Kernel} (h : Emptied k0 p (some s) P k)
    (f : Sem → Sem) (hf : P (k.sem s) → Q (f (k.sem s))) : Emptied k0 p (some s) Q (k.modSem s f) where
  toSurrounds := { h.toSurrounds with owned := h.owned.congr rfl rfl }
  argv := h.argv
  stackBase := h.stackBase
  exitSem := h.exitSem
  registered := h.registered
  sems t ht hne := (Function.update_of_ne (fun heq : t = s => hne (heq ▸ rfl)) ..).trans (h.sems t ht hne)
  sem t ht := by
    obtain rfl := Option.some.inj ht
    simpa [Kernel.modSem] using hf (h.sem s rfl)

/-- The part of `process_free_memory` after `sem_destroy`. -/
theorem rollsBack_processFreeRest (hparent : ∀ q, parent = some q → q ≠ p) :
    RollsBack k0 parent (fun x => Emptied k0 p e Sem.gone x.1) [.processFreeRest p]
      (fun x => Restored k0 x.1 parent) := by
  refine .simple (emptied_stable _) (by simp [callCode]) (fun _ _ => rfl) (fun _ _ => trivial) fun x h => ?_
  have hfrees := freeExitSemAndProcess_frees x.1 p
  have hlive := freeExitSemAndProcess_live h.owned h.argv h.stackBase
  simp only [callCode, exec]
  generalize freeExitSemAndProcess x.1 p = k' at hfrees hlive ⊢
  have hsem : k'.sem = x.1.sem := by rw [hfrees.kernel]
  refine { processes := ?_, processCount := ?_, foreground := ?_, attached := fun a => ?_, registered := ?_
           children := fun q hq => ?_, live := hlive, sems := fun s hs => ?_ }
  · rw [hfrees.kernel]
    exact h.processes
  · rw [hfrees.kernel]
    exact h.processCount
  · rw [hfrees.kernel]
    exact h.foreground
  · rw [hfrees.kernel]
    exact h.attached a
  · rw [hfrees.kernel]
    exact h.registered
  · rw [hfrees.other q (hparent q hq)]
    exact h.children q (hparent q hq)
  · rw [hsem]
    by_cases he : e = some s
    · exact .inr (h.sem s he)
    · exact .inl (h.sems s hs he)

/-- The semaphores of the registry are there, and its spin lock is free. -/
structure RegistryReady (k : Kernel) : Prop where
  live : ∀ s ∈ k.registeredSemaphores.getD [], k.live s ≠ none
  free : k.registryLock = false

/-- The exit semaphore leaves the registry. -/
theorem Stripped.unregister {k : Kernel} {s : Addr} (h : Stripped k0 p s k)
    (hregistry : RegistryReady k0) :
    Emptied k0 p (some s) (fun x => x.lock = false ∧ x.waitingProcesses.getD [] = [])
      (semUnregister k s) := by
  have hfree : k0.live s = none := h.owned.free s (by simp [Process.blocks, h.exitSem])
  have hnot : s ∉ k0.registeredSemaphores.getD [] := fun hm => hregistry.live s hm hfree
  refine { toSurrounds := { h.toSurrounds with registryLock := hregistry.free.symm, owned := h.owned.congr rfl rfl }
           argv := h.argv, stackBase := h.stackBase, exitSem := h.exitSem, registered := ?_
           sems := fun t ht hne => h.sems t ht (h.exitSem ▸ hne), sem := fun t ht => ?_ }
  · show (queueRemove k.registeredSemaphores s).2 = _
    rcases h.registered with heq | ⟨t, others, ht, hold, hnew⟩
    · -- its name was in use, or there was no memory for its entry
      rw [heq]
      cases hq : k0.registeredSemaphores with
      | none => rfl
      | some others =>
          rw [hq] at hnot
          exact congrArg some (List.erase_of_not_mem hnot)
    · -- its entry is the last one
      obtain rfl := Option.some.inj (h.exitSem.symm.trans ht)
      rw [hold, Option.getD_some] at hnot
      rw [hnew, hold]
      refine congrArg some ?_
      rw [List.erase_append_right _ hnot, List.erase_cons_head, List.append_nil]
  · obtain rfl := Option.some.inj ht
    obtain ⟨-, hlock, hwaiting⟩ := h.destroyable s h.exitSem
    exact ⟨hlock, hwaiting⟩

/-- The part of `sem_destroy` under `registry_lock`. -/
theorem rollsBack_semUnregister (hregistry : RegistryReady k0) {s : Addr} : RollsBack k0 parent
    (fun x => Stripped k0 p s (registryUnlock x.1)) [.semUnregister s]
    (fun x => Emptied k0 p (some s) (fun y => y.lock = false ∧ y.waitingProcesses.getD [] = []) x.1) :=
  .simple (fun _ _ h hb => h.undisturbed hb.1.unlocked) (by simp [callCode]) (fun _ _ => rfl)
    (fun _ _ => trivial) fun _ h => h.unregister hregistry

/-- `semLock` in `sem_destroy`: the lock is free, so that it does not spin. -/
theorem rollsBack_semLock {s : Addr} : RollsBack k0 parent
    (fun x => Emptied k0 p (some s) (fun y => y.lock = false ∧ y.waitingProcesses.getD [] = []) x.1)
    [.semLock s] (fun x => Emptied k0 p (some s) (fun y => y.waitingProcesses.getD [] = []) x.1) := by
  have hexec : ∀ x : Kernel × Regs,
      Emptied k0 p (some s) (fun y => y.lock = false ∧ y.waitingProcesses.getD [] = []) x.1 →
      exec x.1 x.2 (.semLock s) = { k := x.1.modSem s (fun y => { y with lock := true }), r := x.2 } := by
    intro x h
    simp [exec, (h.sem s rfl).1]
  refine .simple (emptied_stable _) (by simp [callCode]) (fun x h => ?_) (fun x h _ => (h.sem s rfl).1)
    fun x h => ?_
  · simp [callCode, hexec x h]
  · simp only [callCode, hexec x h]
    exact h.modSem (fun y => { y with lock := true }) fun hy => hy.2

/-- What `sem_destroy` does under it. -/
theorem rollsBack_semDestroyLocked {s : Addr} {P : Sem → Prop} : RollsBack k0 parent
    (fun x => Emptied k0 p (some s) P x.1) [.semDestroyLocked s]
    (fun x => Emptied k0 p (some s) Sem.gone x.1) := by
  refine .simple (emptied_stable _) (by simp [callCode]) (fun _ _ => rfl) (fun _ _ => trivial) fun x h => ?_
  have hgone : Emptied k0 p (some s) Sem.gone (x.1.modSem s destroyedSem) :=
    h.modSem destroyedSem fun _ => ⟨rfl, rfl⟩
  exact hgone.undisturbed (.of_outside (semDestroyBody_outside x.1 s))

/-- **`sem_destroy`** of the exit semaphore. -/
theorem rollsBack_semDestroy (hregistry : RegistryReady k0) {s : Addr} :
    RollsBack k0 parent (fun x => Stripped k0 p s x.1) [.semDestroy s]
      (fun x => Emptied k0 p (some s) Sem.gone x.1) := by
  refine .instr (fun _ _ h hb => h.undisturbed hb.1) (by simp [callCode]) fun x h =>
    ⟨h.destroyable s h.exitSem, ?_⟩
  have hcode : RollsBack k0 parent (fun x => Stripped k0 p s x.1)
      [.registryLock, .semUnregister s, .semLock s, .semDestroyLocked s]
      (fun x => Emptied k0 p (some s) Sem.gone x.1) := by
    refine .cons (rollsBack_registryLock (fun _ _ h hu => h.undisturbed hu)
      fun _ h => h.registryLock.trans hregistry.free) ?_
    exact .cons (rollsBack_semUnregister hregistry) (.cons rollsBack_semLock rollsBack_semDestroyLocked)
  exact hcode.start h

/-- **`process_free_memory`** once no pipe is attached any more. -/
theorem rollsBack_processFree (hparent : ∀ q, parent = some q → q ≠ p) (hregistry : RegistryReady k0) :
    RollsBack k0 parent (fun x => Creating k0 p [] x.1) [.processFreeMemory p]
      (fun x => Restored k0 x.1 parent) := by
  refine .instr creating_stable' (by simp [callCode]) fun x h => ⟨trivial, ?_⟩
  have hc := freeArgvAndStack_creating h
  obtain ⟨hargv, hstack, hsem⟩ := freeArgvAndStack_fields x.1 p
  simp only [callCode, exec]
  cases hexit : (x.1.proc p).exitSem with
  | none =>
      rw [hexit] at hsem
      have hempty : Emptied k0 p none Sem.gone (freeArgvAndStack x.1 p) := by
        refine { hc.toSurrounds with
                 argv := hargv, stackBase := hstack, exitSem := hsem, registered := ?_
                 sems := fun s hs hne => hc.sems s hs (hsem ▸ hne), sem := fun s hs => ?_ }
        · rcases hc.registered with heq | ⟨s, -, hs, -⟩
          · exact heq
          · rw [hsem] at hs
            cases hs
        · cases hs
      exact .start (rollsBack_processFreeRest hparent) hempty
  | some s =>
      rw [hexit] at hsem
      have hstripped : Stripped k0 p s (freeArgvAndStack x.1 p) := ⟨hc, hargv, hstack, hsem⟩
      exact .start (.cons (rollsBack_semDestroy hregistry) (rollsBack_processFreeRest hparent)) hstripped

/-- The return of `NULL`. -/
theorem rollsBack_createFailed (use : CreateUse) :
    RollsBack k0 parent (fun x => Restored k0 x.1 parent) [.createFailed use] (fun _ => True) := by
  refine .simple (fun _ _ h hb => h.undisturbed hb.1) (by simp [callCode]) (fun x _ => ?_)
    (fun _ h => h) fun _ _ => trivial
  cases use <;> rfl

/-- **Rollback**: from any point of the call at which it fails. -/
theorem rollsBack_all (hpipes : PipeSemsLive k0) (hpid : allocatePid k0 ≠ 0)
    (hparent : ∀ q, parent = some q → q ≠ p) (hregistry : RegistryReady k0) (use : CreateUse) :
    RollsBack k0 parent (fun x => Creating k0 p attached x.1)
      (attached.map (fun id => .unattachFromPipe id (allocatePid k0)) ++
        [.processFreeMemory p, .createFailed use]) (fun _ => True) := by
  induction attached with
  | nil => exact .cons (rollsBack_processFree hparent hregistry) (rollsBack_createFailed use)
  | cons id attached ih => exact .cons (rollsBack_unattach hpipes hpid id) ih

end Code

end TpSo
