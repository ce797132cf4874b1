import TpSo.Machine.Objects

set_option autoImplicit false

/-! # Waiting queues along an execution

A semaphore's waiting queue holds process pointers. Only `sem_wait` adds to one; `exec_waiters` says
so for every instruction. -/

namespace TpSo

/-! ## Waiting queues -/

/-- No waiting queue has gained an entry. -/
def FewerWaiters (k k' : Kernel) : Prop := ∀ s, (waiters k' s).Sublist (waiters k s)

namespace FewerWaiters

variable {k k' k'' : Kernel}

theorem of_sem (h : k'.sem = k.sem) : FewerWaiters k k' := by
  intro s
  unfold waiters
  rw [h]

theorem trans (h : FewerWaiters k k') (h' : FewerWaiters k' k'') : FewerWaiters k k'' := fun s =>
  (h' s).trans (h s)

/-- A write to one semaphore that adds no waiter. -/
theorem modSem (k : Kernel) (s : Addr) (f : Sem → Sem)
    (hf : ((f (k.sem s)).waitingProcesses.getD []).Sublist (waiters k s)) : FewerWaiters k (k.modSem s f) := by
  intro t
  unfold waiters Kernel.modSem
  by_cases ht : t = s
  · subst ht
    simpa [waiters] using hf
  · simp [Function.update_of_ne ht]

/-- A write that leaves the waiting queue alone. -/
theorem modSem_same (k : Kernel) (s : Addr) (f : Sem → Sem)
    (hf : (f (k.sem s)).waitingProcesses = (k.sem s).waitingProcesses) :
    FewerWaiters k (k.modSem s f) :=
  .modSem k s f (by rw [hf]; exact List.Sublist.refl _)

theorem of_outside (h : k'.outside = k.outside) : FewerWaiters k k' := .of_sem (sem_of_outside h)

end FewerWaiters

theorem afterFirstBlocked_sublist (k : Kernel) (ws : List Addr) :
    (afterFirstBlocked k ws).Sublist ws := by
  induction ws with
  | nil => exact List.Sublist.refl _
  | cons w rest ih =>
      unfold afterFirstBlocked
      split
      · exact List.sublist_cons_self w rest
      · exact ih.trans (List.sublist_cons_self w rest)

theorem semPostBody_waiters (k : Kernel) (s : Addr) : FewerWaiters k (semPostBody k s).2 := by
  refine FewerWaiters.trans (.modSem k s (fun _ => postedSem k s) ?_)
    (.of_outside (semPostBody_outside k s))
  unfold postedSem
  split
  · exact afterFirstBlocked_sublist k _
  · cases (k.sem s).waitingProcesses <;> simp [Sem.addToken]

theorem semDestroyBody_waiters (k : Kernel) (s : Addr) : FewerWaiters k (semDestroyBody k s) :=
  FewerWaiters.trans (.modSem k s destroyedSem (List.nil_sublist _))
    (.of_outside (semDestroyBody_outside k s))

/-- `sem_wait` adds the current process, and nobody else. -/
theorem semWaitBody_waiters {k : Kernel} {s t p : Addr} (h : p ∈ waiters (semWaitBody k s).2.2 t) :
    p ∈ waiters k t ∨ t = s ∧ (k.sem s).count = 0 ∧ k.current = some p := by
  unfold waiters at h ⊢
  rw [sem_of_outside (semWaitBody_outside k s)] at h
  by_cases ht : t = s
  · subst ht
    simp only [Kernel.modSem, Function.update_self, waitedSem] at h
    split at h
    · exact .inl h
    · next hcount =>
      split at h
      · exact .inl h
      · next c hc =>
        rcases queuePush_queue k (k.sem t).waitingProcesses c with hq | ⟨xs, hxs, hq⟩
        · exact .inl (hq ▸ h)
        · simp only [hq, Option.getD_some, List.mem_append, List.mem_singleton] at h
          rcases h with h | rfl
          · exact .inl (by simpa [hxs] using h)
          · exact .inr ⟨rfl, by omega, hc⟩
  · simp only [Kernel.modSem, Function.update_of_ne ht] at h
    exact .inl h

theorem registerSem_waiters (k : Kernel) (s : Addr) (name : Name) :
    FewerWaiters k (registerSem k s name) :=
  .of_sem (registerSem_sem k s name)

theorem ensureRegistry_waiters (k : Kernel) : FewerWaiters k (ensureRegistry k) := by
  unfold ensureRegistry
  split <;> exact .of_sem rfl

/-- A new semaphore has no waiters. -/
theorem semInitFields_waiters (k : Kernel) (s : Addr) (name : Name) (count : Nat) :
    FewerWaiters k (semInitFields k s name count).2 := by
  unfold semInitFields
  dsimp only
  refine (ensureRegistry_waiters k).trans ?_
  split
  · refine FewerWaiters.trans (.of_sem rfl) (.modSem _ s _ ?_)
    unfold queueCreate Sem.start
    split <;> exact List.nil_sublist _
  · have hname : FewerWaiters (ensureRegistry k).allocNext
        ((ensureRegistry k).allocNext.modSem s fun t => { t with name := none }) :=
      .modSem_same _ s _ rfl
    exact FewerWaiters.trans (.of_sem rfl) hname

theorem semInit_waiters (k : Kernel) (s : Addr) (name : Name) (count : Nat) :
    FewerWaiters k (semInit k s name count) := by
  have hfields := semInitFields_waiters k s name count
  unfold semInit
  dsimp only
  split
  · exact hfields.trans (registerSem_waiters _ s name)
  · exact hfields

theorem openPipeCode_waiters (k : Kernel) (r : Regs) : FewerWaiters k (openPipeCode k r).k := by
  unfold openPipeCode
  dsimp only
  split
  · exact .of_sem rfl
  · rcases memAlloc_cases k .pipe with h | ⟨pipe, -, -, h⟩ <;> rw [h] <;> dsimp only
    · exact .of_sem rfl
    · set k1 := k.grant pipe .pipe
      have h1 : FewerWaiters k k1 := .of_sem rfl
      rcases memAlloc_cases k1 .semaphore with h | ⟨s, -, -, h⟩ <;> rw [h] <;> dsimp only
      · exact .of_sem rfl
      · set k2 := semInit (k1.grant s .semaphore) s (semName k.nextPipeId 'R') 0
        have h2 : FewerWaiters k k2 := h1.trans (.trans (.of_sem rfl) (semInit_waiters _ s _ 0))
        split
        · exact .of_sem rfl
        rcases memAlloc_cases k2 .semaphore with h | ⟨t, -, -, h⟩ <;> rw [h] <;> dsimp only
        · exact h2.trans (.of_sem rfl)
        · set k3 := semInit (k2.grant t .semaphore) t (semName k.nextPipeId 'W') 0
          have h3 : FewerWaiters k k3 := h2.trans (.trans (.of_sem rfl) (semInit_waiters _ t _ 0))
          split
          · exact .of_sem rfl
          rcases memAlloc_cases k3 .semaphore with h | ⟨u, -, -, h⟩ <;> rw [h] <;> dsimp only
          · exact h3.trans (.of_sem rfl)
          split
          · exact .of_sem rfl
          · have h4 := h3.trans
              (.trans (.of_sem rfl) (semInit_waiters (k3.grant u .semaphore) u
                (semName k.nextPipeId 'M') 1))
            exact h4.trans (.of_sem rfl)

theorem buildProcess_waiters (k : Kernel) (p pid : Nat) (args : CreateArgs) :
    FewerWaiters k (buildProcess k p pid args).2 := by
  have hargv : ∀ k : Kernel, FewerWaiters k (allocArgv k p args.argc).2 := by
    intro k
    unfold allocArgv
    rcases memAlloc_cases k .bytes with h | ⟨a, -, -, h⟩ <;> rw [h]
    · exact .of_sem rfl
    · refine .of_sem ?_
      show (allocArgs _ _ _).2.2.sem = _
      rw [allocArgs_kernel]
      rfl
  have hstack : ∀ k : Kernel, FewerWaiters k (allocStack k p).2 := by
    intro k
    unfold allocStack
    rcases memAlloc_cases k .bytes with h | ⟨a, -, -, h⟩ <;> rw [h] <;> exact .of_sem rfl
  have hsem : ∀ k : Kernel, FewerWaiters k (allocExitSem k p pid).2 := by
    intro k
    unfold allocExitSem
    rcases memAlloc_cases k .semaphore with h | ⟨s, -, -, h⟩ <;> rw [h]
    · exact .of_sem rfl
    · exact FewerWaiters.trans (.of_sem rfl) (semInitFields_waiters _ s _ 0)
  unfold buildProcess
  dsimp only
  split
  · exact .of_sem rfl
  · set k1 := (k.modProc p (fun _ => newProcess pid args)).modProc p _ with hk1
    have h1 : FewerWaiters k k1 := .of_sem rfl
    have h2 := h1.trans (hargv k1)
    split
    · exact h2
    · have h3 := h2.trans (hstack (allocArgv k1 p args.argc).2)
      split
      · exact h3
      · exact h3.trans (hsem _)

theorem createProcessCode_waiters (k : Kernel) (r : Regs) (args : CreateArgs) (use : CreateUse) :
    FewerWaiters k (createProcessCode k r args use).k := by
  unfold createProcessCode
  split
  · exact .of_sem rfl
  · split
    · exact .of_sem rfl
    · dsimp only
      rcases memAlloc_cases k .process with h | ⟨p, -, -, h⟩ <;> rw [h]
      · exact .of_sem rfl
      · have hb : FewerWaiters k (buildProcess (k.grant p .process) p (allocatePid k) args).2 :=
          FewerWaiters.trans (.of_sem rfl) (buildProcess_waiters _ p _ args)
        dsimp only
        split <;> exact hb

theorem semOpen_waiters (k : Kernel) (r : Regs) (name : Name) (count : Nat) (create : Bool) :
    FewerWaiters k (sysCode k r (.semOpen name count create)).k := by
  simp only [sysCode]
  split
  · exact .of_sem rfl
  split
  · exact .of_sem rfl
  · split
    · exact .of_sem rfl
    · rcases memAlloc_cases k .userSemaphore with h | ⟨s, -, -, h⟩ <;> rw [h]
      · exact .of_sem rfl
      · exact FewerWaiters.trans (.of_sem rfl) (semInit_waiters _ s name count)

theorem semUnlock_waiters (k : Kernel) (s : Addr) : FewerWaiters k (semUnlock k s) :=
  .modSem_same k s (fun x => { x with lock := false }) rfl

theorem semRemoveProcess_waiters (k : Kernel) (s : Addr) (pid : Nat) :
    FewerWaiters k (semRemoveProcess k s pid) := by
  refine .modSem k s _ ?_
  unfold waiters
  cases (k.sem s).waitingProcesses with
  | none => exact List.Sublist.refl _
  | some ws => exact List.erase_sublist

/-- The instruction is a `sem_wait` that puts the process `p` into the waiting queue of `s`. -/
def WaitsOn (k : Kernel) (i : Instr) (s p : Addr) : Prop :=
  i = .semWaitLocked s ∧ (k.sem s).count = 0 ∧ k.current = some p

/-- Whoever waits is `BLOCKED` at first. -/
theorem semWait_blocked {k : Kernel} {s p : Addr} (r : Regs) (hcount : (k.sem s).count = 0)
    (hc : k.current = some p) : ((exec k r (.semWaitLocked s)).k.proc p).state = .blocked := by
  simp only [exec, semWaitBody, hcount, hc, gt_iff_lt, Nat.lt_irrefl, if_false]
  exact processBlock_blocked _ _

/-- All code but that of `sem_wait` leaves the waiting queues with no new entries. -/
theorem exec_fewerWaiters (k : Kernel) (r : Regs) {i : Instr} (hi : ∀ t, i ≠ .semWaitLocked t) :
    FewerWaiters k (exec k r i).k := by
  by_cases ho : i.touchesObjects = false
  · exact .of_sem (exec_sameObjects k r ho).sem
  · cases i
    all_goals first
      | exact absurd rfl ho
      | exact .of_sem rfl
      | skip
    case semLock t =>
        simp only [exec]
        split
        · exact .of_sem rfl
        · exact .modSem_same k t (fun x => { x with lock := true }) rfl
    case semWaitLocked t => exact absurd rfl (hi t)
    case semPostLocked t => exact semPostBody_waiters k t
    case semDestroyLocked t => exact semDestroyBody_waiters k t
    case semReadValue t value => exact semUnlock_waiters k t
    case semStoreValue t value =>
        exact .modSem_same k t (fun x => { x with count := value, lock := false }) rfl
    -- `unattach_from_pipe` takes the process out of the queues of both ends
    case unattachFromPipe id pid =>
        simp only [exec]
        split
        · exact .of_sem rfl
        · split
          · exact .of_sem rfl
          · exact (semRemoveProcess_waiters k _ pid).trans (semRemoveProcess_waiters _ _ pid)
    case closeReaders id pipe attached => exact semUnlock_waiters k _
    case closeWriters id pipe attached readers => exact semUnlock_waiters k _
    case openPipe => exact openPipeCode_waiters k r
    case readLocked pipe bytes done =>
        simp only [exec]
        repeat' split
        all_goals exact .of_sem rfl
    case writeLocked pipe bytes written =>
        simp only [exec]
        split <;> exact .of_sem rfl
    case clearCount pipe => exact semUnlock_waiters k _
    case exitSemPost p =>
        simp only [exec]
        split
        · exact .of_sem rfl
        · next t _ => exact semPostBody_waiters k t
    case createProcess args use => exact createProcessCode_waiters k r args use
    case sys c =>
        cases c <;> try exact absurd rfl ho
        exact semOpen_waiters k r _ _ _

/-- **Every instruction** leaves the waiting queues with no new entries, but for the current process
    where it is a `sem_wait` without a token. -/
theorem exec_waiters {k : Kernel} {r : Regs} {i : Instr} {s p : Addr}
    (h : p ∈ waiters (exec k r i).k s) : p ∈ waiters k s ∨ WaitsOn k i s p := by
  by_cases hi : ∃ t, i = .semWaitLocked t
  · obtain ⟨t, rfl⟩ := hi
    rcases semWaitBody_waiters h with h | ⟨rfl, hcount, hc⟩
    · exact .inl h
    · exact .inr ⟨rfl, hcount, hc⟩
  · exact .inl ((exec_fewerWaiters k r (fun t ht => hi ⟨t, ht⟩) s).subset h)

/-- A waiting queue into which nobody is put. -/
theorem exec_waiters_sublist {k : Kernel} (r : Regs) {i : Instr} {s : Addr}
    (h : ∀ p, ¬ WaitsOn k i s p) : (waiters (exec k r i).k s).Sublist (waiters k s) := by
  by_cases hi : ∃ t, i = .semWaitLocked t
  · obtain ⟨t, rfl⟩ := hi
    unfold waiters
    rw [show (exec k r (.semWaitLocked t)).k.sem = _ from sem_of_outside (semWaitBody_outside k t)]
    by_cases hst : s = t
    · subst hst
      simp only [Kernel.modSem, Function.update_self, waitedSem]
      split
      · exact List.Sublist.refl _
      · next hcount =>
        cases hc : k.current with
        | none => exact List.Sublist.refl _
        | some p => exact absurd ⟨rfl, by omega, hc⟩ (h p)
    · simp [Kernel.modSem, Function.update_of_ne hst]
  · exact exec_fewerWaiters k r (fun t ht => hi ⟨t, ht⟩) s

end TpSo
