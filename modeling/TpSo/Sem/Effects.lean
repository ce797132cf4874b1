import TpSo.Machine.SchedActs

set_option autoImplicit false

/-! # What the semaphore operations do

Each of `sem_wait`, `sem_post` and `sem_destroy` writes to its own semaphore and to the scheduler's
data. This module says what the semaphore becomes. -/

namespace TpSo

/-- The entries of a semaphore's waiting queue. -/
def waiters (k : Kernel) (s : Addr) : List Addr := (k.sem s).waitingProcesses.getD []

theorem sem_of_outside {k k' : Kernel} (h : k'.outside = k.outside) : k'.sem = k.sem :=
  show k'.outside.sem = k.outside.sem by rw [h]

theorem modSem_outside {k k' : Kernel} (h : k'.outside = k.outside) (s : Addr) (f : Sem → Sem) :
    (k'.modSem s f).outside = (k.modSem s f).outside := by
  unfold Kernel.modSem
  rw [sem_of_outside h]
  show { k'.outside with sem := Function.update k.sem s (f (k.sem s)) } = _
  rw [h]
  rfl

theorem modSem_modSem (k : Kernel) (s : Addr) (f g : Sem → Sem) :
    (k.modSem s f).modSem s g = k.modSem s (fun x => g (f x)) := by
  unfold Kernel.modSem
  simp only [Function.update_self, Function.update_idem]

/-- Only the value written matters. -/
theorem modSem_congr (k : Kernel) (s : Addr) {f g : Sem → Sem} (h : f (k.sem s) = g (k.sem s)) :
    k.modSem s f = k.modSem s g := by
  unfold Kernel.modSem
  rw [h]

/-! ## `sem_wait` -/

/-- The semaphore after the part of `sem_wait` under its lock. -/
def waitedSem (k : Kernel) (s : Addr) : Sem :=
  if (k.sem s).count > 0 then (k.sem s).takeToken
  else
    match k.current with
    | none => { k.sem s with lock := false }
    | some c =>
      { k.sem s with
        waitingProcesses := (queuePush k (k.sem s).waitingProcesses c).2.1, lock := false }

theorem enqueueWaiter_outside (k : Kernel) (s c : Addr) : (enqueueWaiter k s c).outside =
    (k.modSem s fun x =>
      { x with waitingProcesses := (queuePush k (k.sem s).waitingProcesses c).2.1 }).outside := by
  unfold enqueueWaiter
  dsimp only
  refine modSem_outside ?_ s _
  rw [queuePush_kernel]
  rfl

theorem semWaitBody_outside (k : Kernel) (s : Addr) :
    (semWaitBody k s).2.2.outside = (k.modSem s fun _ => waitedSem k s).outside := by
  unfold semWaitBody waitedSem
  by_cases hcount : (k.sem s).count > 0
  · simp only [if_pos hcount]
    rfl
  · simp only [if_neg hcount]
    cases hc : k.current with
    | none => rfl
    | some c =>
        have hblock := processBlock_outside (enqueueWaiter k s c) c
        have hunlock := modSem_outside (hblock.trans (enqueueWaiter_outside k s c)) s
          (fun x => { x with lock := false })
        refine hunlock.trans ?_
        rw [modSem_modSem]
        exact congrArg Kernel.outside (modSem_congr k s rfl)

/-! ## `sem_post` -/

/-- The semaphore after the part of `sem_post` under its lock: the first `BLOCKED` waiter is woken
    and those before it are dropped; without one the count grows. -/
def postedSem (k : Kernel) (s : Addr) : Sem :=
  match firstBlocked k (waiters k s) with
  | some _ =>
    { k.sem s with waitingProcesses := some (afterFirstBlocked k (waiters k s)), lock := false }
  | none => { k.sem s with waitingProcesses := (k.sem s).waitingProcesses.map fun _ => [] }.addToken

theorem firstBlocked_state {k : Kernel} {ws : List Addr} {w : Addr}
    (h : firstBlocked k ws = some w) : (k.proc w).state = .blocked := by
  simpa using List.find?_some h

/-- The loop of `sem_post` only touches the scheduler. -/
theorem wakeOne_outside (k : Kernel) (ws : List Addr) : (wakeOne k ws).2.2.outside = k.outside := by
  rw [wakeOne_eq]
  split
  · next w _ => exact schedulerAddReady_outside k w
  · rfl

theorem semPostBody_fst (k : Kernel) (s : Addr) :
    (semPostBody k s).1 = (firstBlocked k (waiters k s)).isSome := by
  unfold semPostBody waiters
  cases (k.sem s).waitingProcesses with
  | none => rfl
  | some ws =>
      dsimp only
      rw [wakeOne_eq, Option.getD_some]
      cases firstBlocked k ws <;> rfl

theorem semPostBody_outside (k : Kernel) (s : Addr) :
    (semPostBody k s).2.outside = (k.modSem s fun _ => postedSem k s).outside := by
  unfold semPostBody postedSem waiters
  cases hq : (k.sem s).waitingProcesses with
  | none =>
      rw [Option.getD_none, firstBlocked, List.find?_nil]
      refine congrArg Kernel.outside (modSem_congr k s ?_)
      rw [Option.map_none, ← hq]
  | some ws =>
      have hwake := modSem_outside (wakeOne_outside k ws) s
      rw [Option.getD_some]
      dsimp only
      cases hf : firstBlocked k ws with
      | none =>
          rw [wakeOne_eq, hf]
          dsimp only
          rw [if_neg (by decide), modSem_modSem]
          refine congrArg Kernel.outside (modSem_congr k s ?_)
          rfl
      | some w =>
          rw [wakeOne_eq, hf] at hwake ⊢
          dsimp only
          rw [if_pos rfl]
          unfold semUnlock
          rw [modSem_modSem]
          refine (hwake _).trans ?_
          exact congrArg Kernel.outside (modSem_congr k s rfl)

/-! ## `sem_destroy` -/

/-- The semaphore after the part of `sem_destroy` under its lock. -/
def destroyedSem (x : Sem) : Sem :=
  { x with waitingProcesses := none, count := 0, lock := false, name := none }

theorem unblockAll_outside (ws : List Addr) :
    ∀ k : Kernel, (ws.foldl (fun k p => (processUnblock k p).2) k).outside = k.outside := by
  induction ws with
  | nil => exact fun _ => rfl
  | cons w rest ih =>
      intro k
      rw [List.foldl_cons, ih, processUnblock_outside k w]

theorem semDestroyBody_outside (k : Kernel) (s : Addr) :
    (semDestroyBody k s).outside = (k.modSem s destroyedSem).outside :=
  modSem_outside (unblockAll_outside _ k) s destroyedSem

end TpSo
