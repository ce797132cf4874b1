import TpSo.Kernel.Scheduler
import Mathlib.Data.List.Count
import Mathlib.Data.List.Infix
import Mathlib.Order.Basic

set_option autoImplicit false

/-! # What the scheduler's queue operations do

One specification for each operation on the ready queues: which entries it moves, and that it
touches nothing outside the scheduler. -/

namespace TpSo

/-! ## What the scheduler owns -/

/-- A process without the fields the scheduler writes. -/
def Process.outside (p : Process) : Process :=
  { p with
    state := .ready, priority := 0, priorityRequested := 0, priorityFixed := false, rsp := 0
    remainingQuantum := 0, lastQuantumTicks := 0, readySinceTick := 0 }

/-- The kernel without what the scheduler writes; every function of `scheduler.c` leaves the rest
    alone, which is one equation for each of them. -/
def Kernel.outside (k : Kernel) : Kernel :=
  { k with
    proc := fun a => (k.proc a).outside
    memCalls := 0, runningPid := 0, current := none, readyQueues := fun _ => none, totalTicks := 0
    contextSwitches := 0 }

/-- The kernel without what the scheduler and `process_exit` write. -/
def Kernel.outer (k : Kernel) : Kernel :=
  { k.outside with proc := fun _ => {}, foregroundPid := 0 }

section Outside
variable {k k' : Kernel}

theorem outer_of_outside (h : k'.outside = k.outside) : k'.outer = k.outer := by
  unfold Kernel.outer
  rw [h]

theorem pid_of_outside (h : k'.outside = k.outside) (p : Addr) :
    (k'.proc p).pid = (k.proc p).pid :=
  show (k'.outside.proc p).pid = (k.outside.proc p).pid by rw [h]

theorem idle_of_outer (h : k'.outer = k.outer) : k'.idle = k.idle :=
  show k'.outer.idle = k.outer.idle by rw [h]

theorem live_of_outer (h : k'.outer = k.outer) : k'.live = k.live :=
  show k'.outer.live = k.outer.live by rw [h]

theorem processes_of_outer (h : k'.outer = k.outer) : k'.processes = k.processes :=
  show k'.outer.processes = k.outer.processes by rw [h]

theorem answers_of_outer (h : k'.outer = k.outer) : k'.memAnswers = k.memAnswers :=
  show k'.outer.memAnswers = k.outer.memAnswers by rw [h]

theorem answers_of_outside (h : k'.outside = k.outside) : k'.memAnswers = k.memAnswers :=
  answers_of_outer (outer_of_outside h)

theorem idle_of_outside (h : k'.outside = k.outside) : k'.idle = k.idle :=
  idle_of_outer (outer_of_outside h)

end Outside

/-- The entries of ready queue `i`, head first. -/
def entries (k : Kernel) (i : Nat) : List Addr := (k.readyQueues i).getD []

/-- A write that stays within the scheduler's own fields of one process. -/
theorem modProc_outside (k : Kernel) (p : Addr) (f : Process → Process)
    (hf : (f (k.proc p)).outside = (k.proc p).outside) : (k.modProc p f).outside = k.outside := by
  simp only [Kernel.outside, Kernel.modProc, Kernel.mk.injEq, and_true]
  funext a
  by_cases h : a = p
  · rw [h, Function.update_self, hf]
  · rw [Function.update_of_ne h]

/-- The same for a kernel in which only scheduler fields differ. -/
theorem outside_congr {k k' : Kernel} (hk : { k' with proc := k.proc }.outside = k.outside)
    (hp : ∀ p, (k'.proc p).outside = (k.proc p).outside) : k'.outside = k.outside := by
  rw [← hk]
  simp only [Kernel.outside, Kernel.mk.injEq, and_true]
  exact funext hp

@[simp] theorem setReady_outside (k : Kernel) (i : Nat) (q : Queue Addr) :
    (k.setReady i q).outside = k.outside := rfl

@[simp] theorem allocNext_outside (k : Kernel) : k.allocNext.outside = k.outside := rfl

/-! ## The allocator -/

/-- `mem_alloc` fails, or finds a block that was not allocated. -/
theorem memAlloc_cases (k : Kernel) (b : Block) :
    k.memAlloc b = (none, k.allocNext) ∨
    ∃ a, k.live a = none ∧ KERNEL_BASE ≤ a ∧
      k.memAlloc b = (some a, k.grant a b) := by
  unfold Kernel.memAlloc
  split
  · exact .inl rfl
  · next a _ =>
    split
    · exact .inl rfl
    · next h =>
      rw [not_or, Bool.not_eq_true, Option.isSome_eq_false_iff, Option.isNone_iff_eq_none,
        Nat.not_lt] at h
      exact .inr ⟨a, h.1, h.2, rfl⟩

/-! ## Single queues -/

section Queue
variable {α : Type}

/-- `queue_push` consumes at most one answer of the allocator and changes nothing else. -/
theorem queuePush_kernel (k : Kernel) (q : Queue α) (x : α) :
    (queuePush k q x).2.2 = { k with memCalls := (queuePush k q x).2.2.memCalls } := by
  unfold queuePush
  cases q with
  | none => rfl
  | some xs => dsimp only; split <;> rfl

/-- `queue_push` appends its element or leaves the queue as it was. -/
theorem queuePush_queue (k : Kernel) (q : Queue α) (x : α) :
    (queuePush k q x).2.1 = q ∨ ∃ xs, q = some xs ∧ (queuePush k q x).2.1 = some (xs ++ [x]) := by
  unfold queuePush
  cases q with
  | none => exact .inl rfl
  | some xs =>
      dsimp only
      split
      · exact .inr ⟨xs, rfl, rfl⟩
      · exact .inl rfl

/-- When the node can be allocated, `queue_push` on an existing queue appends. -/
theorem queuePush_ok (k : Kernel) (xs : List α) (x : α) (h : k.allocOk = true) :
    queuePush k (some xs) x = (true, some (xs ++ [x]), k.allocNext) := by
  simp only [queuePush, h, if_true]

/-- When the node cannot be allocated, `queue_push` only reports it. -/
theorem queuePush_fail (k : Kernel) (xs : List α) (x : α) (h : k.allocOk = false) :
    queuePush k (some xs) x = (false, some xs, k.allocNext) := by
  simp only [queuePush, h, Bool.false_eq_true, if_false]

/-- `queue_pop` splits a queue into its head and the rest. -/
theorem queuePop_cases (q : Queue α) :
    ((queuePop q).1 = none ∧ (queuePop q).2 = q ∧ q.getD [] = []) ∨
      ∃ x xs, q = some (x :: xs) ∧ queuePop q = (some x, some xs) := by
  match q with
  | none => exact .inl ⟨rfl, rfl, rfl⟩
  | some [] => exact .inl ⟨rfl, rfl, rfl⟩
  | some (x :: xs) => exact .inr ⟨x, xs, rfl, rfl⟩

end Queue

/-! ## Ready queues -/

@[simp] theorem entries_setReady (k : Kernel) (i j : Nat) (q : Queue Addr) :
    entries (k.setReady i q) j = if j = i then q.getD [] else entries k j := by
  simp only [entries, Kernel.setReady, Function.update_apply]
  split <;> rfl

@[simp] theorem entries_modProc (k : Kernel) (p : Addr) (f : Process → Process) (i : Nat) :
    entries (k.modProc p f) i = entries k i := rfl

/-- A queue pushed onto and stored at level `i`. -/
theorem entries_queuePush (k : Kernel) (i : Nat) (xs : List Addr) (p : Addr) :
    (∀ j, entries ((queuePush k (some xs) p).2.2.setReady i (queuePush k (some xs) p).2.1) j =
      if j = i then xs else entries k j) ∨
    ∀ j, entries ((queuePush k (some xs) p).2.2.setReady i (queuePush k (some xs) p).2.1) j =
      if j = i then xs ++ [p] else entries k j := by
  cases hok : k.allocOk with
  | true =>
      refine .inr fun j => ?_
      rw [queuePush_ok k xs p hok, entries_setReady]
      rfl
  | false =>
      refine .inl fun j => ?_
      rw [queuePush_fail k xs p hok, entries_setReady]
      rfl

/-- What separates two kernels that differ in their ready queues and the allocator's position. -/
def SameButQueues (k k' : Kernel) : Prop :=
  k' = { k with readyQueues := k'.readyQueues, memCalls := k'.memCalls }

namespace SameButQueues

variable {k k' k'' : Kernel}

theorem refl (k : Kernel) : SameButQueues k k := rfl

theorem trans (h : SameButQueues k k') (h' : SameButQueues k' k'') : SameButQueues k k'' := by
  unfold SameButQueues at *
  rw [h', h]

theorem proc (h : SameButQueues k k') : k'.proc = k.proc := by rw [h]
theorem idle (h : SameButQueues k k') : k'.idle = k.idle := by rw [h]
theorem current (h : SameButQueues k k') : k'.current = k.current := by rw [h]
theorem outside (h : SameButQueues k k') : k'.outside = k.outside := by rw [h]; rfl
theorem totalTicks (h : SameButQueues k k') : k'.totalTicks = k.totalTicks := by rw [h]
theorem runningPid (h : SameButQueues k k') : k'.runningPid = k.runningPid := by rw [h]

theorem setReady (k : Kernel) (i : Nat) (q : Queue Addr) : SameButQueues k (k.setReady i q) := rfl

end SameButQueues

theorem queueForPriority_same (k : Kernel) (priority : Nat) :
    SameButQueues k (queueForPriority k priority) := by
  unfold queueForPriority
  split <;> rfl

@[simp] theorem entries_queueForPriority (k : Kernel) (priority i : Nat) :
    entries (queueForPriority k priority) i = entries k i := by
  unfold queueForPriority
  split
  · rfl
  · next h =>
    rw [entries_setReady]
    split
    · next hi =>
      rw [entries, hi, h]
      unfold queueCreate
      split <;> rfl
    · rfl

theorem pushReady_same (k : Kernel) (priority : Nat) (process : Addr) :
    SameButQueues k (pushReady k priority process) := by
  refine (queueForPriority_same k priority).trans ?_
  unfold pushReady
  dsimp only
  rw [queuePush_kernel]
  rfl

/-- `queue_for_priority` makes sure that the level has a queue unless it cannot be created. -/
theorem queueForPriority_some {k : Kernel} {priority : Nat} {xs : List Addr}
    (h : (queueForPriority k priority).readyQueues (priorityIndex priority) = some xs) :
    xs = entries k (priorityIndex priority) := by
  rw [← entries_queueForPriority k priority, entries, h]
  rfl

/-- `pushReady` appends the process to the queue of the level, or moves nothing. -/
theorem entries_pushReady (k : Kernel) (priority : Nat) (process : Addr) :
    (∀ i, entries (pushReady k priority process) i = entries k i) ∨
    ∀ i, entries (pushReady k priority process) i =
      if i = priorityIndex priority then entries k i ++ [process] else entries k i := by
  unfold pushReady
  dsimp only
  cases hq : (queueForPriority k priority).readyQueues (priorityIndex priority) with
  | none =>
      refine .inl fun i => ?_
      rw [queuePush, entries_setReady, entries_queueForPriority]
      split
      · next hi => rw [hi, ← entries_queueForPriority k priority, entries, hq]
      · rfl
  | some xs =>
      have hxs := queueForPriority_some hq
      rcases entries_queuePush (queueForPriority k priority) (priorityIndex priority) xs process with
        h | h
      · refine .inl fun i => ?_
        rw [h i, entries_queueForPriority]
        split
        · next hi => rw [hi, hxs]
        · rfl
      · refine .inr fun i => ?_
        rw [h i, entries_queueForPriority]
        split
        · next hi => rw [hi, hxs]
        · rfl

end TpSo
