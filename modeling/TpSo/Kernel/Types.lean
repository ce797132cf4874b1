import Mathlib.Algebra.Group.Nat.Hom
import Mathlib.Logic.Function.Basic

set_option autoImplicit false

/-! # The kernel's data

The objects of `Kernel/include/*.h` and the static variables of the kernel's translation units,
gathered in one record `Kernel`. Heap objects live in total maps from addresses (`proc`, `sem`,
`pipe`), so a stale pointer reads whatever the last object at its address left there, as it does in
C; `live` says which addresses are allocated, and for what. A `process_t *` known not to be `NULL` is an `Addr`,
one that may be `NULL` an `Option Addr`.

`mem_alloc` is abstracted by an oracle: the `n`-th call finds the address `memAnswers n`, or fails.
It never hands out an address that is still live. Every pattern of failures and every choice of
addresses is an oracle, so a statement about all oracles covers all heap states. -/

namespace TpSo

/-- An address of the kernel heap. -/
abbrev Addr := Nat

/-! ## Constants -/

def PROCESS_FIRST_PID : Nat := 1
def PROCESS_MAX_PROCESSES : Nat := 32
def SCHEDULER_DEFAULT_QUANTUM : Nat := 4
def SCHEDULER_MAX_PRIORITY : Nat := 0
def SCHEDULER_MIN_PRIORITY : Nat := 5
def SCHEDULER_PRIORITY_LEVELS : Nat := 6
def SCHEDULER_AGING_THRESHOLD : Nat := 32
def SHELL_PRIORITY_THRESHOLD : Nat := SCHEDULER_MAX_PRIORITY + 1
def MAX_PIPES : Nat := 100
def PIPE_BUFFER_SIZE : Nat := 1024
def STDIN : Nat := 0
def STDOUT : Nat := 1
def STDERR : Nat := 2
/-- The lowest address of the kernel image (`kernel.ld`), whose `heap` array `mem_alloc` divides. -/
def KERNEL_BASE : Nat := 0x100000

/-! ## Objects -/

/-- `process_state_t`. -/
inductive ProcessState
  | ready | running | blocked | terminated
  deriving DecidableEq, Repr

/-- What an allocated block holds. The code keeps no such record; it is here so that a run can be
    said to pass only handles of semaphores it opened. -/
inductive Block
  | process | semaphore | userSemaphore | pipe | bytes
  deriving DecidableEq

/-- The characters of a C string, without the terminator. -/
abbrev Name := List Char

/-- A queue object of `queueADT.c` seen through its interface: the list of its elements, head first;
    `none` is the `NULL` queue. -/
abbrev Queue (α : Type) := Option (List α)

/-- `process_t`. `rsp` is `context.rsp`; `argv` (the block of the vector and those of its strings)
    and `stackBase` are what `process_free_memory` gives back. -/
structure Process where
  pid : Nat := 0
  ppid : Nat := 0
  argv : Option (Addr × List (Option Addr)) := none
  userEntryPoint : Nat := 0
  fdTargets : Fin 3 → Nat := fun i => i.val
  state : ProcessState := .ready
  priority : Nat := 0
  priorityRequested : Nat := 0
  priorityFixed : Bool := false
  isShell : Bool := false
  rsp : Nat := 0
  remainingQuantum : Nat := 0
  lastQuantumTicks : Nat := 0
  readySinceTick : Nat := 0
  stackBase : Option Addr := none
  exitSem : Option Addr := none
  children : Queue Addr := none

/-- `sem_t`. `count` is a `uint32_t`: it is kept modulo `2 ^ 32` where it grows. -/
structure Sem where
  name : Option Name := none
  count : Nat := 0
  lock : Bool := false
  waitingProcesses : Queue Addr := none

/-- `struct pipe`. `attachedCount` is a `uint8_t`. -/
structure Pipe where
  id : Nat := 0
  buffer : Nat → UInt8 := fun _ => 0
  readIdx : Nat := 0
  writeIdx : Nat := 0
  dataCount : Nat := 0
  canRead : Addr := 0
  canWrite : Addr := 0
  mutex : Addr := 0
  attachedCount : Nat := 0
  waitingReaders : Nat := 0
  waitingWriters : Nat := 0

/-- `SleepingProcess`, with the address of its block: the queue holds pointers. -/
structure SleepingProcess where
  addr : Addr
  pid : Nat
  wakeTime : Nat
  deriving DecidableEq

/-- The whole kernel: heap, process table (`pcb`), scheduler, pipe table, semaphore registry,
    timer. -/
structure Kernel where
  proc : Addr → Process
  sem : Addr → Sem
  pipe : Addr → Pipe
  live : Addr → Option Block
  memAnswers : Nat → Option Addr
  memCalls : Nat
  processes : Nat → Option Addr
  processCount : Nat
  runningPid : Int
  foregroundPid : Int
  initPid : Int
  mainShellPid : Int
  shellCreated : Bool
  current : Option Addr
  idle : Option Addr
  readyQueues : Nat → Queue Addr
  totalTicks : Nat
  contextSwitches : Nat
  pipes : Nat → Option Addr
  nextPipeId : Nat
  registeredSemaphores : Queue Addr
  registryLock : Bool
  ticks : Nat
  sleepingQueue : Queue SleepingProcess
  /-- Bit 0 of the master PIC's mask: `timer_tick_is_disabled`. -/
  timerMasked : Bool

/-! ## Updates of one object -/

namespace Kernel

/-- Write to the process object at `p`. -/
def modProc (k : Kernel) (p : Addr) (f : Process → Process) : Kernel :=
  { k with proc := Function.update k.proc p (f (k.proc p)) }

/-- Write the state of a process. -/
def setState (k : Kernel) (p : Addr) (state : ProcessState) : Kernel :=
  k.modProc p (fun process => { process with state := state })

/-- Write the children queue of a process. -/
def setChildren (k : Kernel) (p : Addr) (children : Queue Addr) : Kernel :=
  k.modProc p (fun process => { process with children := children })

/-- Write to the semaphore object at `s`. -/
def modSem (k : Kernel) (s : Addr) (f : Sem → Sem) : Kernel :=
  { k with sem := Function.update k.sem s (f (k.sem s)) }

/-- Write to the pipe object at `a`. -/
def modPipe (k : Kernel) (a : Addr) (f : Pipe → Pipe) : Kernel :=
  { k with pipe := Function.update k.pipe a (f (k.pipe a)) }

/-- Write to the ready queue of level `i`. -/
def setReady (k : Kernel) (i : Nat) (q : Queue Addr) : Kernel :=
  { k with readyQueues := Function.update k.readyQueues i q }

/-! ## The allocator -/

/-- Does the next `mem_alloc` of a block whose address plays no part succeed? (Queue objects, queue
    nodes, names.) -/
def allocOk (k : Kernel) : Bool := (k.memAnswers k.memCalls).isSome

/-- The state after such a call, whatever its outcome. -/
def allocNext (k : Kernel) : Kernel := { k with memCalls := k.memCalls + 1 }

/-- The block at `a` is allocated. -/
def grant (k : Kernel) (a : Addr) (b : Block) : Kernel :=
  { k.allocNext with live := Function.update k.live a (some b) }

/-- `mem_alloc` of an object that is later named by its address. -/
def memAlloc (k : Kernel) (b : Block) : Option Addr × Kernel :=
  match k.memAnswers k.memCalls with
  | none => (none, k.allocNext)
  | some a =>
    if (k.live a).isSome ∨ a < KERNEL_BASE then (none, k.allocNext)
    else (some a, k.grant a b)

/-- `mem_free`: the block may be handed out again; its contents stay until then. -/
def memFree (k : Kernel) (a : Addr) : Kernel := { k with live := Function.update k.live a none }

end Kernel

/-! ## `queueADT.c` -/

section Queue
variable {α : Type}

/-- `queue_create`. -/
def queueCreate (α : Type) (k : Kernel) : Queue α × Kernel :=
  (if k.allocOk then some [] else none, k.allocNext)

/-- `queue_push`: appends, or fails and changes nothing when the queue is `NULL` or the node cannot
    be allocated. -/
def queuePush (k : Kernel) (q : Queue α) (x : α) : Bool × Queue α × Kernel :=
  match q with
  | none => (false, none, k)
  | some xs => if k.allocOk then (true, some (xs ++ [x]), k.allocNext) else (false, some xs, k.allocNext)

/-- `queue_pop`: the first element, or `NULL`. -/
def queuePop : Queue α → Option α × Queue α
  | none => (none, none)
  | some [] => (none, some [])
  | some (x :: xs) => (some x, some xs)

/-- `queue_remove`: deletes the first occurrence and says whether there was one. -/
def queueRemove [DecidableEq α] (q : Queue α) (x : α) : Bool × Queue α :=
  match q with
  | none => (false, none)
  | some xs => (decide (x ∈ xs), some (xs.erase x))

/-- `while (queue_remove(queue, x))`: no occurrence is left. -/
def queueRemoveAll [DecidableEq α] (q : Queue α) (x : α) : Queue α :=
  q.map (fun xs => xs.filter (fun y => decide (y ≠ x)))

/-- `queue_is_empty`: also true of `NULL`. -/
def queueIsEmpty (q : Queue α) : Bool := (q.getD []).isEmpty

/-- `queue_size`. -/
def queueSize (q : Queue α) : Nat := (q.getD []).length

end Queue

end TpSo
