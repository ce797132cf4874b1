import TpSo.Kernel.Exec

set_option autoImplicit false

/-! # The machine: one processor, its stacks and its interrupts

A stack is named by the address of the process it was allocated for; stack 0 is the one `main` runs
on. A saved stack pointer (`context.rsp`) is the name of its stack. Each stack holds a thread: `sys`
is what it still executes of an interrupt handler (`int 0x80`, the keyboard or an exception), where
the interrupt gate has cleared `IF`; `base` is what it executes below that, with `IF` set. So
interrupts are enabled exactly when `sys` of the running stack is empty, and kernel code reached
through a gate gives the processor away only at `int 0x20`. -/

namespace TpSo

/-- The code on one stack. -/
structure Thread where
  sys : List Instr := []
  base : List Instr := [.hlt]
  regs : Regs := {}

/-- What a keyboard interrupt can do to the kernel: type a byte into `STDIN`, or Ctrl+C. -/
inductive Key
  | char (byte : UInt8)
  | ctrlC

/-- The kernel with its stacks, the stack the processor is on, and the trace (newest first). -/
structure Machine where
  k : Kernel
  threads : Addr → Thread
  cpu : Addr
  log : List Event

/-- What happens next. -/
inductive Action
  /-- The running thread executes its next stretch of code. -/
  | exec
  /-- User code makes a system call. -/
  | syscall (c : Syscall)
  /-- The entry function of the running process returns. -/
  | ret
  /-- User code raises an exception (`divzero`, `invop`). -/
  | exception
  /-- A timer tick. -/
  | tick
  /-- A keyboard interrupt. -/
  | key (e : Key)

namespace Machine

/-- The thread the processor is on. -/
def thread (m : Machine) : Thread := m.threads m.cpu

/-- `IF`. -/
def interruptsEnabled (m : Machine) : Bool := m.thread.sys.isEmpty

/-- Write to the running thread. -/
def setThread (m : Machine) (t : Thread) : Machine :=
  { m with threads := Function.update m.threads m.cpu t }

/-- The instruction the processor is at, if it is not waiting for an interrupt. -/
def next (m : Machine) : Option Instr :=
  match m.thread.sys, m.thread.base with
  | i :: _, _ => some i
  | [], i :: _ => some i
  | [], [] => none

/-- The running thread without that instruction, continued by `code`. -/
def advance (m : Machine) (code : List Instr) : Thread :=
  match m.thread.sys, m.thread.base with
  | _ :: sys, base => { m.thread with sys := code ++ sys, base := base }
  | [], base => { m.thread with base := code ++ base.tail }

/-- Timer interrupt, forced or not: `schedule_tick` picks the stack to continue on. -/
def schedule (m : Machine) : Machine :=
  { m with k := (scheduleTick m.k m.cpu).2, cpu := (scheduleTick m.k m.cpu).1 }

/-- Start the stack prepared by `stackInit`. -/
def spawn (threads : Addr → Thread) (s : Option (Addr × List Instr)) : Addr → Thread :=
  match s with
  | none => threads
  | some (p, code) => Function.update threads p { base := code }

/-- Execute the instruction `i` the processor is at. -/
def execInstr (m : Machine) (i : Instr) : Machine :=
  match i with
  | .int20 => (m.setThread (m.advance [])).schedule
  | i =>
    let o := exec m.k m.thread.regs i
    { m.setThread { m.advance o.code with regs := o.r } with
      k := o.k
      log := o.events ++ m.log
      threads := spawn (m.setThread { m.advance o.code with regs := o.r }).threads o.spawn }

/-- Enter a handler through an interrupt gate. -/
def enter (m : Machine) (code : List Instr) : Machine := m.setThread { m.thread with sys := code }

/-- `printExceptionData` and what follows it, for the process that raised the exception. -/
def exceptionCode (k : Kernel) : List Instr :=
  match processLookup k (getPid k).toNat with
  | none => [.excMask true, .excMask false, .int20, .yieldForever]
  | some current =>
    [.excMask true, .excRead current, .excMask false, .processExit current, .int20, .yieldForever]

/-- `keyboardHandler` as far as processes and pipes are concerned. -/
def keyCode (k : Kernel) : Key → List Instr
  | .char byte => [.writePipe STDIN [byte]]
  | .ctrlC =>
    if k.foregroundPid > 0 then
      match processLookup k k.foregroundPid.toNat with
      | none => []
      | some fg => [.processExit fg, .clearPipe STDIN]
    else []

/-- The keyboard interrupt: the handler, then `popState`. -/
def keyHandler (m : Machine) (e : Key) : List Instr := keyCode m.k e ++ [.setRax m.thread.regs.rax]

/-- The semaphore handles a process may pass: those of allocated semaphores, and to close one that a
    process opened. Any other value makes the kernel follow a wild pointer; no run does that. -/
def validHandle (k : Kernel) : Syscall → Bool
  | .semClose s => s == 0 || k.live s == some .userSemaphore
  | .semWait s | .semPost s | .semSetValue s _ =>
    s == 0 || k.live s == some .userSemaphore || k.live s == some .semaphore
  | _ => true

/-- One step; `none` when the action cannot happen in this state. -/
def step (m : Machine) : Action → Option Machine
  | .exec =>
    match m.next with
    | none | some .user => none
    | some i => some (m.execInstr i)
  | .syscall c =>
    if m.interruptsEnabled ∧ m.next matches some .user ∧ validHandle m.k c then
      some (m.enter [.sys c])
    else none
  | .ret =>
    if m.interruptsEnabled ∧ m.next matches some .user then some (m.setThread (m.advance []))
    else none
  | .exception =>
    if m.interruptsEnabled ∧ m.next matches some .user then some (m.enter (exceptionCode m.k))
    else none
  | .tick =>
    if m.interruptsEnabled ∧ ¬ m.k.timerMasked then
      some { m with k := timerHandler m.k }.schedule
    else none
  | .key e => if m.interruptsEnabled then some (m.enter (m.keyHandler e)) else none

/-- Run a list of actions. -/
def run (m : Machine) : List Action → Option Machine
  | [] => some m
  | a :: rest => (m.step a).bind (fun m => m.run rest)

end Machine

/-! ## Boot -/

namespace Boot

/-- The blocks `main` has allocated for its two processes, three pipes and their semaphores. -/
def idle : Addr := KERNEL_BASE + 1
def init : Addr := KERNEL_BASE + 2
def idleSem : Addr := KERNEL_BASE + 3
def initSem : Addr := KERNEL_BASE + 4
def pipeAddr (id : Nat) : Addr := KERNEL_BASE + 10 + 4 * id

/-- `idle`: made by `scheduler_init`, never put in a ready queue. -/
def idleProcess : Process :=
  { newProcess 1 { argc := 1, priority := SCHEDULER_MIN_PRIORITY, entryPoint := KERNEL_BASE + 0x10 } with
    fdTargets := fun i => i.val, rsp := idle, exitSem := some idleSem }

/-- `init`: made by `add_first_process` and made ready. -/
def initProcess : Process :=
  { newProcess 2 { argc := 1, priority := SCHEDULER_MAX_PRIORITY, entryPoint := INIT_ENTRY } with
    fdTargets := fun i => i.val, rsp := init, exitSem := some initSem }

/-- Standard pipe `id`, attached once by `add_first_process` and once by `init`. -/
def stdPipe (id : Nat) : Pipe :=
  { id := id, canRead := pipeAddr id + 1, canWrite := pipeAddr id + 2, mutex := pipeAddr id + 3
    attachedCount := 2 }

/-- The semaphores that exist after boot. -/
def sems : List (Addr × Sem) :=
  [(idleSem, { name := some (exitSemName 1), waitingProcesses := some [] }),
   (initSem, { name := some (exitSemName 2), waitingProcesses := some [] })] ++
  [0, 1, 2].flatMap (fun id =>
    [(pipeAddr id + 1, { name := some (semName id 'R'), waitingProcesses := some [] }),
     (pipeAddr id + 2, { name := some (semName id 'W'), waitingProcesses := some [] }),
     (pipeAddr id + 3, { name := some (semName id 'M'), count := 1, waitingProcesses := some [] })])

/-- The kernel as `main` leaves it when it enables interrupts, with an allocator that answers
    `memAnswers` from then on. -/
def kernel (memAnswers : Nat → Option Addr) : Kernel where
  proc a := if a = idle then idleProcess else if a = init then initProcess else {}
  sem a := (sems.lookup a).getD {}
  pipe a :=
    if a = pipeAddr 0 then stdPipe 0 else if a = pipeAddr 1 then stdPipe 1
    else if a = pipeAddr 2 then stdPipe 2 else {}
  live a :=
    if a = idle ∨ a = init then some .process
    else if a = pipeAddr 0 ∨ a = pipeAddr 1 ∨ a = pipeAddr 2 then some .pipe
    else if (sems.lookup a).isSome then some .semaphore
    else if KERNEL_BASE ≤ a ∧ a < KERNEL_BASE + 32 then some .bytes
    else none
  memAnswers := memAnswers
  memCalls := 0
  processes i := if i = 0 then some idle else if i = 1 then some init else none
  processCount := 2
  runningPid := -1
  foregroundPid := -1
  initPid := 2
  mainShellPid := -1
  shellCreated := false
  current := none
  idle := some idle
  readyQueues i := some (if i = 0 then [init] else [])
  totalTicks := 0
  contextSwitches := 0
  pipes id := if id < 3 then some (pipeAddr id) else none
  nextPipeId := 3
  registeredSemaphores := some (sems.map Prod.fst)
  registryLock := false
  ticks := 0
  sleepingQueue := none
  timerMasked := false

/-- The machine when `main` enables interrupts: it waits in its `hlt` loop. -/
def machine (memAnswers : Nat → Option Addr) : Machine where
  k := kernel memAnswers
  threads a := if a = init then { base := entryCode } else {}
  cpu := 0
  log := []

end Boot

end TpSo
