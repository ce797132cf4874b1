import TpSo.Kernel.Scheduler

set_option autoImplicit false

/-! # Process state changes and the process tree (`process.c`)

The functions of `process.c` that call nothing which can switch to another process. Those that wait
on or post a semaphore are in `Code.lean`. -/

namespace TpSo

/-- `process_block`: a `READY` process leaves its ready queue first; only a process that is already
    `BLOCKED` is refused. -/
def processBlock (k : Kernel) (process : Addr) : Bool × Kernel :=
  if (k.proc process).state = .blocked then (false, k)
  else
    let k := if (k.proc process).state = .ready then schedulerRemoveReady k process else k
    (true, k.setState process .blocked)

/-- `process_unblock`. -/
def processUnblock (k : Kernel) (process : Addr) : Bool × Kernel :=
  if (k.proc process).state ≠ .blocked then (false, k) else (true, schedulerAddReady k process)

/-- `queue_push(parent->children, child)`. -/
def pushChild (k : Kernel) (parent child : Addr) : Bool × Kernel :=
  let r := queuePush k (k.proc parent).children child
  (r.1, r.2.2.setChildren parent r.2.1)

/-- `add_child`: creates the parent's queue on first use. -/
def addChild (k : Kernel) (parent child : Addr) : Bool × Kernel :=
  if (k.proc parent).children.isNone then
    let created := queueCreate Addr k
    pushChild (created.2.setChildren parent created.1) parent child
  else pushChild k parent child

/-- The loop of `adopt_orphan_children`; the result of `add_child` is ignored. -/
def adoptLoop (k : Kernel) (initProcess : Addr) : List Addr → Kernel
  | [] => k
  | child :: rest =>
    let k := k.modProc child (fun p => { p with ppid := (k.proc initProcess).pid })
    adoptLoop (addChild k initProcess child).2 initProcess rest

/-- `adopt_orphan_children`. -/
def adoptOrphanChildren (k : Kernel) (process : Addr) : Kernel :=
  match (k.proc process).children with
  | none => k
  | some children =>
    if ((k.proc process).pid : Int) = k.initPid then k
    else
      match (if k.initPid ≥ 0 then processLookup k k.initPid.toNat else none) with
      | none => k
      | some initProcess =>
        let k := k.setChildren process (some [])
        let k := adoptLoop k initProcess children
        k.setChildren process none

/-- The hand-over in `process_exit`: the foreground goes from the process to its parent. -/
def passForeground (k : Kernel) (process : Addr) : Kernel :=
  if k.foregroundPid = ((k.proc process).pid : Int) then
    { k with foregroundPid := ((k.proc process).ppid : Int) }
  else k

/-- The first half of `process_exit`, under disabled interrupts. The flag says whether
    `process_exit` will force a switch at its end. -/
def exitFirstHalf (k : Kernel) (process : Addr) : Bool × Kernel :=
  let k := if (k.proc process).state = .ready then schedulerRemoveReady k process else k
  let k := k.setState process .terminated
  let k := adoptOrphanChildren k process
  let k := passForeground k process
  (decide (k.runningPid = ((k.proc process).pid : Int)), k)

/-- `is_child`. -/
def isChild (k : Kernel) (parent process : Addr) : Bool :=
  decide ((k.proc process).ppid = (k.proc parent).pid)

/-- Take `child` out of the children queue of `parent`: `queue_remove(parent->children, child)`. -/
def removeChild (k : Kernel) (parent child : Addr) : Bool × Kernel :=
  let r := queueRemove (k.proc parent).children child
  (r.1, k.setChildren parent r.2)

/-- `give_foreground_to`. -/
def giveForegroundTo (k : Kernel) (targetPid : Nat) : Int × Kernel :=
  if k.runningPid = -1 then (-1, k)
  else if k.foregroundPid ≠ k.runningPid then (-1, k)
  else
    match processLookup k targetPid with
    | none => (-1, k)
    | some _ => (0, { k with foregroundPid := (targetPid : Int) })

/-! ## Building a process -/

/-- Arguments of `createProcess`; `entryPoint = 0` is `NULL`. Of `argv` only its length counts. -/
structure CreateArgs where
  argc : Nat := 0
  ppid : Nat := 0
  priority : Nat := 0
  foreground : Bool := false
  entryPoint : Nat := 0

/-- The fields `createProcess` writes right after it has zeroed the block. -/
def newProcess (pid : Nat) (args : CreateArgs) : Process :=
  { pid := pid, ppid := args.ppid, priority := args.priority, priorityRequested := args.priority,
    state := .ready, remainingQuantum := SCHEDULER_DEFAULT_QUANTUM, fdTargets := fun _ => 0,
    userEntryPoint := args.entryPoint }

/-- The loop of `createProcess` over the argument strings: it stops at the first failed allocation,
    leaving `NULL` in the entries not reached. -/
def allocArgs (k : Kernel) : Nat → List (Option Addr) → Bool × List (Option Addr) × Kernel
  | 0, done => (true, done, k)
  | n + 1, done =>
    match k.memAlloc .bytes with
    | (none, k) => (false, done ++ List.replicate (n + 1) none, k)
    | (some a, k) => allocArgs k n (done ++ [some a])

/-- Give back one allocated block, if there is one. -/
def freeBlock (k : Kernel) (a : Option Addr) : Kernel :=
  match a with
  | none => k
  | some a => k.memFree a

/-- The part of `process_free_memory` before the exit semaphore. -/
def freeArgvAndStack (k : Kernel) (process : Addr) : Kernel :=
  let k :=
    match (k.proc process).argv with
    | none => k
    | some (vector, args) => (args.foldl freeBlock k).memFree vector
  let k := freeBlock k (k.proc process).stackBase
  k.modProc process (fun p => { p with argv := none, stackBase := none })

/-- The part of `process_free_memory` after `sem_destroy(process->exit_sem)`. -/
def freeExitSemAndProcess (k : Kernel) (process : Addr) : Kernel :=
  let k := freeBlock k (k.proc process).exitSem
  let k := k.modProc process (fun p => { p with exitSem := none, children := none })
  k.memFree process

end TpSo
