import TpSo.Kernel.Process

set_option autoImplicit false

/-! # Kernel code that can lose the processor

A thread in the kernel is the list of what it still has to execute. An `Instr` is a stretch of
kernel code between two points that matter to other threads: entering a lock, a section under a
lock, a forced scheduler interrupt, or the rest of a function once a call has returned. `exec` runs
one of them: it returns the new kernel state and the instructions the stretch expands to, which the
thread executes before the rest of its list.

The names are those of the functions they stand for; `fooLocked` is the part of `foo` between the
return of `sem_wait` (or of `semLock`) and the matching release. Local variables of the C code are
arguments of the instructions. -/

namespace TpSo

/-- What `createProcess` is called for; it decides what happens to its result. -/
inductive CreateUse
  | syscall | firstShell | respawn
  deriving DecidableEq

/-- The local variables of a `createProcess` call once the process object is built. -/
structure Creation where
  process : Addr
  parent : Option Addr
  args : CreateArgs
  use : CreateUse

/-- The system calls that reach the process, semaphore, pipe or timer code. Pointers passed by the
    user that are tested for `NULL` use 0 for it. -/
inductive Syscall
  | read (fd count : Int)
  | write (fd : Int) (bytes : List UInt8)
  | semOpen (name : Name) (initialCount : Nat) (createIfMissing : Bool)
  | semClose (sem : Addr)
  | semWait (sem : Addr)
  | semPost (sem : Addr)
  | semSetValue (sem : Addr) (value : Nat)
  | openPipe
  | setFdTargets (read write error : Nat)
  | clearPipe (id : Nat)
  | sleepTicks (n : Nat)
  | processCreate (argc priority : Nat) (foreground : Bool) (entryPoint : Nat)
  | processExit (status : Int)
  | processGetPid
  | processKill (pid : Nat)
  | processSetPriority (pid priority : Nat)
  | processBlock (pid : Nat)
  | processUnblock (pid : Nat)
  | processYield
  | processWaitPid (pid : Nat)
  | processWaitChildren
  | processGiveForeground (pid : Nat)
  | processGetForeground

/-- A stretch of kernel code. -/
inductive Instr
  | int20
  | processYield
  | yieldForever
  | hlt
  | user
  | entryWrapper
  | setRax (v : Int)
  -- `sem.c`; `spin` is a `semLock` that finds the lock taken where nobody can give it back
  | spin
  | registryLock
  | semWait (sem : Addr)
  | semLock (sem : Addr)
  | semWaitLocked (sem : Addr)
  | semWaitReturn (sem : Addr) (ret : Int)
  | semPost (sem : Addr)
  | semPostLocked (sem : Addr)
  | semPostMany (sem : Addr) (n : Nat)
  | semDestroy (sem : Addr)
  | semUnregister (sem : Addr)
  | semDestroyLocked (sem : Addr)
  | semOpenCheck (sem : Addr)
  | semFree (sem : Addr)
  | semReadValue (sem : Addr) (value : Nat)
  | semStoreValue (sem : Addr) (value : Nat)
  -- `pipes.c`
  | attachToPipe (id : Nat)
  | attachLocked (pipe : Addr)
  | unattachFromPipe (id pid : Nat)
  | unattachLocked (pipe : Addr)
  | closePipe (id : Nat)
  | closeLocked (id : Nat) (pipe : Addr)
  | closeReaders (id : Nat) (pipe : Addr) (attached : Nat)
  | closeWriters (id : Nat) (pipe : Addr) (attached readers : Nat)
  | closeEnd (id : Nat) (pipe : Addr) (attached : Nat)
  | destroyPipeFree (id : Nat) (pipe : Addr)
  | openPipe
  | openPipeFail (pipe : Addr)
  | readPipe (id bytes : Nat)
  | readLoop (pipe : Addr) (bytes : Nat) (done : List UInt8)
  | readLocked (pipe : Addr) (bytes : Nat) (done : List UInt8)
  | readWoken (pipe : Addr)
  | readReturn (done : List UInt8) (ret : Int)
  | writePipe (id : Nat) (bytes : List UInt8)
  | writeLoop (pipe : Addr) (bytes : List UInt8) (written : Nat)
  | writeLocked (pipe : Addr) (bytes : List UInt8) (written : Nat)
  | writeWoken (pipe : Addr)
  | clearPipe (id : Nat)
  | clearLocked (pipe : Addr)
  | clearCount (pipe : Addr)
  -- `fd.c`
  | fdAttach (cur : Addr) (changes rest : List (Fin 3 × Nat × Nat)) (attached : List Nat)
  | fdAttached (cur : Addr) (changes : List (Fin 3 × Nat × Nat)) (change : Fin 3 × Nat × Nat)
      (rest : List (Fin 3 × Nat × Nat)) (attached : List Nat)
  | fdSet (cur : Addr) (fd : Fin 3) (target : Nat)
  | fdUnattach (cur : Addr) (id : Nat)
  | writeAfter (cur : Addr) (fd : Fin 3) (id : Nat)
  | writeDrain (id left written : Nat)
  | writeDrained (id left written : Nat)
  -- `process.c`
  | processExit (process : Addr)
  | exitUnattach (process : Addr) (id : Nat)
  | exitSemLock (process : Addr)
  | exitSemPost (process : Addr)
  | createProcess (args : CreateArgs) (use : CreateUse)
  | createNamed (c : Creation) (sem : Addr) (name : Name) (targets : List Nat)
  | createAttach (c : Creation) (targets attached : List Nat)
  | createAttached (c : Creation) (target : Nat) (targets attached : List Nat)
  | createRegister (c : Creation) (attached : List Nat)
  | createForeground (c : Creation)
  | createMark (c : Creation)
  | createDone (c : Creation)
  | createFailed (use : CreateUse)
  | processFreeMemory (process : Addr)
  | processFreeRest (process : Addr)
  | reapChildProcess (process : Addr)
  | reapUnregister (process : Addr)
  | waitChildrenLoop (parent : Addr) (terminated : List Addr) (reaped : Nat)
  | initFirst
  | initLoop
  | initScan (self : Addr) (left : Nat)
  | initTail (self : Option Addr)
  -- a system call, and the exception handler
  | sys (c : Syscall)
  | excMask (masked : Bool)
  | excRead (cur : Addr)
  | excReadDone (cur : Addr)

/-- What a run leaves behind for specifications to speak about; the code never reads it. -/
inductive Event
  | semReturned (sem : Addr) (ret : Int)
  | semPosted (sem : Addr)
  | semInit (sem : Addr) (count : Nat)
  | created (process : Addr)
  | reaped (process : Addr)
  | put (pipe : Addr) (byte : UInt8)
  | took (pipe : Addr) (byte : UInt8)
  | cleared (pipe : Addr)
  | opened (pipe : Addr)
  | printed (id : Nat) (byte : UInt8)

/-- What a thread keeps across calls: the returned value and the caller's read buffer. -/
structure Regs where
  rax : Int := 0
  buf : List UInt8 := []

/-- The effect of one stretch of code. `spawn` is the stack `stackInit` prepared, if any. -/
structure Outcome where
  k : Kernel
  r : Regs
  code : List Instr := []
  events : List Event := []
  spawn : Option (Addr × List Instr) := none

/-! ## `sem.c` -/

/-- Release a semaphore's spin lock. -/
def semUnlock (k : Kernel) (sem : Addr) : Kernel := k.modSem sem (fun s => { s with lock := false })

/-- `sem->count--`, and the lock released. -/
def Sem.takeToken (s : Sem) : Sem := { s with count := s.count - 1, lock := false }

/-- `sem->count++`, and the lock released. -/
def Sem.addToken (s : Sem) : Sem := { s with count := (s.count + 1) % 2 ^ 32, lock := false }

/-- `queue_push(sem->waiting_processes, process)`, its result ignored. -/
def enqueueWaiter (k : Kernel) (sem process : Addr) : Kernel :=
  let r := queuePush k (k.sem sem).waitingProcesses process
  r.2.2.modSem sem (fun s => { s with waitingProcesses := r.2.1 })

/-- The part of `sem_wait` under `sem->lock`. The first component is the value it will return, the
    second says whether the caller was blocked. A failed `queue_push` is not noticed. -/
def semWaitBody (k : Kernel) (sem : Addr) : Int × Bool × Kernel :=
  if (k.sem sem).count > 0 then (0, false, k.modSem sem Sem.takeToken)
  else
    match k.current with
    | none => (-1, false, semUnlock k sem)
    | some currentProcess =>
      let b := processBlock (enqueueWaiter k sem currentProcess) currentProcess
      (0, b.1, semUnlock b.2 sem)

/-- The loop of `sem_post`: pop waiters until one of them was `BLOCKED` and is woken. -/
def wakeOne (k : Kernel) : List Addr → Bool × List Addr × Kernel
  | [] => (false, [], k)
  | process :: rest =>
    if (processUnblock k process).1 then (true, rest, (processUnblock k process).2)
    else wakeOne k rest

/-- The part of `sem_post` under `sem->lock`; says whether a process was woken. -/
def semPostBody (k : Kernel) (sem : Addr) : Bool × Kernel :=
  match (k.sem sem).waitingProcesses with
  | none => (false, k.modSem sem Sem.addToken)
  | some waiting =>
    let r := wakeOne k waiting
    let k := r.2.2.modSem sem (fun s => { s with waitingProcesses := some r.2.1 })
    (r.1, if r.1 then semUnlock k sem else k.modSem sem Sem.addToken)

/-- The part of `sem_destroy` under `sem->lock`, and what follows it: every waiter is woken. -/
def semDestroyBody (k : Kernel) (sem : Addr) : Kernel :=
  let k := ((k.sem sem).waitingProcesses.getD []).foldl (fun k p => (processUnblock k p).2) k
  k.modSem sem (fun s =>
    { s with waitingProcesses := none, count := 0, lock := false, name := none })

/-- `find_registered`. -/
def findRegistered (k : Kernel) (name : Name) : Option Addr :=
  (k.registeredSemaphores.getD []).find? (fun s => decide ((k.sem s).name = some name))

/-- `ensure_registry`. -/
def ensureRegistry (k : Kernel) : Kernel :=
  match k.registeredSemaphores with
  | some _ => k
  | none => { (queueCreate Addr k).2 with registeredSemaphores := (queueCreate Addr k).1 }

/-- The part of `sem_init` under `registry_lock`: an unused name is entered in the registry. -/
def registerSem (k : Kernel) (sem : Addr) (name : Name) : Kernel :=
  if (findRegistered k name).isNone then
    let r := queuePush k k.registeredSemaphores sem
    { r.2.2 with registeredSemaphores := r.2.1 }
  else k

/-- Release `registry_lock`. -/
def registryUnlock (k : Kernel) : Kernel := { k with registryLock := false }

/-- The fields `sem_init` writes. -/
def Sem.start (name : Name) (initialCount : Nat) (waitingProcesses : Queue Addr) (s : Sem) : Sem :=
  { s with
    name := some name, count := initialCount, waitingProcesses := waitingProcesses, lock := false }

/-- `sem_init` up to `semLock(&registry_lock)`. Without memory for the name it returns before that (`false`), and
    the rest of the object stays as it was. -/
def semInitFields (k : Kernel) (sem : Addr) (name : Name) (initialCount : Nat) : Bool × Kernel :=
  let k := ensureRegistry k
  if k.allocOk then
    let q := queueCreate Addr k.allocNext
    (true, q.2.modSem sem (Sem.start name initialCount q.1))
  else (false, k.allocNext.modSem sem (fun s => { s with name := none }))

/-- `sem_init` where `registry_lock` is free and nobody else can run: it takes the lock and gives it back. -/
def semInit (k : Kernel) (sem : Addr) (name : Name) (initialCount : Nat) : Kernel :=
  let fields := semInitFields k sem name initialCount
  if fields.1 then registerSem fields.2 sem name else fields.2

/-- `sem_init` comes to a `registry_lock` that is taken. -/
def semInitSpins (k : Kernel) : Bool := k.registryLock && (ensureRegistry k).allocOk

/-- The trace of a `sem_init`: the count it left. -/
def initEvent (k : Kernel) (sem : Addr) : Event := .semInit sem (k.sem sem).count

/-- The part of `sem_destroy` under `registry_lock`. -/
def semUnregister (k : Kernel) (sem : Addr) : Kernel :=
  registryUnlock { k with registeredSemaphores := (queueRemove k.registeredSemaphores sem).2 }

/-- `sem_waiting_count`. -/
def semWaitingCount (k : Kernel) (sem : Addr) : Nat := queueSize (k.sem sem).waitingProcesses

/-- `sem_remove_process`: it looks for the pid itself among the process pointers. -/
def semRemoveProcess (k : Kernel) (sem : Addr) (pid : Nat) : Kernel :=
  k.modSem sem (fun s => { s with waitingProcesses := (queueRemove s.waitingProcesses pid).2 })

/-! ## `pipes.c` -/

/-- `NEXT_BUFFER_IDX`. -/
def nextBufferIdx (idx : Nat) : Nat := (idx + 1) % PIPE_BUFFER_SIZE

/-- `id < MAX_PIPES && pipes[id] != NULL`. -/
def pipeOf (k : Kernel) (id : Nat) : Option Addr := if id ≥ MAX_PIPES then none else k.pipes id

/-- `is_std` of `close_pipe`. -/
def isStd (id : Nat) : Bool := id == STDIN || id == STDOUT || id == STDERR

/-- The conversion of a `uint64_t` to `int`. -/
def toInt (n : Nat) : Int := Int.bmod n (2 ^ 32)

theorem toInt_of_lt {n : Nat} (h : n < 2 ^ 31) : toInt n = n := Int.bmod_eq_of_le (by omega) (by omega)

/-- Take one byte out of the ring. -/
def Pipe.take (p : Pipe) : Pipe :=
  { p with readIdx := nextBufferIdx p.readIdx, dataCount := p.dataCount - 1 }

/-- Put one byte into the ring. -/
def Pipe.put (p : Pipe) (byte : UInt8) : Pipe :=
  { p with
    buffer := Function.update p.buffer p.writeIdx byte
    writeIdx := nextBufferIdx p.writeIdx
    dataCount := p.dataCount + 1 }

/-- `attached_count++`. -/
def Pipe.attach (p : Pipe) : Pipe := { p with attachedCount := (p.attachedCount + 1) % 256 }

/-- `attached_count--`, unless it is 0. -/
def Pipe.unattach (p : Pipe) : Pipe := { p with attachedCount := p.attachedCount - 1 }

/-- `waiting_readers++`. -/
def Pipe.addReader (p : Pipe) : Pipe :=
  { p with waitingReaders := (p.waitingReaders + 1) % 2 ^ 32 }

/-- `waiting_readers--`. -/
def Pipe.dropReader (p : Pipe) : Pipe :=
  { p with waitingReaders := (p.waitingReaders + 2 ^ 32 - 1) % 2 ^ 32 }

/-- `waiting_writers++`. -/
def Pipe.addWriter (p : Pipe) : Pipe :=
  { p with waitingWriters := (p.waitingWriters + 1) % 2 ^ 32 }

/-- `waiting_writers--`. -/
def Pipe.dropWriter (p : Pipe) : Pipe :=
  { p with waitingWriters := (p.waitingWriters + 2 ^ 32 - 1) % 2 ^ 32 }

/-- Discard what is in the ring. -/
def Pipe.reset (p : Pipe) : Pipe := { p with readIdx := 0, writeIdx := 0, dataCount := 0 }

/-- `'0' + n`. -/
def digitChar (n : Nat) : Char := Char.ofNat (48 + n)

/-- The name `set_sem_name_number` builds, with the letter that follows it. -/
def semName (id : Nat) (letter : Char) : Name :=
  ['p', 'i', 'p', 'e', '_', digitChar (id / 10), digitChar (id % 10), letter]

/-- The name of the exit semaphore of the process with this pid. -/
def exitSemName (pid : Nat) : Name :=
  ['p', 'r', 'o', 'c', 'e', 's', 's', digitChar (pid / 100 % 10), digitChar (pid / 10 % 10),
    digitChar (pid % 10)]

/-- The pipe object `create_pipe` fills in. -/
def newPipe (id : Nat) (canRead canWrite mutex : Addr) (old : Pipe) : Pipe :=
  { old with
    id := id, readIdx := 0, writeIdx := 0, dataCount := 0, canRead := canRead, canWrite := canWrite,
    mutex := mutex, attachedCount := 0, waitingReaders := 0, waitingWriters := 0 }

/-- `open_pipe` with `create_pipe` in it. When a later `sem_create` fails the semaphores made so far
    are destroyed and the pipe object is freed. Interrupts are disabled, so that a call that finds `registry_lock`
    taken spins for ever; what it has done till then nobody sees, and it is left out. -/
def openPipeCode (k : Kernel) (r : Regs) : Outcome :=
  let spin : Outcome := { k := k, r := r, code := [.spin] }
  if k.nextPipeId ≥ MAX_PIPES then { k := k, r := { r with rax := -1 } }
  else
    let id := k.nextPipeId
    match k.memAlloc .pipe with
    | (none, k) => { k := k, r := { r with rax := -1 } }
    | (some pipe, k) =>
      match k.memAlloc .semaphore with
      | (none, k) => { k := k.memFree pipe, r := { r with rax := -1 } }
      | (some canRead, k) =>
        if semInitSpins k then spin
        else
          let k := semInit k canRead (semName id 'R') 0
          match k.memAlloc .semaphore with
          | (none, k) =>
            { k := k, r := r, code := [.semDestroy canRead, .openPipeFail pipe]
              events := [initEvent k canRead] }
          | (some canWrite, k) =>
            if semInitSpins k then spin
            else
              let k := semInit k canWrite (semName id 'W') 0
              match k.memAlloc .semaphore with
              | (none, k) =>
                { k := k, r := r
                  code := [.semDestroy canRead, .semDestroy canWrite, .openPipeFail pipe]
                  events := [initEvent k canWrite, initEvent k canRead] }
              | (some mutex, k) =>
                if semInitSpins k then spin
                else
                  let k := semInit k mutex (semName id 'M') 1
                  let k := k.modPipe pipe (newPipe id canRead canWrite mutex)
                  { k := { k with
                      pipes := Function.update k.pipes id (some pipe), nextPipeId := k.nextPipeId + 1 }
                    r := { r with rax := (id : Int) }
                    events :=
                      [.opened pipe, initEvent k mutex, initEvent k canWrite, initEvent k canRead] }

/-- What is left of `close_pipe` once the waiters have been counted. -/
def closeTail (k : Kernel) (id : Nat) (pipe : Addr) (attached readers writers : Nat) : List Instr :=
  [.semPost (k.pipe pipe).mutex] ++ List.replicate readers (.semPost (k.pipe pipe).canRead) ++
    List.replicate writers (.semPost (k.pipe pipe).canWrite) ++ [.closeEnd id pipe attached]

/-! ## `fd.c` -/

/-- There are three descriptors, numbered from 0. -/
instance neZero_three : @NeZero Nat Zero.ofOfNat0 3 := ⟨by decide⟩

/-- `is_valid_fd`. -/
def validFd (fd : Int) : Option (Fin 3) :=
  if fd = 0 then some 0 else if fd = 1 then some 1 else if fd = 2 then some 2 else none

/-- The descriptors `set_fd_targets` has to move, with their old and new targets. -/
def fdChanges (p : Process) (read write error : Nat) : List (Fin 3 × Nat × Nat) :=
  [(0, p.fdTargets 0, read), (1, p.fdTargets 1, write), (2, p.fdTargets 2, error)].filter
    (fun c => decide (c.2.2 ≠ c.2.1))

/-! ## `time.c` -/

/-- `init_sleeping_queue`. -/
def initSleepingQueue (k : Kernel) : Kernel :=
  match k.sleepingQueue with
  | some _ => k
  | none =>
    { (queueCreate SleepingProcess k).2 with sleepingQueue := (queueCreate SleepingProcess k).1 }

/-- `queue_push(sleeping_queue, entry)`. -/
def pushSleeper (k : Kernel) (entry : SleepingProcess) : Bool × Kernel :=
  let r := queuePush k k.sleepingQueue entry
  (r.1, { r.2.2 with sleepingQueue := r.2.1 })

/-- `sleepTicks` with a current process; says whether the caller was put to sleep. -/
def sleepCurrent (k : Kernel) (current : Addr) (sleepT : Nat) : Bool × Kernel :=
  match k.memAlloc .bytes with
  | (none, k) => (false, k)
  | (some a, k) =>
    let pushed := pushSleeper k
      { addr := a, pid := (k.proc current).pid, wakeTime := (k.ticks + sleepT) % 2 ^ 64 }
    if pushed.1 then (true, (processBlock pushed.2 current).2) else (false, pushed.2.memFree a)

/-- `sleepTicks`. -/
def sleepTicks (k : Kernel) (sleepT : Nat) : Bool × Kernel :=
  match k.current with
  | none => (false, initSleepingQueue k)
  | some current => sleepCurrent (initSleepingQueue k) current sleepT

/-- The first loop of `timer_handler`: wake the expired entries' processes. -/
def wakeSleepers (k : Kernel) : List SleepingProcess → Kernel
  | [] => k
  | e :: rest =>
    let k :=
      if e.wakeTime ≤ k.ticks then
        match processLookup k e.pid with
        | none => k
        | some proc => (processUnblock k proc).2
      else k
    wakeSleepers k rest

/-- The second loop of `timer_handler`: take the expired entries out of the queue. -/
def dropSleepers (k : Kernel) : List SleepingProcess → Kernel
  | [] => k
  | e :: rest =>
    let k :=
      if e.wakeTime ≤ k.ticks then
        { k with sleepingQueue := (queueRemove k.sleepingQueue e).2 }.memFree e.addr
      else k
    dropSleepers k rest

/-- `timer_handler`, without the cursor. -/
def timerHandler (k : Kernel) : Kernel :=
  let k := { k with ticks := (k.ticks + 1) % 2 ^ 64 }
  let k := wakeSleepers k (k.sleepingQueue.getD [])
  dropSleepers k (k.sleepingQueue.getD [])

end TpSo
