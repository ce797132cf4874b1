import TpSo.Kernel.Code

set_option autoImplicit false

/-! # Executing a stretch of kernel code

`exec` gives every `Instr` its effect. The larger stretches (`createProcess`, the system calls) have
a definition of their own. `int 0x20` is not here: it belongs to the machine, which switches
stacks. -/

namespace TpSo

/-- `sem_wait` / `sem_post` on a semaphore pointer that may be `NULL`. -/
def onSem (sem : Option Addr) (code : Addr → List Instr) : List Instr :=
  match sem with
  | none => []
  | some s => code s

/-! ## `createProcess` -/

/-- What the caller does when `createProcess` has returned `NULL`. -/
def createFailed (k : Kernel) (r : Regs) (use : CreateUse) : Outcome :=
  match use with
  | .syscall => { k := k, r := { r with rax := -1 } }
  | .firstShell | .respawn => { k := k, r := r }

/-- `shell->is_shell = 1`. -/
def Process.markShell (p : Process) : Process := { p with isShell := true }

/-- What `init` writes about its new shell before it makes it ready. `sys_process_create` has nothing to write. -/
def createMark (k : Kernel) (process : Addr) (use : CreateUse) : Kernel :=
  match use with
  | .syscall => k
  | .firstShell =>
    { k.modProc process Process.markShell with
      shellCreated := true, mainShellPid := ((k.proc process).pid : Int) }
  | .respawn => k.modProc process Process.markShell

/-- The caller makes the new process ready. -/
def createDone (k : Kernel) (r : Regs) (process : Addr) (use : CreateUse) : Outcome :=
  let ready := schedulerAddReady k process
  match use with
  | .syscall =>
    { k := ready, r := { r with rax := ((k.proc process).pid : Int) }, events := [.created process] }
  | .firstShell => { k := ready, r := r, events := [.created process] }
  | .respawn =>
    { k := { ready with mainShellPid := ((ready.proc process).pid : Int) }, r := r
      events := [.created process] }

/-- The code on the stack `stackInit` prepares: `process_entry_wrapper`. -/
def entryCode : List Instr := [.entryWrapper]

/-- The address of `init_first_process_entry`. -/
def INIT_ENTRY : Nat := KERNEL_BASE

/-- The descriptors a process starts with: those of its parent. -/
def inheritedTargets (k : Kernel) (parent : Option Addr) : Fin 3 → Nat :=
  match parent with
  | none => fun i => i.val
  | some parent => (k.proc parent).fdTargets

/-- `process->argv` with its strings. -/
def Process.setArgv (vector : Addr) (strings : List (Option Addr)) (p : Process) : Process :=
  { p with argv := some (vector, strings) }

/-- `process->stack_base`, and the stack pointer `stackInit` prepared. -/
def Process.setStack (stack rsp : Addr) (p : Process) : Process :=
  { p with stackBase := some stack, rsp := rsp }

/-- `process->exit_sem`. -/
def Process.setExitSem (sem : Addr) (p : Process) : Process := { p with exitSem := some sem }

/-- `process->fd_targets`. -/
def Process.setTargets (targets : Fin 3 → Nat) (p : Process) : Process :=
  { p with fdTargets := targets }

/-- `createProcess`: allocate `argv` and its strings. -/
def allocArgv (k : Kernel) (process : Addr) (argc : Nat) : Bool × Kernel :=
  match k.memAlloc .bytes with
  | (none, k) => (false, k)
  | (some vector, k) =>
    let strings := allocArgs k argc []
    (strings.1, strings.2.2.modProc process (Process.setArgv vector strings.2.1))

/-- `createProcess`: allocate the stack and prepare it. -/
def allocStack (k : Kernel) (process : Addr) : Bool × Kernel :=
  match k.memAlloc .bytes with
  | (none, k) => (false, k)
  | (some stack, k) => (true, k.modProc process (Process.setStack stack process))

/-- `createProcess`: allocate the exit semaphore and write its fields; `false` if `sem_init` returns early. -/
def allocExitSem (k : Kernel) (process : Addr) (pid : Nat) : Bool × Kernel :=
  match k.memAlloc .semaphore with
  | (none, k) => (false, k)
  | (some sem, k) => semInitFields (k.modProc process (Process.setExitSem sem)) sem (exitSemName pid) 0

/-- `createProcess` from the zeroed process object up to the `semLock(&registry_lock)` of `sem_init`; `false`
    when it has to free the object and give up. -/
def buildProcess (k : Kernel) (process pid : Nat) (args : CreateArgs) : Bool × Kernel :=
  let k := k.modProc process (fun _ => newProcess pid args)
  let parent := processLookup k args.ppid
  if args.ppid ≥ PROCESS_FIRST_PID ∧ parent.isNone then (false, k)
  else
    let k := k.modProc process (Process.setTargets (inheritedTargets k parent))
    let argv := allocArgv k process args.argc
    if ¬ argv.1 then argv
    else
      let stack := allocStack argv.2 process
      if ¬ stack.1 then stack else allocExitSem stack.2 process pid

/-- `createProcess` from its first line up to the `sem_init` of the exit semaphore. -/
def createProcessCode (k : Kernel) (r : Regs) (args : CreateArgs) (use : CreateUse) : Outcome :=
  if args.entryPoint = 0 then { k := k, r := r, code := [.createFailed use] }
  else if allocatePid k = 0 then { k := k, r := r, code := [.createFailed use] }
  else
    let parent := processLookup k args.ppid
    let targets := inheritedTargets k parent
    match k.memAlloc .process with
    | (none, k') => { k := k', r := r, code := [.createFailed use] }
    | (some process, k') =>
      let built := buildProcess k' process (allocatePid k) args
      let exitSem := (built.2.proc process).exitSem
      let events := exitSem.toList.map (initEvent built.2)
      if built.1 then
        { k := built.2, r := r
          code := onSem exitSem (fun sem => [.registryLock,
            .createNamed { process := process, parent := parent, args := args, use := use } sem
              (exitSemName (allocatePid k)) [targets 0, targets 1, targets 2]])
          events := events
          spawn := some (process, entryCode) }
      else
        { k := built.2, r := r, code := [.processFreeMemory process, .createFailed use]
          events := events }

/-- The end of the `sem_init`, and the test of what it has left. -/
def createNamedCode (k : Kernel) (r : Regs) (c : Creation) (sem : Addr) (name : Name) (targets : List Nat) :
    Outcome :=
  let k := registryUnlock (registerSem k sem name)
  if (k.sem sem).name.isNone ∨ (k.sem sem).waitingProcesses.isNone then
    { k := k, r := r, code := [.processFreeMemory c.process, .createFailed c.use] }
  else { k := k, r := r, code := [.createAttach c targets []] }

/-- Undo the attachments made so far, the latest first, and free the process object. -/
def createRollback (k : Kernel) (r : Regs) (c : Creation) (attached : List Nat) : Outcome :=
  { k := k, r := r
    code := attached.map (fun id => .unattachFromPipe id (k.proc c.process).pid) ++
      [.processFreeMemory c.process, .createFailed c.use] }

/-- `process_register` and `add_child` of `createProcess`; a slot without a place among the parent's
    children is given back. -/
def enterTree (k : Kernel) (c : Creation) : Bool × Kernel :=
  let reg := processRegister k c.process
  if ¬ reg.1 then reg
  else
    match c.parent with
    | none => reg
    | some parent =>
      let added := addChild reg.2 parent c.process
      if added.1 then added else (false, processUnregister added.2 (added.2.proc c.process).pid)

/-- `createProcess` from `process_register` on. -/
def createRegisterCode (k : Kernel) (r : Regs) (c : Creation) (attached : List Nat) : Outcome :=
  let entered := enterTree k c
  if ¬ entered.1 then createRollback entered.2 r c attached
  else { k := entered.2, r := r, code := [.createForeground c] }

/-- The end of `createProcess`: a process for the foreground gets it. -/
def createForeground (k : Kernel) (c : Creation) : Kernel :=
  if c.args.foreground then { k with foregroundPid := ((k.proc c.process).pid : Int) } else k

/-! ## `process_wait_pid` and `process_wait_children` -/

/-- `process_wait_pid`. -/
def processWaitPidCode (k : Kernel) (r : Regs) (pid : Nat) : Outcome :=
  match k.current, processLookup k pid with
  | some current, some child =>
    if ¬ isChild k current child then { k := k, r := { r with rax := -1 } }
    else
      let removed := removeChild k current child
      if ¬ removed.1 then { k := removed.2, r := { r with rax := -1 } }
      else { k := removed.2, r := r, code := [.reapChildProcess child] }
  | _, _ => { k := k, r := { r with rax := -1 } }

/-- The first loop of `process_wait_children`. -/
def terminatedChildren (k : Kernel) (current : Addr) : List Addr :=
  (((k.proc current).children.getD []).filter
    (fun c => isChild k current c && decide ((k.proc c).state = .terminated))).take
      PROCESS_MAX_PROCESSES

/-! ## System calls -/

/-- The beginning of each system call; `exec` of the instructions it returns does the rest. -/
def sysCode (k : Kernel) (r : Regs) : Syscall → Outcome
  | .read fd count =>
    match k.current with
    | none => { k := k, r := { r with rax := -1 } }
    | some current =>
      match validFd fd with
      | none => { k := k, r := { r with rax := -1 } }
      | some fd =>
        if count < 0 then { k := k, r := { r with rax := -1 } }
        else if (k.proc current).fdTargets 0 = STDIN ∧
            k.foregroundPid ≠ ((k.proc current).pid : Int) then
          { k := k, r := { r with rax := -1 } }
        else { k := k, r := r, code := [.readPipe ((k.proc current).fdTargets fd) count.toNat] }
  | .write fd bytes =>
    match validFd fd with
    | none => { k := k, r := { r with rax := -1 } }
    | some fd =>
      if fd = 0 then { k := k, r := { r with rax := -1 } }
      else if bytes.length = 0 then { k := k, r := { r with rax := 0 } }
      else
        match k.current with
        | none => { k := k, r := { r with rax := -1 } }
        | some current =>
          let id := (k.proc current).fdTargets fd
          { k := k, r := r, code := [.writePipe id bytes, .writeAfter current fd id] }
  | .semOpen name initialCount createIfMissing =>
    -- `sem_find` begins with `semLock(&registry_lock)`, with interrupts disabled
    if k.registryLock then { k := k, r := r, code := [.spin] }
    else
      match findRegistered k name with
      | some sem => { k := k, r := { r with rax := (sem : Int) } }
      | none =>
        if ¬ createIfMissing then { k := k, r := { r with rax := -1 } }
        else
          match k.memAlloc .userSemaphore with
          | (none, k) => { k := k, r := { r with rax := -1 } }
          | (some sem, k) =>
            let k := semInit k sem name initialCount
            { k := k, r := r, code := [.semOpenCheck sem], events := [initEvent k sem] }
  | .semClose sem =>
    if sem = 0 then { k := k, r := { r with rax := -1 } }
    else { k := k, r := r, code := [.semDestroy sem, .semFree sem, .setRax 0] }
  | .semWait sem =>
    if sem = 0 then { k := k, r := { r with rax := -1 } }
    else { k := k, r := r, code := [.semWait sem] }
  | .semPost sem =>
    if sem = 0 then { k := k, r := { r with rax := -1 } }
    else { k := k, r := r, code := [.semPost sem] }
  | .semSetValue sem value =>
    if sem = 0 then { k := k, r := { r with rax := -1 } }
    else { k := k, r := r, code := [.semLock sem, .semReadValue sem value, .setRax 0] }
  | .openPipe => { k := k, r := r, code := [.openPipe] }
  | .setFdTargets read write error =>
    match k.current with
    | none => { k := k, r := { r with rax := -1 } }
    | some current =>
      let changes := fdChanges (k.proc current) read write error
      { k := k, r := r, code := [.fdAttach current changes changes []] }
  | .clearPipe id => { k := k, r := r, code := [.clearPipe id, .setRax 0] }
  | .sleepTicks n =>
    let s := sleepTicks k n
    { k := s.2, r := { r with rax := 0 }, code := if s.1 then [.int20] else [] }
  | .processCreate argc priority foreground entryPoint =>
    let callerPid := getPid k
    let args : CreateArgs :=
      { argc := argc, ppid := callerPid.toNat, priority := priority, foreground := foreground
        entryPoint := entryPoint }
    { k := k, r := r, code := [.createProcess args .syscall] }
  | .processExit status =>
    match k.current with
    | none => { k := k, r := { r with rax := status } }
    | some process => { k := k, r := r, code := [.processExit process, .setRax status] }
  | .processGetPid => { k := k, r := { r with rax := getPid k } }
  | .processKill pid =>
    match processLookup k pid with
    | none => { k := k, r := { r with rax := -1 } }
    | some process => { k := k, r := r, code := [.processExit process, .setRax 0] }
  | .processSetPriority pid priority =>
    let s := schedulerSetProcessPriority k pid priority
    { k := s.2, r := { r with rax := s.1 } }
  | .processBlock pid =>
    match processLookup k pid with
    | none => { k := k, r := { r with rax := -1 } }
    | some process =>
      let b := processBlock k process
      if b.1 then { k := b.2, r := r, code := [.int20, .setRax 0] }
      else { k := b.2, r := { r with rax := -1 } }
  | .processUnblock pid =>
    match processLookup k pid with
    | none => { k := k, r := { r with rax := -1 } }
    | some process =>
      let u := processUnblock k process
      { k := u.2, r := { r with rax := if u.1 then 0 else -1 } }
  | .processYield => { k := k, r := r, code := [.processYield, .setRax 0] }
  | .processWaitPid pid => processWaitPidCode k r pid
  | .processWaitChildren =>
    match k.current with
    | none => { k := k, r := { r with rax := -1 } }
    | some current =>
      { k := k, r := r, code := [.waitChildrenLoop current (terminatedChildren k current) 0] }
  | .processGiveForeground pid =>
    if pid < PROCESS_FIRST_PID ∨ pid ≥ PROCESS_FIRST_PID + PROCESS_MAX_PROCESSES then
      { k := k, r := { r with rax := -1 } }
    else
      let g := giveForegroundTo k pid
      { k := g.2, r := { r with rax := g.1 } }
  | .processGetForeground => { k := k, r := { r with rax := k.foregroundPid } }

/-! ## `init` -/

/-- The arguments `init` creates its shell with. -/
def shellArgs (k : Kernel) (self : Addr) : CreateArgs :=
  { argc := 1, ppid := (k.proc self).pid, priority := SCHEDULER_MAX_PRIORITY, foreground := true
    entryPoint := 0x400000 }

/-- `init_first_process_entry` up to its loop. -/
def initFirstCode (k : Kernel) (r : Regs) : Outcome :=
  match k.current with
  | none => { k := k, r := r, code := [.initLoop] }
  | some self =>
    if k.shellCreated then { k := k, r := r, code := [.initLoop] }
    else { k := k, r := r, code := [.createProcess (shellArgs k self) .firstShell, .initLoop] }

/-- One turn of the `while (1)` of `init_first_process_entry`. -/
def initLoopCode (k : Kernel) (r : Regs) : Outcome :=
  match k.current with
  | none => { k := k, r := r, code := [.initTail none, .initLoop] }
  | some self =>
    { k := k, r := r
      code := [.initScan self (queueSize (k.proc self).children), .initTail (some self), .initLoop] }

/-- One turn of the reaping `for` of `init_first_process_entry`. -/
def initScanCode (k : Kernel) (r : Regs) (self : Addr) (left : Nat) : Outcome :=
  let popped := queuePop (k.proc self).children
  let k := k.setChildren self popped.2
  match popped.1 with
  | none => { k := k, r := r, code := [.initScan self left] }
  | some child =>
    if (k.proc child).state = .terminated then
      let respawn : List Instr :=
        if ((k.proc child).pid : Int) = k.mainShellPid then
          [.createProcess (shellArgs k self) .respawn]
        else []
      { k := k, r := r, code := [.reapChildProcess child] ++ respawn ++ [.initScan self left] }
    else
      { k := (pushChild k self child).2, r := r, code := [.initScan self left] }

/-- The end of a turn: `init` yields if some other process is in a ready queue. -/
def initTailCode (k : Kernel) (r : Regs) (self : Option Addr) : Outcome :=
  let k := levels.foldl queueForPriority k
  let found := levels.any (fun i => ((k.readyQueues i).getD []).any (fun p => decide (some p ≠ self)))
  { k := k, r := r, code := if found then [.processYield] else [] }

/-! ## One stretch of code -/

/-- Run one stretch of code. -/
def exec (k : Kernel) (r : Regs) : Instr → Outcome
  | .int20 => { k := k, r := r }
  | .processYield =>
    match k.current with
    | none => { k := k, r := r }
    | some current =>
      { k := k.modProc current Process.endQuantum, r := r, code := [.int20] }
  | .yieldForever => { k := k, r := r, code := [.processYield, .yieldForever] }
  | .hlt => { k := k, r := r, code := [.hlt] }
  | .user => { k := k, r := r, code := [.user] }
  | .entryWrapper =>
    match k.current with
    | none => { k := k, r := r, code := [.hlt] }
    | some current =>
      if (k.proc current).userEntryPoint = INIT_ENTRY then { k := k, r := r, code := [.initFirst] }
      else { k := k, r := r, code := [.user, .processExit current, .yieldForever] }
  | .setRax v => { k := k, r := { r with rax := v } }
  | .spin => { k := k, r := r, code := [.spin] }
  | .registryLock =>
    if k.registryLock then { k := k, r := r, code := [.registryLock] }
    else { k := { k with registryLock := true }, r := r }
  | .semWait sem => { k := k, r := r, code := [.semLock sem, .semWaitLocked sem] }
  | .semLock sem =>
    if (k.sem sem).lock then { k := k, r := r, code := [.semLock sem] }
    else { k := k.modSem sem (fun s => { s with lock := true }), r := r }
  | .semWaitLocked sem =>
    let w := semWaitBody k sem
    { k := w.2.2, r := r
      code := (if w.2.1 then [.int20] else []) ++ [.semWaitReturn sem w.1] }
  | .semWaitReturn sem ret =>
    { k := k, r := { r with rax := ret }, events := [.semReturned sem ret] }
  | .semPost sem => { k := k, r := r, code := [.semLock sem, .semPostLocked sem] }
  | .semPostLocked sem =>
    let p := semPostBody k sem
    { k := p.2, r := { r with rax := 0 }
      code := if p.1 ∧ k.timerMasked then [.processYield] else []
      events := [.semPosted sem] }
  | .semPostMany sem n =>
    { k := k, r := r, code := if n = 0 then [] else [.semPost sem, .semPostMany sem (n - 1)] }
  | .semDestroy sem =>
    { k := k, r := r, code := [.registryLock, .semUnregister sem, .semLock sem, .semDestroyLocked sem] }
  | .semUnregister sem => { k := semUnregister k sem, r := r }
  | .semDestroyLocked sem => { k := semDestroyBody k sem, r := r }
  | .semOpenCheck sem =>
    if (k.sem sem).name.isNone ∨ (k.sem sem).waitingProcesses.isNone then
      { k := k, r := r, code := [.semDestroy sem, .semFree sem, .setRax (-1)] }
    else { k := k, r := { r with rax := (sem : Int) } }
  | .semFree sem => { k := k.memFree sem, r := r }
  | .semReadValue sem value =>
    let current := (k.sem sem).count
    let k := semUnlock k sem
    { k := k, r := r
      code :=
        if value > current then [.semPostMany sem (value - current)]
        else if value < current then [.semLock sem, .semStoreValue sem value]
        else [] }
  | .semStoreValue sem value =>
    { k := k.modSem sem (fun s => { s with count := value, lock := false }), r := r }
  | .attachToPipe id =>
    match pipeOf k id with
    | none => { k := k, r := { r with rax := -1 } }
    | some pipe =>
      { k := k, r := r
        code := [.semWait (k.pipe pipe).mutex, .attachLocked pipe, .semPost (k.pipe pipe).mutex,
          .setRax 0] }
  | .attachLocked pipe => { k := k.modPipe pipe Pipe.attach, r := r }
  | .unattachFromPipe id pid =>
    match pipeOf k id with
    | none => { k := k, r := r }
    | some pipe =>
      if pid < PROCESS_FIRST_PID ∨ pid ≥ PROCESS_FIRST_PID + PROCESS_MAX_PROCESSES then
        { k := k, r := r }
      else
        let k := semRemoveProcess k (k.pipe pipe).canRead pid
        let k := semRemoveProcess k (k.pipe pipe).canWrite pid
        { k := k, r := r
          code := [.semWait (k.pipe pipe).mutex, .unattachLocked pipe, .semPost (k.pipe pipe).mutex] }
  | .unattachLocked pipe => { k := k.modPipe pipe Pipe.unattach, r := r }
  | .closePipe id =>
    match pipeOf k id with
    | none => { k := k, r := { r with rax := -1 } }
    | some pipe => { k := k, r := r, code := [.semWait (k.pipe pipe).mutex, .closeLocked id pipe] }
  | .closeLocked id pipe =>
    if r.rax = -1 then { k := k, r := r }
    else
      let attached := (k.pipe pipe).attachedCount
      if ¬ isStd id ∧ attached ≤ 1 then
        { k := k, r := r
          code := [.semLock (k.pipe pipe).canRead, .closeReaders id pipe attached] }
      else { k := k, r := r, code := closeTail k id pipe attached 0 0 }
  | .closeReaders id pipe attached =>
    let readers := semWaitingCount k (k.pipe pipe).canRead
    { k := semUnlock k (k.pipe pipe).canRead, r := r
      code := [.semLock (k.pipe pipe).canWrite, .closeWriters id pipe attached readers] }
  | .closeWriters id pipe attached readers =>
    let writers := semWaitingCount k (k.pipe pipe).canWrite
    { k := semUnlock k (k.pipe pipe).canWrite, r := r
      code := closeTail k id pipe attached readers writers }
  | .closeEnd id pipe attached =>
    if ¬ isStd id ∧ attached = 0 then
      { k := k, r := r
        code := [.semDestroy (k.pipe pipe).canRead, .semDestroy (k.pipe pipe).canWrite,
          .semDestroy (k.pipe pipe).mutex, .destroyPipeFree id pipe, .setRax 0] }
    else { k := k, r := { r with rax := 0 } }
  | .destroyPipeFree id pipe =>
    let k := k.memFree (k.pipe pipe).canRead
    let k := k.memFree (k.pipe pipe).canWrite
    let k := k.memFree (k.pipe pipe).mutex
    let k := k.memFree pipe
    { k := { k with pipes := Function.update k.pipes id none }, r := r }
  | .openPipe => openPipeCode k r
  | .openPipeFail pipe => { k := k.memFree pipe, r := { r with rax := -1 } }
  | .readPipe id bytes =>
    if bytes = 0 then { k := k, r := { r with rax := 0 } }
    else
      match pipeOf k id with
      | none => { k := k, r := { r with rax := -1 } }
      | some pipe => { k := k, r := r, code := [.readLoop pipe bytes []] }
  | .readLoop pipe bytes done =>
    if done.length < bytes then
      { k := k, r := r, code := [.semWait (k.pipe pipe).mutex, .readLocked pipe bytes done] }
    else { k := k, r := r, code := [.readReturn done (toInt done.length)] }
  | .readLocked pipe bytes done =>
    let p := k.pipe pipe
    if p.dataCount = 0 then
      if p.attachedCount ≤ 1 then { k := k, r := r, code := [.semPost p.mutex, .readReturn done 0] }
      else
        { k := k.modPipe pipe Pipe.addReader, r := r
          code := [.semPost p.mutex, .semWait p.canRead, .semWait p.mutex, .readWoken pipe,
            .semPost p.mutex, .readLoop pipe bytes done] }
    else
      { k := k.modPipe pipe Pipe.take, r := r
        code := [.semPost p.mutex, .semPost p.canWrite,
          .readLoop pipe bytes (done ++ [p.buffer p.readIdx])]
        events := [.took pipe (p.buffer p.readIdx)] }
  | .readWoken pipe => { k := k.modPipe pipe Pipe.dropReader, r := r }
  | .readReturn done ret => { k := k, r := { rax := ret, buf := done } }
  | .writePipe id bytes =>
    if bytes.length = 0 then { k := k, r := { r with rax := 0 } }
    else
      match pipeOf k id with
      | none => { k := k, r := { r with rax := -1 } }
      | some pipe => { k := k, r := r, code := [.writeLoop pipe bytes 0] }
  | .writeLoop pipe bytes written =>
    if written < bytes.length then
      { k := k, r := r, code := [.semWait (k.pipe pipe).mutex, .writeLocked pipe bytes written] }
    else { k := k, r := { r with rax := (written : Int) } }
  | .writeLocked pipe bytes written =>
    let p := k.pipe pipe
    if p.dataCount = PIPE_BUFFER_SIZE then
      { k := k.modPipe pipe Pipe.addWriter, r := r
        code := [.semPost p.mutex, .semWait p.canWrite, .semWait p.mutex, .writeWoken pipe,
          .semPost p.mutex, .writeLoop pipe bytes written] }
    else
      { k := k.modPipe pipe (fun p => p.put (bytes.getD written 0)), r := r
        code := [.semPost p.mutex, .semPost p.canRead, .writeLoop pipe bytes (written + 1)]
        events := [.put pipe (bytes.getD written 0)] }
  | .writeWoken pipe => { k := k.modPipe pipe Pipe.dropWriter, r := r }
  | .clearPipe id =>
    match pipeOf k id with
    | none => { k := k, r := r }
    | some pipe => { k := k, r := r, code := [.semWait (k.pipe pipe).mutex, .clearLocked pipe] }
  | .clearLocked pipe =>
    { k := k.modPipe pipe Pipe.reset, r := r
      code := [.semLock (k.pipe pipe).canWrite, .clearCount pipe], events := [.cleared pipe] }
  | .clearCount pipe =>
    let writers := semWaitingCount k (k.pipe pipe).canWrite
    { k := semUnlock k (k.pipe pipe).canWrite, r := r
      code := .semPost (k.pipe pipe).mutex ::
        List.replicate writers (.semPost (k.pipe pipe).canWrite) }
  | .fdAttach cur changes rest attached =>
    match rest with
    | [] =>
      { k := k, r := r
        code := changes.flatMap (fun c => [.fdSet cur c.1 c.2.2, .fdUnattach cur c.2.1]) ++
          [.setRax 0] }
    | c :: rest =>
      { k := k, r := r, code := [.attachToPipe c.2.2, .fdAttached cur changes c rest attached] }
  | .fdAttached cur changes change rest attached =>
    if r.rax = 0 then
      { k := k, r := r, code := [.fdAttach cur changes rest (attached ++ [change.2.2])] }
    else { k := k, r := r, code := attached.map (.fdUnattach cur) ++ [.setRax (-1)] }
  | .fdSet cur fd target =>
    { k := k.modProc cur (fun p => p.setTargets (Function.update p.fdTargets fd target)), r := r }
  | .fdUnattach cur id => { k := k, r := r, code := [.unattachFromPipe id (k.proc cur).pid] }
  | .writeAfter cur fd id =>
    if r.rax < 0 then { k := k, r := r }
    else if (fd = 1 ∧ (k.proc cur).fdTargets 1 = STDOUT) ∨
        (fd = 2 ∧ (k.proc cur).fdTargets 2 = STDERR) then
      { k := k, r := r, code := [.writeDrain id r.rax.toNat r.rax.toNat] }
    else { k := k, r := r }
  | .writeDrain id left written =>
    if left = 0 then { k := k, r := { r with rax := (written : Int) } }
    else { k := k, r := r, code := [.readPipe id 1, .writeDrained id (left - 1) written] }
  | .writeDrained id left written =>
    if r.rax = -1 then { k := k, r := r }
    else
      { k := k, r := r, code := [.writeDrain id left written]
        events := [.printed id (r.buf.headD 0)] }
  | .processExit process =>
    let p := k.proc process
    let e := exitFirstHalf k process
    { k := e.2, r := r
      code := [.exitUnattach process (p.fdTargets 0), .exitUnattach process (p.fdTargets 1),
        .exitUnattach process (p.fdTargets 2), .closePipe (p.fdTargets 0),
        .closePipe (p.fdTargets 1), .closePipe (p.fdTargets 2), .exitSemLock process,
        .exitSemPost process] ++ (if e.1 then [.int20] else []) }
  | .exitUnattach process id =>
    { k := k, r := r, code := [.unattachFromPipe id (k.proc process).pid] }
  | .exitSemLock process =>
    { k := k, r := r, code := onSem (k.proc process).exitSem (fun s => [.semLock s]) }
  | .exitSemPost process =>
    match (k.proc process).exitSem with
    | none => { k := k, r := r }
    | some sem =>
      let p := semPostBody k sem
      { k := p.2, r := r, code := if p.1 ∧ k.timerMasked then [.processYield] else []
        events := [.semPosted sem] }
  | .createProcess args use => createProcessCode k r args use
  | .createNamed c sem name targets => createNamedCode k r c sem name targets
  | .createAttach c targets attached =>
    match targets with
    | [] => { k := k, r := r, code := [.createRegister c attached] }
    | target :: targets =>
      { k := k, r := r, code := [.attachToPipe target, .createAttached c target targets attached] }
  | .createAttached c target targets attached =>
    if r.rax = 0 then { k := k, r := r, code := [.createAttach c targets (target :: attached)] }
    else if c.args.ppid ≥ PROCESS_FIRST_PID then createRollback k r c attached
    else { k := k, r := r, code := [.createAttach c targets attached] }
  | .createRegister c attached => createRegisterCode k r c attached
  | .createForeground c => { k := createForeground k c, r := r, code := [.createMark c] }
  | .createMark c => { k := createMark k c.process c.use, r := r, code := [.createDone c] }
  | .createDone c => createDone k r c.process c.use
  | .createFailed use => createFailed k r use
  | .processFreeMemory process =>
    { k := freeArgvAndStack k process, r := r
      code := onSem (k.proc process).exitSem (fun s => [.semDestroy s]) ++ [.processFreeRest process] }
  | .processFreeRest process => { k := freeExitSemAndProcess k process, r := r }
  | .reapChildProcess process =>
    { k := k, r := r
      code := onSem (k.proc process).exitSem (fun s => [.semWait s]) ++ [.reapUnregister process] }
  | .reapUnregister process =>
    { k := processUnregister k (k.proc process).pid, r := r
      code := [.processFreeMemory process, .setRax 0], events := [.reaped process] }
  | .waitChildrenLoop parent terminated reaped =>
    match terminated with
    | [] => { k := k, r := { r with rax := (reaped : Int) } }
    | child :: rest =>
      let removed := removeChild k parent child
      { k := removed.2, r := r
        code :=
          if removed.1 then [.reapChildProcess child, .waitChildrenLoop parent rest (reaped + 1)]
          else [.waitChildrenLoop parent rest reaped] }
  | .initFirst => initFirstCode k r
  | .initLoop => initLoopCode k r
  | .initScan self left => if left = 0 then { k := k, r := r } else initScanCode k r self (left - 1)
  | .initTail self => initTailCode k r self
  | .sys c => sysCode k r c
  | .excMask masked => { k := { k with timerMasked := masked }, r := r }
  | .excRead cur => { k := k, r := r, code := [.readPipe ((k.proc cur).fdTargets 0) 1, .excReadDone cur] }
  | .excReadDone cur =>
    if r.rax ≠ 1 then { k := k, r := r }
    else if r.buf.headD 0 = 114 then { k := k, r := r }
    else { k := k, r := r, code := [.excRead cur] }

end TpSo
