import TpSo.Kernel.ProcessTable

set_option autoImplicit false

/-! # The scheduler (`scheduler.c`)

Every function here disables interrupts around its accesses, or runs inside the timer interrupt,
so each is one function on `Kernel`. -/

namespace TpSo

/-- `priority_index`. -/
def priorityIndex (priority : Nat) : Nat :=
  (if priority > SCHEDULER_MIN_PRIORITY then SCHEDULER_MIN_PRIORITY else priority)
    - SCHEDULER_MAX_PRIORITY

/-- `queue_for_priority`: creates the queue of the level when it is missing. The queue is the one at
    `priorityIndex priority`. -/
def queueForPriority (k : Kernel) (priority : Nat) : Kernel :=
  match k.readyQueues (priorityIndex priority) with
  | some _ => k
  | none => (queueCreate Addr k).2.setReady (priorityIndex priority) (queueCreate Addr k).1

/-- `queue_push(queue_for_priority(priority), process)`, its result ignored. -/
def pushReady (k : Kernel) (priority : Nat) (process : Addr) : Kernel :=
  let k := queueForPriority k priority
  let r := queuePush k (k.readyQueues (priorityIndex priority)) process
  r.2.2.setReady (priorityIndex priority) r.2.1

/-- `priority_from_usage`: the first level whose threshold is above the scaled usage. -/
def priorityFromUsage (ticksUsed : Nat) : Nat :=
  let ticksUsed := min ticksUsed SCHEDULER_DEFAULT_QUANTUM
  let scaledUsage := ticksUsed * SCHEDULER_PRIORITY_LEVELS
  match (List.range SCHEDULER_PRIORITY_LEVELS).find?
      (fun i => decide (scaledUsage < SCHEDULER_DEFAULT_QUANTUM * (i + 1))) with
  | some i => SCHEDULER_MAX_PRIORITY + i
  | none => SCHEDULER_MAX_PRIORITY + SCHEDULER_PRIORITY_LEVELS - 1

/-- `scheduler_should_age`. The tick difference is taken modulo `2 ^ 64`. -/
def schedulerShouldAge (k : Kernel) (process : Addr) : Bool :=
  if some process = k.idle then false
  else if (k.proc process).priority ≤ SCHEDULER_MAX_PRIORITY then false
  else
    decide ((k.totalTicks + 2 ^ 64 - (k.proc process).readySinceTick) % 2 ^ 64
      ≥ SCHEDULER_AGING_THRESHOLD)

/-- The guard `if (process->is_shell && process->priority < SCHEDULER_MAX_PRIORITY)` that follows
    two of the assignments to `priority`. -/
def shellFloor (p : Process) (priority : Nat) : Nat :=
  if p.isShell ∧ priority < SCHEDULER_MAX_PRIORITY then SCHEDULER_MAX_PRIORITY else priority

/-- The promotion `scheduler_age_ready` makes of one process. -/
def agePromote (k : Kernel) (process : Addr) : Kernel :=
  k.modProc process (fun p =>
    { p with priority := shellFloor p (p.priority - 1), readySinceTick := k.totalTicks })

/-- The inner loop of `scheduler_age_ready` over the `items` first entries of one level. -/
def ageLevel (k : Kernel) (priority : Nat) : Nat → Kernel
  | 0 => k
  | items + 1 =>
    match queuePop (k.readyQueues (priorityIndex priority)) with
    | (none, _) => k
    | (some process, q) =>
      let k := k.setReady (priorityIndex priority) q
      if (k.proc process).state = .ready ∧ schedulerShouldAge k process then
        let k := agePromote k process
        ageLevel (pushReady k (k.proc process).priority process) priority items
      else
        let r := queuePush k (k.readyQueues (priorityIndex priority)) process
        ageLevel (r.2.2.setReady (priorityIndex priority) r.2.1) priority items

/-- `scheduler_age_ready`: one pass over the levels below the top one. -/
def schedulerAgeReady (k : Kernel) : Kernel :=
  [1, 2, 3, 4, 5].foldl (fun k priority =>
    let k := queueForPriority k priority
    ageLevel k priority (queueSize (k.readyQueues (priorityIndex priority)))) k

/-- `scheduler_remove_ready`: strips every occurrence of the process from every level; the idle
    process is left alone. -/
def schedulerRemoveReady (k : Kernel) (process : Addr) : Kernel :=
  if some process = k.idle then k
  else { k with readyQueues := fun i => queueRemoveAll (k.readyQueues i) process }

/-- The fields `scheduler_add_ready` writes before it pushes. -/
def readyFields (k : Kernel) (process : Addr) (p : Process) : Process :=
  let priority :=
    if some process = k.idle then p.priority
    else if p.priorityFixed then p.priorityRequested
    else
      let priority := priorityFromUsage p.lastQuantumTicks
      if p.isShell ∧ priority > SHELL_PRIORITY_THRESHOLD then SHELL_PRIORITY_THRESHOLD else priority
  { p with
    state := .ready
    priority := priority
    remainingQuantum := SCHEDULER_DEFAULT_QUANTUM
    lastQuantumTicks := 0
    readySinceTick := k.totalTicks }

/-- `scheduler_add_ready`. The result of `queue_push` is ignored, as in the source. -/
def schedulerAddReady (k : Kernel) (process : Addr) : Kernel :=
  let k := if (k.proc process).state = .ready then schedulerRemoveReady k process else k
  let k := k.modProc process (readyFields k process)
  pushReady k (k.proc process).priority process

/-! ## `schedule_tick` -/

/-- `current->remaining_quantum = 0` of `process_yield`. -/
def Process.endQuantum (p : Process) : Process := { p with remainingQuantum := 0 }

/-- One more tick of the running process's quantum is gone. `last_quantum_ticks` is a `uint8_t`. -/
def chargeTick (p : Process) : Process :=
  let remainingQuantum := p.remainingQuantum - 1
  { p with
    remainingQuantum := remainingQuantum
    lastQuantumTicks := (SCHEDULER_DEFAULT_QUANTUM + 256 - remainingQuantum) % 256 }

/-- The first half of `schedule_tick`: what becomes of the interrupted process, and whether another
    one must be chosen. -/
def tickRunning (k : Kernel) (currentRsp : Nat) : Bool × Kernel :=
  match k.current with
  | none => (true, k)
  | some running =>
    let k := k.modProc running (fun p => { p with rsp := currentRsp })
    if some running = k.idle then (true, k.setState running .ready)
    else if (k.proc running).state ≠ .running then
      (true, processSetRunning { k with current := none } none)
    else if (k.proc running).remainingQuantum > 0 then
      (false, k.modProc running chargeTick)
    else
      (true, processSetRunning { schedulerAddReady k running with current := none } none)

/-- The selection loop of `schedule_tick`: pop each level once, from the top; a popped entry that is
    not `READY`, or that is the idle process, is dropped and the next level is tried. -/
def pickNext (k : Kernel) : List Nat → Option Addr × Kernel
  | [] => (none, k)
  | priority :: rest =>
    let k := queueForPriority k priority
    let r := queuePop (k.readyQueues (priorityIndex priority))
    let k := k.setReady (priorityIndex priority) r.2
    match r.1 with
    | none => pickNext k rest
    | some next =>
      if (k.proc next).state = .ready then
        if some next = k.idle then
          pickNext (k.setState next .ready) rest
        else (some next, k)
      else pickNext k rest

/-- The levels in the order `schedule_tick` looks at them. -/
def levels : List Nat := List.range SCHEDULER_PRIORITY_LEVELS

/-- `schedule_tick` once a process other than idle has been popped. -/
def dispatch (k : Kernel) (next : Addr) : Kernel :=
  let k := { k with current := some next }
  let k := k.modProc next (fun p =>
    { p with
      state := .running
      remainingQuantum := SCHEDULER_DEFAULT_QUANTUM - 1
      lastQuantumTicks := 1 })
  processSetRunning { k with contextSwitches := k.contextSwitches + 1 } (some next)

/-- `idle` becomes current; the interrupted stack pointer is stored in it. -/
def takeOver (k : Kernel) (idle : Addr) (currentRsp : Nat) : Kernel :=
  let k := k.modProc idle (fun p => { p with rsp := currentRsp, state := .running })
  let k := { k with
    contextSwitches := if k.current ≠ some idle then k.contextSwitches + 1 else k.contextSwitches
    current := some idle }
  processSetRunning k (some idle)

/-- The tail of `schedule_tick`: no process was found, so idle takes over. -/
def dispatchIdle (k : Kernel) (currentRsp : Nat) : Nat × Kernel :=
  match k.idle with
  | none => (currentRsp, processSetRunning k none)
  | some idle => (((takeOver k idle currentRsp).proc idle).rsp, takeOver k idle currentRsp)

/-- `scheduler.metrics.total_ticks++`, a `uint64_t`. -/
def countTick (k : Kernel) : Kernel := { k with totalTicks := (k.totalTicks + 1) % 2 ^ 64 }

/-- `schedule_tick`: takes the interrupted stack pointer, returns the one to resume from. -/
def scheduleTick (k : Kernel) (currentRsp : Nat) : Nat × Kernel :=
  let r := tickRunning (countTick k) currentRsp
  if r.1 then
    let picked := pickNext (schedulerAgeReady r.2) levels
    match picked.1 with
    | some next => ((picked.2.proc next).rsp, dispatch picked.2 next)
    | none => dispatchIdle picked.2 currentRsp
  else (currentRsp, processSetRunning r.2 r.2.current)

/-! ## `scheduler_set_process_priority` -/

/-- Move the entries of a list to the end of a queue, one `queue_push` each. -/
def transfer (k : Kernel) (q : Queue Addr) : List Addr → Queue Addr × Kernel
  | [] => (q, k)
  | entry :: rest =>
    let r := queuePush k q entry
    transfer r.2.2 r.2.1 rest

/-- The purge of `process` from its old level through a temporary queue; `none` when that queue
    cannot be allocated. -/
def purgeLevel (k : Kernel) (process : Addr) (oldPriority : Nat) : Option Kernel :=
  let k := queueForPriority k oldPriority
  let source := k.readyQueues (priorityIndex oldPriority)
  let buffer := queueCreate Addr k
  if buffer.1.isNone then none
  else
    let toBuffer := transfer buffer.2 buffer.1 ((source.getD []).filter (fun e => decide (e ≠ process)))
    let back := transfer toBuffer.2 (source.map (fun _ => [])) (toBuffer.1.getD [])
    some (back.2.setReady (priorityIndex oldPriority) back.1)

/-- The fields `scheduler_set_process_priority` writes. -/
def priorityFields (priority : Nat) (p : Process) : Process :=
  { p with
    priority := shellFloor p priority
    priorityRequested := shellFloor p priority
    priorityFixed := true }

/-- A `READY` process whose priority changed is enqueued at its new level. -/
def enqueueMoved (k : Kernel) (process : Addr) (oldPriority : Nat) : Kernel :=
  if (k.proc process).state = .ready ∧ (k.proc process).priority ≠ oldPriority then
    pushReady k (k.proc process).priority process
  else k

/-- The current process gets a fresh quantum. -/
def refreshQuantum (k : Kernel) (process : Addr) : Kernel :=
  if k.current = some process then
    k.modProc process (fun p => { p with remainingQuantum := SCHEDULER_DEFAULT_QUANTUM })
  else k

/-- The end of `scheduler_set_process_priority`, once `process` is out of its old queue. -/
def storePriority (k : Kernel) (process : Addr) (priority oldPriority : Nat) : Kernel :=
  refreshQuantum (enqueueMoved (k.modProc process (priorityFields priority)) process oldPriority)
    process

/-- `scheduler_set_process_priority`. -/
def schedulerSetProcessPriority (k : Kernel) (pid priority : Nat) : Int × Kernel :=
  if priority > SCHEDULER_MIN_PRIORITY then (-1, k)
  else
    match processLookup k pid with
    | none => (-1, k)
    | some process =>
      if (k.proc process).state = .terminated then (-1, k)
      else if some process = k.idle then (-1, k)
      else if (k.proc process).isShell ∧ priority > SHELL_PRIORITY_THRESHOLD then (-1, k)
      else
        let oldPriority := (k.proc process).priority
        let purged :=
          if (k.proc process).state = .ready ∧ priority ≠ oldPriority then
            purgeLevel k process oldPriority
          else some k
        match purged with
        | none => (-1, (queueCreate Addr (queueForPriority k oldPriority)).2)
        | some k => (0, storePriority k process priority oldPriority)

end TpSo
