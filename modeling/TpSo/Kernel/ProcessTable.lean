import TpSo.Kernel.Types

set_option autoImplicit false

/-! # The process table (`pcb` in `process.c`)

`process_table_init` has run before anything here is called, so `pcb` is never `NULL`. -/

namespace TpSo

/-- `process_lookup`. -/
def processLookup (k : Kernel) (pid : Nat) : Option Addr :=
  if pid < PROCESS_FIRST_PID then none
  else
    let index := pid - PROCESS_FIRST_PID
    if index ≥ PROCESS_MAX_PROCESSES then none else k.processes index

/-- `process_register`. -/
def processRegister (k : Kernel) (process : Addr) : Bool × Kernel :=
  let pid := (k.proc process).pid
  if pid < PROCESS_FIRST_PID then (false, k)
  else
    let index := pid - PROCESS_FIRST_PID
    if index ≥ PROCESS_MAX_PROCESSES then (false, k)
    else if (k.processes index).isSome then (false, k)
    else (true, { k with
      processes := Function.update k.processes index (some process)
      processCount := k.processCount + 1 })

/-- `process_unregister`. -/
def processUnregister (k : Kernel) (pid : Nat) : Kernel :=
  if pid < PROCESS_FIRST_PID then k
  else
    let index := pid - PROCESS_FIRST_PID
    if index ≥ PROCESS_MAX_PROCESSES then k
    else if (k.processes index).isNone then k
    else { k with
      runningPid := if k.runningPid = (pid : Int) then -1 else k.runningPid
      processes := Function.update k.processes index none
      processCount := k.processCount - 1 }

/-- `process_set_running`. -/
def processSetRunning (k : Kernel) (process : Option Addr) : Kernel :=
  match process with
  | none => { k with runningPid := -1 }
  | some p => { k with runningPid := ((k.proc p).pid : Int) }

/-- `get_pid`. -/
def getPid (k : Kernel) : Int :=
  if k.runningPid < (PROCESS_FIRST_PID : Int) then -1
  else if k.runningPid ≥ ((PROCESS_FIRST_PID + PROCESS_MAX_PROCESSES : Nat) : Int) then -1
  else k.runningPid

/-- `allocate_pid`: the pid of the first free slot, or 0. -/
def allocatePid (k : Kernel) : Nat :=
  match (List.range PROCESS_MAX_PROCESSES).find? (fun i => (k.processes i).isNone) with
  | some i => PROCESS_FIRST_PID + i
  | none => 0

end TpSo
