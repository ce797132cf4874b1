import TpSo.Kernel.Code
import TpSo.Library.Run

set_option autoImplicit false

/-! # The `mvar` command

`mvar`, `mvar_writer` and `mvar_reader` of `commands.c`: any number of runs of the command, each with its
writers and readers. They share the address space, and so `mvar_var` and `mvar_run_counter`. The
semaphores are counts, found by name; every access to shared memory, every call and every
`processCreate` is a step of its own. -/

namespace TpSo

namespace Mvar

def MVAR_MAX_READERS : Nat := 10
def MVAR_MAX_WRITERS : Nat := 10

/-- `writer_ids` and `reader_ids`. -/
def writerIds : List Char := ['A', 'B', 'C', 'D', 'E', 'F', 'G', 'H', 'I', 'J']
def readerIds : List Char := ['1', '2', '3', '4', '5', '6', '7', '8', '9', '0']

/-! ## `mvar_build_name` -/

/-- The `do`-`while` that fills `digits`: the lowest digit first, at most `room` of them. -/
def digits : (room value : Nat) → List Char
  | 0, _ => []
  | room + 1, value =>
    digitChar (value % 10) :: if value / 10 = 0 then [] else digits room (value / 10)

/-- `mvar_build_name`: the characters it leaves in `dest`. -/
def buildName (destLen : Nat) (stem : Name) (runId : Nat) : Name :=
  if destLen = 0 then []
  else
    let dest := stem.take (destLen - 1)
    if dest.length ≥ destLen - 1 then dest
    else (dest ++ (digits 10 runId).reverse).take (destLen - 1)

/-- `empty_name` and `full_name`. -/
def emptyName (runId : Nat) : Name :=
  buildName 32 ['m', 'v', 'a', 'r', '_', 'e', 'm', 'p', 't', 'y', '_'] runId
def fullName (runId : Nat) : Name :=
  buildName 32 ['m', 'v', 'a', 'r', '_', 'f', 'u', 'l', 'l', '_'] runId

/-! ## Processes -/

/-- Where a process is in `mvar`. -/
inductive RunPc
  /-- At the test of its arguments. -/
  | start
  /-- At `mvar_run_counter++`: before the load and before the store. -/
  | load | store
  | openEmpty | openFull
  /-- At the test of the maxima. -/
  | test
  | writers | readers
  | returned
  /-- It has returned before it opened its semaphores. -/
  | refused
  deriving DecidableEq, Repr

/-- The variables of `mvar`. -/
structure Run where
  pc : RunPc := .start
  writers : Int
  readers : Int
  runId : Nat := 0
  i : Nat := 0

namespace Run

/-- It has opened its semaphore `empty_name`. -/
def emptyOpen (x : Run) : Bool :=
  match x.pc with
  | .openFull | .test | .writers | .readers | .returned => true
  | .start | .load | .store | .openEmpty | .refused => false

/-- And its semaphore `full_name`. -/
def fullOpen (x : Run) : Bool :=
  match x.pc with
  | .test | .writers | .readers | .returned => true
  | .start | .load | .store | .openEmpty | .openFull | .refused => false

end Run

/-- `mvar_writer` or `mvar_reader`. -/
inductive Role
  | writer | reader
  deriving DecidableEq, Repr

/-- Where a process is in `mvar_writer` or `mvar_reader`. -/
inductive Pc
  /-- At the two `semOpen`. -/
  | opens
  /-- At `sleep(sleep_time)`, or at the `semWait` behind it. -/
  | wait
  /-- At the access to `mvar_var[0]`. -/
  | access
  /-- At the `printf` of the reader. -/
  | print
  /-- At `semPost`. -/
  | post
  deriving DecidableEq, Repr

/-- A process that runs `mvar_writer` or `mvar_reader`, of the run `run`. -/
structure Worker where
  role : Role
  run : Nat
  id : Char
  emptyName : Name
  fullName : Name
  pc : Pc := .opens
  value : Char := '\x00'

/-- What all processes share. `puts`, `reads` and `prints` are, for each run, the values its writers
    have put and its readers have read and printed; no process looks at them. -/
structure State where
  var : Char
  runCounter : Nat
  sems : Name → Option Nat
  runs : Nat → Option Run
  workers : Nat → Option Worker
  puts : Nat → List Char
  reads : Nat → List Char
  prints : Nat → List Char

namespace State

/-- Before the first command. -/
def start : State where
  var := '\x00'
  runCounter := 0
  sems _ := none
  runs _ := none
  workers _ := none
  puts _ := []
  reads _ := []
  prints _ := []

def setRun (s : State) (r : Nat) (x : Run) : State := { s with runs := Function.update s.runs r (some x) }

def setWorker (s : State) (w : Nat) (y : Worker) : State :=
  { s with workers := Function.update s.workers w (some y) }

def setSem (s : State) (name : Name) (count : Nat) : State :=
  { s with sems := Function.update s.sems name (some count) }

/-! ## Semaphores -/

/-- `semOpen(name, count, 1)`. -/
def semOpen (s : State) (name : Name) (count : Nat) : State :=
  match s.sems name with
  | some _ => s
  | none => s.setSem name count

/-- `semWait`, which returns once there is a token. -/
def semWait (s : State) (name : Name) : Option State :=
  match s.sems name with
  | some (count + 1) => some (s.setSem name count)
  | _ => none

/-- `semPost`. -/
def semPost (s : State) (name : Name) : Option State :=
  (s.sems name).map (fun count => s.setSem name (count + 1))

/-! ## Steps -/

/-- `processCreate` in the place `created`, which is free; without one it fails. -/
def create (s : State) (created : Option Nat) (y : Worker) : Option State :=
  match created with
  | none => some s
  | some w => if (s.workers w).isNone then some (s.setWorker w y) else none

/-- A step of `mvar`. -/
def runStep (s : State) (r : Nat) (x : Run) (created : Option Nat) : Option State :=
  match x.pc with
  | .start =>
    some (s.setRun r { x with pc := if x.writers ≤ 0 ∨ x.readers ≤ 0 then .refused else .load })
  | .load => some (s.setRun r { x with pc := .store, runId := s.runCounter })
  | .store => some { s.setRun r { x with pc := .openEmpty } with runCounter := (x.runId + 1) % 2 ^ 32 }
  | .openEmpty => some ((s.semOpen (emptyName x.runId) 1).setRun r { x with pc := .openFull })
  | .openFull => some ((s.semOpen (fullName x.runId) 0).setRun r { x with pc := .test })
  | .test =>
    some (s.setRun r { x with
      pc := if x.writers > MVAR_MAX_WRITERS ∨ x.readers > MVAR_MAX_READERS then .returned else .writers })
  | .writers =>
    if (x.i : Int) < x.writers then
      (s.create created { role := .writer, run := r, id := writerIds.getD x.i '\x00'
                          emptyName := emptyName x.runId, fullName := fullName x.runId }).map
        (fun s => s.setRun r { x with i := x.i + 1 })
    else some (s.setRun r { x with pc := .readers, i := 0 })
  | .readers =>
    if (x.i : Int) < x.readers then
      (s.create created { role := .reader, run := r, id := readerIds.getD x.i '\x00'
                          emptyName := emptyName x.runId, fullName := fullName x.runId }).map
        (fun s => s.setRun r { x with i := x.i + 1 })
    else some (s.setRun r { x with pc := .returned })
  | .returned | .refused => none

/-- A step of `mvar_writer` or `mvar_reader`. -/
def workerStep (s : State) (w : Nat) (y : Worker) : Option State :=
  match y.pc, y.role with
  -- a `semOpen` that finds no semaphore returns -1, which the test for `NULL` lets pass
  | .opens, _ => some (s.setWorker w { y with pc := .wait })
  | .wait, .writer => (s.semWait y.emptyName).map (fun s => s.setWorker w { y with pc := .access })
  | .wait, .reader => (s.semWait y.fullName).map (fun s => s.setWorker w { y with pc := .access })
  | .access, .writer =>
    some { s.setWorker w { y with pc := .post } with
      var := y.id, puts := Function.update s.puts y.run (s.puts y.run ++ [y.id]) }
  | .access, .reader =>
    some { s.setWorker w { y with pc := .print, value := s.var } with
      reads := Function.update s.reads y.run (s.reads y.run ++ [s.var]) }
  | .print, .writer => none
  | .print, .reader =>
    some { s.setWorker w { y with pc := .post } with
      prints := Function.update s.prints y.run (s.prints y.run ++ [y.value]) }
  | .post, .writer => (s.semPost y.fullName).map (fun s => s.setWorker w { y with pc := .wait })
  | .post, .reader => (s.semPost y.emptyName).map (fun s => s.setWorker w { y with pc := .wait })

/-- Which process goes on. -/
inductive Action
  /-- The command `mvar writers readers` is started: the run `r`. -/
  | command (r : Nat) (writers readers : Int)
  | run (r : Nat) (created : Option Nat)
  | worker (w : Nat)

/-- One step. -/
def step (s : State) : Action → Option State
  | .command r writers readers =>
    if (s.runs r).isNone then some (s.setRun r { writers := writers, readers := readers }) else none
  | .run r created => (s.runs r).bind (fun x => s.runStep r x created)
  | .worker w => (s.workers w).bind (s.workerStep w)

end State

end Mvar

end TpSo
