import TpSo.Library.Run
import TpSo.Machine.Spared
import Mathlib.Data.BitVec
import Mathlib.Algebra.BigOperators.Group.Finset.Basic

set_option autoImplicit false

/-! # Processes that share a counter

`process_inc` of `test_sync.c`, as the processes of the kernel run it: any number of them, each with its
own number of iterations and its own increment. Every memory access and every system call is a step
of its own; the kernel runs between any two of them. -/

namespace TpSo

/-! ## The program -/

/-- Where a process is in `process_inc` and the `slow_increment` it calls. -/
inductive Pc
  /-- Before the loop. -/
  | start
  /-- At the condition of the `for`, and then at `semWait(sync_sem)`. -/
  | loop
  /-- At `int64_t tmp = *value`. -/
  | read
  /-- At `processYield()`. -/
  | yield
  /-- At `tmp += delta; *value = tmp`. -/
  | write
  /-- At `semPost(sync_sem)`, and then at `i++`. -/
  | post
  /-- Past the loop, at `processExit(0)`. -/
  | done
  deriving DecidableEq, Repr

/-- The variables of `process_inc` and `slow_increment`. -/
structure Worker where
  pc : Pc := .start
  i : Nat := 0
  tmp : BitVec 64 := 0

/-- The processes that run `process_inc` with `use_sem`, with `sync_sem` and their arguments. -/
structure Team where
  sem : Addr
  members : Finset Addr
  iterations : Addr → Nat
  delta : Addr → BitVec 64

/-- The machine, the variables of the processes and `shared_value`. -/
structure SyncTest where
  m : Machine
  worker : Addr → Worker
  value : BitVec 64

/-- One step of the machine, or of the program of the process that runs. -/
inductive SyncAction
  | kernel (a : Action)
  | user

namespace SyncTest

/-- Before any process of the team has come to its loop. -/
def start (m : Machine) (value : BitVec 64) : SyncTest := { m := m, worker := fun _ => {}, value := value }

/-- The process is in the loop of `process_inc`. -/
def InLoop (T : Team) (σ : SyncTest) (w : Addr) : Prop :=
  w ∈ T.members ∧ (σ.worker w).pc ≠ .start ∧ (σ.worker w).pc ≠ .done

instance (T : Team) (σ : SyncTest) (w : Addr) : Decidable (σ.InLoop T w) :=
  inferInstanceAs (Decidable (_ ∧ _))

/-- The process is between `semWait` and `semPost`: its `semWait` has returned, and it has not called
    `semPost` yet. -/
def InCritical (T : Team) (σ : SyncTest) (w : Addr) : Prop :=
  w ∈ T.members ∧
    match (σ.worker w).pc with
    | .read => (σ.m.threads w).sys = []
    | .yield | .write | .post => True
    | .start | .loop | .done => False

/-- The program of the process `w` goes on with other variables. -/
def goOn (σ : SyncTest) (w : Addr) (x : Worker) : SyncTest :=
  { σ with worker := Function.update σ.worker w x }

/-- The same in a system call. -/
def call (σ : SyncTest) (c : Syscall) (w : Addr) (x : Worker) : Option SyncTest :=
  (σ.m.step (.syscall c)).map (fun m => { σ.goOn w x with m := m })

/-- One step of the program of `w`, which runs. It comes to its loop as the current process. -/
def userStep (T : Team) (σ : SyncTest) (w : Addr) : Option SyncTest :=
  let x := σ.worker w
  match x.pc with
  | .start =>
    if σ.m.k.current = some w ∧ (σ.m.k.proc w).state = .running then
      some (σ.goOn w { x with pc := .loop })
    else none
  | .loop =>
    if x.i < T.iterations w then σ.call (.semWait T.sem) w { x with pc := .read }
    else some (σ.goOn w { x with pc := .done })
  | .read => some (σ.goOn w { x with pc := .yield, tmp := σ.value })
  | .yield => σ.call .processYield w { x with pc := .write }
  | .write => some { σ.goOn w { x with pc := .post } with value := x.tmp + T.delta w }
  | .post => σ.call (.semPost T.sem) w { x with pc := .loop, i := x.i + 1 }
  | .done => none

/-- One step. A process in its loop makes no other system calls than its program's, and nothing but
    ticks interrupts it. Before and after its loop it does whatever it likes, and so do all
    others. -/
def step (T : Team) (σ : SyncTest) : SyncAction → Option SyncTest
  | .kernel a =>
    if σ.InLoop T σ.m.cpu ∧ ¬ (a matches .exec | .tick) then none
    else (σ.m.step a).map (fun m => { σ with m := m })
  | .user =>
    if σ.m.cpu ∈ T.members ∧ σ.m.interruptsEnabled ∧ σ.m.next matches some .user then
      σ.userStep T σ.m.cpu
    else none

end SyncTest

/-! ## What the others leave alone -/

/-- The step blocks, wakes, ends and makes anew none of these processes, and gives no memory away that
    a ready queue refers to. -/
structure LeavesAlone (P : Addr → Prop) (m : Machine) (a : Action) : Prop where
  spares : ∀ act ∈ m.stepActs a, ∀ p, P p → act.Spares p
  fresh : ∀ q, .fresh q ∈ m.stepActs a → ¬ Queued m.k q

/-- No process in the loop, and not idle either, is killed, blocked or unblocked from outside, and
    nobody else uses the semaphore. -/
def Undisturbed (T : Team) (σ : SyncTest) : SyncAction → Prop
  | .kernel a =>
    ¬ (a = .exec ∧ σ.InLoop T σ.m.cpu) →
      LeavesAlone (fun p => p = Boot.idle ∨ σ.InLoop T p) σ.m a ∧
        (σ.m.prepared a).sem T.sem = σ.m.k.sem T.sem
  | .user => True

end TpSo
