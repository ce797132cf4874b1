import TpSo.Machine.Steps
import TpSo.Pipes.Ring

set_option autoImplicit false

/-! # Pipes are first-in first-out

First in the machine, where one processor runs the kernel code of all processes; then under the
freest scheduling there is: any number of threads call `read_pipe`, `write_pipe` and `clear_pipe`,
and before each stretch of code any thread that is not blocked may be the next to go on. Either way
a pipe refines the queue of `Fifo`. -/

namespace TpSo

/-! ## In the machine -/

/-- What the trace of a machine says of a pipe is what is in it. -/
def PipesHold (m : Machine) : Prop :=
  ∀ a, (m.k.pipe a).Ok ∧ Fifo.run [] (fifoOps a m.log) = some (m.k.pipe a).waiting

/-- **Step lemma.** -/
theorem PipesHold.step {m m' : Machine} {a : Action} (h : PipesHold m) (hs : m.step a = some m') :
    PipesHold m' := by
  have hsame : ∀ {m' : Machine}, m'.k.pipe = m.k.pipe → m'.log = m.log → PipesHold m' := by
    intro m' hp hl b
    rw [hp, hl]
    exact h b
  have hsched : ∀ (k : Kernel) (rsp : Nat), (scheduleTick k rsp).2.pipe = k.pipe := fun k rsp =>
    pipe_of_outside (scheduleTick_outside k rsp)
  cases a with
  | exec =>
      obtain ⟨i, -, -, rfl⟩ := Machine.step_exec hs
      by_cases hi : i = .int20
      · subst hi
        exact hsame (hsched _ _) rfl
      · intro b
        obtain ⟨hok, hrun⟩ := h b
        obtain ⟨hok', hrun'⟩ := exec_ring b m.k m.thread.regs i hok
        rw [m.execInstr_k hi, m.execInstr_log i, fifoOps_append, Fifo.run_append, hrun]
        exact ⟨hok', hrun'⟩
  | syscall c =>
      obtain ⟨-, -, -, rfl⟩ := Machine.step_syscall hs
      exact hsame rfl rfl
  | ret =>
      obtain ⟨-, -, rfl⟩ := Machine.step_ret hs
      exact hsame rfl rfl
  | exception =>
      obtain ⟨-, -, rfl⟩ := Machine.step_exception hs
      exact hsame rfl rfl
  | tick =>
      obtain ⟨-, rfl⟩ := Machine.step_tick hs
      exact hsame ((hsched _ _).trans (timerHandler_objects m.k).pipe) rfl
  | key e =>
      obtain ⟨-, rfl⟩ := Machine.step_key hs
      exact hsame rfl rfl

theorem PipesHold.boot (memAnswers : Nat → Option Addr) : PipesHold (Boot.machine memAnswers) := by
  have hfresh : ∀ a, ((Boot.kernel memAnswers).pipe a).ring = RingBuffer.clear ({} : Pipe).ring := by
    intro a
    simp only [Boot.kernel]
    split
    · rfl
    · split
      · rfl
      · split <;> rfl
  intro a
  unfold Pipe.Ok Pipe.waiting
  have hring : ((Boot.machine memAnswers).k.pipe a).ring = _ := hfresh a
  rw [hring]
  exact ⟨RingBuffer.clear_ok (by decide), rfl⟩

/-- **Run lemma.** In every run of the machine, whatever else it does, every pipe is a queue. -/
theorem reaches_pipesHold {memAnswers : Nat → Option Addr} {as : List Action} {m : Machine}
    (h : Reaches memAnswers as m) : PipesHold m :=
  (run_guarded h).invariant _ (fun _ _ _ hi _ hs => hi.step hs) (PipesHold.boot memAnswers)

/-! ## Under any scheduling -/

/-- A call of one of the three operations. -/
inductive PipeCall
  | read (id bytes : Nat)
  | write (id : Nat) (bytes : List UInt8)
  | clear (id : Nat)

/-- The code of a call. -/
def PipeCall.code : PipeCall → List Instr
  | .read id bytes => [.readPipe id bytes]
  | .write id bytes => [.writePipe id bytes]
  | .clear id => [.clearPipe id]

/-- Threads in pipe calls, each named by the process it runs for. `received` collects what
    `read_pipe` stored in the buffers of the calls that have returned, `sent` the bytes given to
    `write_pipe`. -/
structure PipeSystem where
  k : Kernel
  code : Addr → List Instr
  regs : Addr → Regs
  log : List Event
  received : Addr → List UInt8
  sent : Addr → List UInt8

/-- What happens next. -/
inductive PipeAction
  | start (t : Addr) (c : PipeCall)
  | exec (t : Addr)

/-- The bytes a call hands over when it returns. -/
def Instr.handsOver (r : Regs) : Instr → List UInt8
  | .readReturn _ _ => r.buf
  | _ => []

namespace PipeSystem

/-- The kernel as thread `t` sees it: it is the current process. -/
def kernelFor (s : PipeSystem) (t : Addr) : Kernel := { s.k with current := some t }

/-- Nobody is in a call. -/
def idle (k : Kernel) : PipeSystem where
  k := k
  code := fun _ => []
  regs := fun _ => {}
  log := []
  received := fun _ => []
  sent := fun _ => []

/-- Thread `t` executes the stretch of code `i`. -/
def execInstr (s : PipeSystem) (t : Addr) (i : Instr) (rest : List Instr) : PipeSystem :=
  let o := TpSo.exec (s.kernelFor t) (s.regs t) i
  { k := o.k
    code := Function.update s.code t (o.code ++ rest)
    regs := Function.update s.regs t o.r
    log := o.events ++ s.log
    received := Function.update s.received t (s.received t ++ i.handsOver o.r)
    sent := s.sent }

/-- Thread `t` makes a call. -/
def enter (s : PipeSystem) (t : Addr) (c : PipeCall) : PipeSystem :=
  { s with
    code := Function.update s.code t c.code
    sent := match c with
      | .write _ bytes => Function.update s.sent t (s.sent t ++ bytes)
      | _ => s.sent }

/-- One step. A thread makes one call at a time; a blocked thread does not go on. -/
def step (s : PipeSystem) : PipeAction → Option PipeSystem
  | .start t c => if s.code t = [] then some (s.enter t c) else none
  | .exec t =>
    match s.code t with
    | [] => none
    | i :: rest => if (s.k.proc t).state = .blocked then none else some (s.execInstr t i rest)

/-- Run a list of actions. -/
def run (s : PipeSystem) : List PipeAction → Option PipeSystem
  | [] => some s
  | a :: rest => (s.step a).bind (fun s => s.run rest)

end PipeSystem

/-! ## Every pipe is a queue -/

/-- What the trace says of the pipe at `a` is what is in it. -/
structure PipeHolds (a : Addr) (s : PipeSystem) : Prop where
  ok : (s.k.pipe a).Ok
  fifo : Fifo.run [] (fifoOps a s.log) = some (s.k.pipe a).waiting

/-- A step by a thread that is in a call. -/
theorem PipeSystem.step_exec {s s' : PipeSystem} {t : Addr} (h : s.step (.exec t) = some s') :
    ∃ i rest, s.code t = i :: rest ∧ s' = s.execInstr t i rest := by
  simp only [step] at h
  split at h
  · cases h
  · next i rest hcode =>
    split at h
    · cases h
    · exact ⟨i, rest, hcode, (Option.some.inj h).symm⟩

theorem PipeSystem.step_start {s s' : PipeSystem} {t : Addr} {c : PipeCall}
    (h : s.step (.start t c) = some s') : s.code t = [] ∧ s' = s.enter t c := by
  obtain ⟨hcode, hs⟩ := Option.ite_none_right_eq_some.mp h
  exact ⟨hcode, (Option.some.inj hs).symm⟩

/-- **Step lemma.** -/
theorem PipeHolds.step {a : Addr} {s s' : PipeSystem} {action : PipeAction} (h : PipeHolds a s)
    (hs : s.step action = some s') : PipeHolds a s' := by
  cases action with
  | start t c =>
      obtain ⟨-, rfl⟩ := PipeSystem.step_start hs
      exact ⟨h.ok, h.fifo⟩
  | exec t =>
      obtain ⟨i, rest, -, rfl⟩ := PipeSystem.step_exec hs
      obtain ⟨hok, hrun⟩ := exec_ring a (s.kernelFor t) (s.regs t) i h.ok
      refine ⟨hok, ?_⟩
      show Fifo.run [] (fifoOps a (_ ++ s.log)) = _
      rw [fifoOps_append, Fifo.run_append, h.fifo]
      exact hrun

/-- What holds at the start and is kept by the steps the run takes holds at its end. -/
theorem PipeSystem.run_induction {Inv : PipeSystem → Prop} (allowed : PipeAction → Prop)
    (hstep : ∀ s action s', Inv s → allowed action → s.step action = some s' → Inv s')
    {as : List PipeAction} (has : ∀ action ∈ as, allowed action) {s t : PipeSystem}
    (h : s.run as = some t) (h0 : Inv s) : Inv t := by
  induction as generalizing s with
  | nil =>
      cases h
      exact h0
  | cons action rest ih =>
      obtain ⟨s1, h1, hrest⟩ := Option.bind_eq_some_iff.mp h
      have h1' := hstep s action s1 h0 (has action List.mem_cons_self) h1
      exact ih (fun b hb => has b (.tail _ hb)) hrest h1'

/-- A pipe as `create_pipe` leaves it. -/
def Pipe.Fresh (p : Pipe) : Prop := p.readIdx = 0 ∧ p.writeIdx = 0 ∧ p.dataCount = 0

theorem Pipe.Fresh.ring {p : Pipe} (h : p.Fresh) : p.ring = p.ring.clear := by
  obtain ⟨hr, hw, hc⟩ := h
  simp [Pipe.ring, RingBuffer.clear, hr, hw, hc]

theorem PipeHolds.start {k : Kernel} {a : Addr} (h : (k.pipe a).Fresh) :
    PipeHolds a (PipeSystem.idle k) := by
  have hring := h.ring
  constructor
  · show (k.pipe a).ring.Ok _
    rw [hring]
    exact RingBuffer.clear_ok (by decide)
  · show some [] = some ((k.pipe a).ring.contents _)
    rw [hring]
    rfl

/-! ## One reader and one writer -/

/-- The bytes a thread has taken out in a call of `read_pipe` it has not returned from. -/
def Instr.done : Instr → List UInt8
  | .readLoop _ _ done | .readLocked _ _ done | .readReturn done _ => done
  | _ => []

/-- The bytes a thread still has to put in. -/
def Instr.left : Instr → List UInt8
  | .writePipe _ bytes => bytes
  | .writeLoop _ bytes written | .writeLocked _ bytes written => bytes.drop written
  | _ => []

/-- Code of a call of `read_pipe`. -/
def Instr.isRead : Instr → Bool
  | .readPipe _ _ | .readLoop _ _ _ | .readLocked _ _ _ | .readReturn _ _ => true
  | _ => false

/-- Code of a call of `write_pipe`. -/
def Instr.isWrite : Instr → Bool
  | .writePipe _ _ | .writeLoop _ _ _ | .writeLocked _ _ _ => true
  | _ => false

/-- The code that calls of `read_pipe` and `write_pipe` on pipe `id`, at `a`, run through. -/
def Instr.inCall (id : Nat) (a : Addr) : Instr → Bool
  | .readPipe i _ | .writePipe i _ => i == id
  | .readLoop p _ _ | .readLocked p _ _ | .writeLoop p _ _ => p == a
  | .writeLocked p bytes written => p == a && decide (written < bytes.length)
  | .readWoken _ | .readReturn _ _ | .writeWoken _ => true
  | .semWait _ | .semLock _ | .semWaitLocked _ | .semWaitReturn _ _ | .semPost _ | .semPostLocked _
  | .processYield | .int20 => true
  | _ => false

/-- A stretch of such code, seen from the bytes it moves. -/
structure Transfer (id : Nat) (a : Addr) (k : Kernel) (i : Instr) (o : Outcome) : Prop where
  pipes : o.k.pipes = k.pipes
  inCall : ∀ j ∈ o.code, j.inCall id a
  reads : o.code.countP Instr.isRead ≤ if i.isRead then 1 else 0
  writes : o.code.countP Instr.isWrite ≤ if i.isWrite then 1 else 0
  taken : i.done ++ Fifo.taken (fifoOps a o.events) = i.handsOver o.r ++ o.code.flatMap Instr.done
  put : i.left = Fifo.puts (fifoOps a o.events) ++ o.code.flatMap Instr.left
  notCleared : Fifo.NeverCleared (fifoOps a o.events)

theorem pipes_of_outside {k k' : Kernel} (h : k'.outside = k.outside) : k'.pipes = k.pipes :=
  show k'.outside.pipes = k.outside.pipes by rw [h]

/-- Code that moves no bytes. -/
theorem Transfer.still {id : Nat} {a : Addr} {k : Kernel} {i : Instr} {o : Outcome}
    (hpipes : o.k.pipes = k.pipes) (hin : ∀ j ∈ o.code, j.inCall id a)
    (hcalls : ∀ j ∈ o.code, j.isRead = false ∧ j.isWrite = false)
    (hi : i.isRead = false ∧ i.isWrite = false)
    (hev : fifoOps a o.events = []) : Transfer id a k i o := by
  have hnone : ∀ j : Instr, j.isRead = false ∧ j.isWrite = false →
      j.done = [] ∧ j.left = [] ∧ ∀ r, j.handsOver r = [] := by
    intro j hj
    cases j <;> first | exact ⟨rfl, rfl, fun _ => rfl⟩ | simp [Instr.isRead, Instr.isWrite] at hj
  have hdone : o.code.flatMap Instr.done = [] :=
    List.flatMap_eq_nil_iff.mpr fun j hj => (hnone j (hcalls j hj)).1
  have hleft : o.code.flatMap Instr.left = [] :=
    List.flatMap_eq_nil_iff.mpr fun j hj => (hnone j (hcalls j hj)).2.1
  obtain ⟨hd, hl, hh⟩ := hnone i hi
  refine ⟨hpipes, hin, ?_, ?_, ?_, ?_, ?_⟩
  · rw [List.countP_eq_zero.mpr fun j hj => by simp [(hcalls j hj).1]]
    exact Nat.zero_le _
  · rw [List.countP_eq_zero.mpr fun j hj => by simp [(hcalls j hj).2]]
    exact Nat.zero_le _
  · simp [hd, hh, hdone, hev, Fifo.taken]
  · simp [hl, hleft, hev, Fifo.puts]
  · simp [hev, Fifo.NeverCleared]

/-- **Every stretch of a call** moves the bytes it should. -/
theorem exec_transfer {id : Nat} {a : Addr} {k : Kernel} (hid : pipeOf k id = some a) (r : Regs)
    {i : Instr} (hi : i.inCall id a) : Transfer id a k i (exec k r i) := by
  cases i <;> try (simp [Instr.inCall] at hi; done)
  case int20 => exact .still rfl (by simp [exec]) (by simp [exec]) ⟨rfl, rfl⟩ rfl
  case processYield =>
      simp only [exec]
      split
      · exact .still rfl (by simp) (by simp) ⟨rfl, rfl⟩ rfl
      · exact .still rfl (by simp [Instr.inCall]) (by simp [Instr.isRead, Instr.isWrite]) ⟨rfl, rfl⟩ rfl
  case semWait s =>
      exact .still rfl (by simp [exec, Instr.inCall]) (by simp [exec, Instr.isRead, Instr.isWrite])
        ⟨rfl, rfl⟩ rfl
  -- the locks and the queues of the semaphores are outside the pipes: no byte moves in them
  case semLock s =>
      simp only [exec]
      split
      · exact .still rfl (by simp [Instr.inCall]) (by simp [Instr.isRead, Instr.isWrite]) ⟨rfl, rfl⟩ rfl
      · exact .still rfl (by simp) (by simp) ⟨rfl, rfl⟩ rfl
  case semWaitLocked s =>
      refine .still ((pipes_of_outside (semWaitBody_outside k s)).trans rfl) ?_ ?_ ⟨rfl, rfl⟩ rfl
      · simp only [exec]
        split <;> simp [Instr.inCall]
      · simp only [exec]
        split <;> simp [Instr.isRead, Instr.isWrite]
  case semWaitReturn s ret =>
      exact .still rfl (by simp [exec]) (by simp [exec]) ⟨rfl, rfl⟩ rfl
  case semPost s =>
      exact .still rfl (by simp [exec, Instr.inCall]) (by simp [exec, Instr.isRead, Instr.isWrite])
        ⟨rfl, rfl⟩ rfl
  case semPostLocked s =>
      refine .still ((pipes_of_outside (semPostBody_outside k s)).trans rfl) ?_ ?_ ⟨rfl, rfl⟩ rfl
      · simp only [exec]
        split <;> simp [Instr.inCall]
      · simp only [exec]
        split <;> simp [Instr.isRead, Instr.isWrite]
  case readWoken p => exact .still rfl (by simp [exec]) (by simp [exec]) ⟨rfl, rfl⟩ rfl
  case writeWoken p => exact .still rfl (by simp [exec]) (by simp [exec]) ⟨rfl, rfl⟩ rfl
  case readPipe j n =>
      have hj : j = id := by simpa [Instr.inCall] using hi
      subst hj
      simp only [exec, hid]
      split
      · exact ⟨rfl, by simp, by simp, by simp, rfl, rfl, by simp [fifoOps, Fifo.NeverCleared]⟩
      · refine ⟨rfl, by simp [Instr.inCall], ?_, ?_, rfl, rfl, by simp [fifoOps, Fifo.NeverCleared]⟩
        · simp [Instr.isRead]
        · simp [Instr.isWrite]
  case readLoop p n done =>
      have hp : p = a := by simpa [Instr.inCall] using hi
      subst hp
      simp only [exec]
      split
      · refine ⟨rfl, by simp [Instr.inCall], ?_, ?_, ?_, rfl, by simp [fifoOps, Fifo.NeverCleared]⟩
        · simp [Instr.isRead]
        · simp [Instr.isWrite]
        · simp [Instr.done, Instr.handsOver, fifoOps, Fifo.taken]
      · refine ⟨rfl, by simp [Instr.inCall], ?_, ?_, ?_, rfl, by simp [fifoOps, Fifo.NeverCleared]⟩
        · simp [Instr.isRead]
        · simp [Instr.isWrite]
        · simp [Instr.done, Instr.handsOver, fifoOps, Fifo.taken]
  -- the only stretch that takes bytes out of the buffer, and only when it is not empty
  case readLocked p n done =>
      have hp : p = a := by simpa [Instr.inCall] using hi
      subst hp
      simp only [exec]
      split
      · split
        · refine ⟨rfl, by simp [Instr.inCall], ?_, ?_, ?_, rfl, by simp [fifoOps, Fifo.NeverCleared]⟩
          · simp [Instr.isRead]
          · simp [Instr.isWrite]
          · simp [Instr.done, Instr.handsOver, fifoOps, Fifo.taken]
        · refine ⟨rfl, by simp [Instr.inCall], ?_, ?_, ?_, rfl, by simp [fifoOps, Fifo.NeverCleared]⟩
          · simp [Instr.isRead]
          · simp [Instr.isWrite]
          · simp [Instr.done, Instr.handsOver, fifoOps, Fifo.taken]
      · refine ⟨rfl, by simp [Instr.inCall], ?_, ?_, ?_, ?_, ?_⟩
        · simp [Instr.isRead]
        · simp [Instr.isWrite]
        · simp [Instr.done, Instr.handsOver, fifoOps, fifoOp, Fifo.taken]
        · simp [Instr.left, fifoOps, fifoOp, Fifo.puts]
        · simp [fifoOps, fifoOp, Fifo.NeverCleared]
  case readReturn done ret =>
      refine ⟨rfl, by simp [exec], by simp [exec], by simp [exec], ?_, rfl, ?_⟩
      · simp [exec, Instr.done, Instr.handsOver, fifoOps, Fifo.taken]
      · simp [exec, fifoOps, Fifo.NeverCleared]
  case writePipe j bytes =>
      have hj : j = id := by simpa [Instr.inCall] using hi
      subst hj
      simp only [exec, hid]
      split
      · next hlen =>
        refine ⟨rfl, by simp, by simp, by simp, rfl, ?_, by simp [fifoOps, Fifo.NeverCleared]⟩
        simpa [Instr.left, fifoOps, Fifo.puts] using hlen
      · refine ⟨rfl, by simp [Instr.inCall], ?_, ?_, rfl, ?_, by simp [fifoOps, Fifo.NeverCleared]⟩
        · simp [Instr.isRead]
        · simp [Instr.isWrite]
        · simp [Instr.left, fifoOps, Fifo.puts]
  case writeLoop p bytes written =>
      have hp : p = a := by simpa [Instr.inCall] using hi
      subst hp
      simp only [exec]
      split
      · next hlt =>
        refine ⟨rfl, by simp [Instr.inCall, hlt], ?_, ?_, rfl, ?_, by simp [fifoOps, Fifo.NeverCleared]⟩
        · simp [Instr.isRead]
        · simp [Instr.isWrite]
        · simp [Instr.left, fifoOps, Fifo.puts]
      · next hge =>
        refine ⟨rfl, by simp, by simp, by simp, rfl, ?_, by simp [fifoOps, Fifo.NeverCleared]⟩
        simpa [Instr.left, fifoOps, Fifo.puts] using Nat.le_of_not_lt hge
  -- the only stretch that puts bytes into the buffer: `writeLoop` came here with one left
  case writeLocked p bytes written =>
      obtain ⟨hp, hlt⟩ : p = a ∧ written < bytes.length := by simpa [Instr.inCall] using hi
      subst hp
      simp only [exec]
      split
      · refine ⟨rfl, by simp [Instr.inCall], ?_, ?_, rfl, ?_, by simp [fifoOps, Fifo.NeverCleared]⟩
        · simp [Instr.isRead]
        · simp [Instr.isWrite]
        · simp [Instr.left, fifoOps, Fifo.puts]
      · refine ⟨rfl, by simp [Instr.inCall], ?_, ?_, ?_, ?_, ?_⟩
        · simp [Instr.isRead]
        · simp [Instr.isWrite]
        · simp [Instr.done, Instr.handsOver, fifoOps, fifoOp, Fifo.taken]
        · simp [Instr.left, fifoOps, fifoOp, Fifo.puts, hlt]
        · simp [fifoOps, fifoOp, Fifo.NeverCleared]

theorem Instr.done_of_not_read {i : Instr} (h : i.isRead = false) :
    i.done = [] ∧ ∀ r, i.handsOver r = [] := by
  cases i <;> first | exact ⟨rfl, fun _ => rfl⟩ | simp [Instr.isRead] at h

theorem Instr.left_of_not_write {i : Instr} (h : i.isWrite = false) : i.left = [] := by
  cases i <;> first | rfl | simp [Instr.isWrite] at h

theorem done_of_no_reads {code : List Instr} (h : code.countP Instr.isRead ≤ 0) :
    code.flatMap Instr.done = [] := by
  have hnone := List.countP_eq_zero.mp (Nat.le_zero.mp h)
  exact List.flatMap_eq_nil_iff.mpr fun i hi => (Instr.done_of_not_read (by simpa using hnone i hi)).1

theorem left_of_no_writes {code : List Instr} (h : code.countP Instr.isWrite ≤ 0) :
    code.flatMap Instr.left = [] := by
  have hnone := List.countP_eq_zero.mp (Nat.le_zero.mp h)
  exact List.flatMap_eq_nil_iff.mpr fun i hi => Instr.left_of_not_write (by simpa using hnone i hi)

namespace Transfer

variable {id : Nat} {a : Addr} {k : Kernel} {i : Instr} {o : Outcome}

/-- Code outside `read_pipe` takes nothing out. -/
theorem takes_nothing (h : Transfer id a k i o) (hi : i.isRead = false) :
    Fifo.taken (fifoOps a o.events) = [] := by
  obtain ⟨hdone, hover⟩ := Instr.done_of_not_read hi
  have hreads := h.reads
  rw [hi, if_neg (by decide)] at hreads
  simpa [hdone, hover, done_of_no_reads hreads] using h.taken

/-- Code outside `write_pipe` puts nothing in. -/
theorem puts_nothing (h : Transfer id a k i o) (hi : i.isWrite = false) :
    Fifo.puts (fifoOps a o.events) = [] := by
  have hwrites := h.writes
  rw [hi, if_neg (by decide)] at hwrites
  have hput := h.put
  rw [Instr.left_of_not_write hi, left_of_no_writes hwrites, List.append_nil] at hput
  exact hput.symm

end Transfer

/-- In the run only `R` reads and only `W` writes, both pipe `id`, and nobody clears it. -/
def OneReaderOneWriter (id : Nat) (R W : Addr) : PipeAction → Prop
  | .start t (.read i _) => t = R ∧ i = id
  | .start t (.write i _) => t = W ∧ i = id
  | .start _ (.clear _) => False
  | .exec _ => True

/-- What such a run keeps: the bytes `R` has received are those taken out, the bytes given to `W`
    are those put in and those it still holds. -/
structure OneToOne (id : Nat) (a R W : Addr) (s : PipeSystem) : Prop where
  pipe : pipeOf s.k id = some a
  inCall : ∀ t, ∀ i ∈ s.code t, i.inCall id a
  reads : ∀ t, (s.code t).countP Instr.isRead ≤ if t = R then 1 else 0
  writes : ∀ t, (s.code t).countP Instr.isWrite ≤ if t = W then 1 else 0
  taken : Fifo.taken (fifoOps a s.log) = s.received R ++ (s.code R).flatMap Instr.done
  put : s.sent W = Fifo.puts (fifoOps a s.log) ++ (s.code W).flatMap Instr.left
  notCleared : Fifo.NeverCleared (fifoOps a s.log)

theorem taken_append (ops ops' : List (FifoOp UInt8)) :
    Fifo.taken (ops ++ ops') = Fifo.taken ops ++ Fifo.taken ops' := List.filterMap_append

theorem puts_append (ops ops' : List (FifoOp UInt8)) :
    Fifo.puts (ops ++ ops') = Fifo.puts ops ++ Fifo.puts ops' := List.filterMap_append

namespace OneToOne

variable {id : Nat} {a R W : Addr} {s s' : PipeSystem}

/-- **Step lemma** for a stretch of code. -/
theorem exec (h : OneToOne id a R W s) {t : Addr} {i : Instr} {rest : List Instr}
    (hcode : s.code t = i :: rest) : OneToOne id a R W (s.execInstr t i rest) := by
  have hi := h.inCall t i (by simp [hcode])
  have hpipe : pipeOf (s.kernelFor t) id = some a := h.pipe
  have htr := exec_transfer hpipe (s.regs t) hi
  set o := TpSo.exec (s.kernelFor t) (s.regs t) i with ho
  have hcount : ∀ (isCall : Instr → Bool) (n : Nat), (s.code t).countP isCall ≤ n →
      o.code.countP isCall ≤ (if isCall i then 1 else 0) → (o.code ++ rest).countP isCall ≤ n := by
    intro isCall n hn ho
    rw [hcode, List.countP_cons] at hn
    rw [List.countP_append]
    omega
  have hnew : (s.execInstr t i rest).code = Function.update s.code t (o.code ++ rest) := rfl
  refine ⟨?_, ?_, ?_, ?_, ?_, ?_, ?_⟩
  · show pipeOf o.k id = some a
    unfold pipeOf at hpipe ⊢
    rwa [htr.pipes]
  · intro u j hj
    rw [hnew, Function.update_apply] at hj
    split at hj
    · rcases List.mem_append.mp hj with hj | hj
      · exact htr.inCall j hj
      · exact h.inCall t j (by simp [hcode, hj])
    · exact h.inCall u j hj
  · intro u
    rw [hnew, Function.update_apply]
    split
    · next hu =>
      subst hu
      exact hcount _ _ (h.reads u) htr.reads
    · exact h.reads u
  · intro u
    rw [hnew, Function.update_apply]
    split
    · next hu =>
      subst hu
      exact hcount _ _ (h.writes u) htr.writes
    · exact h.writes u
  · show Fifo.taken (fifoOps a (o.events ++ s.log)) = Function.update s.received t _ R ++
      (Function.update s.code t (o.code ++ rest) R).flatMap Instr.done
    rw [fifoOps_append, taken_append, h.taken]
    have hreads := h.reads t
    rw [hcode, List.countP_cons] at hreads
    by_cases htR : t = R
    · subst htR
      simp only [Function.update_self, hcode, List.flatMap_cons, List.flatMap_append,
        List.append_assoc]
      rw [if_pos rfl] at hreads
      by_cases hread : i.isRead
      · -- `rest` belongs to no other call, so the bytes in hand are all in `i`
        have hrest : rest.flatMap Instr.done = [] := by
          refine done_of_no_reads ?_
          rw [if_pos hread] at hreads
          omega
        rw [hrest, List.nil_append, List.append_nil, htr.taken]
      · have hread : i.isRead = false := by simpa using hread
        have htaken := htr.taken
        obtain ⟨hdone, hover⟩ := Instr.done_of_not_read hread
        rw [htr.takes_nothing hread, hdone, hover, List.nil_append, List.nil_append] at htaken
        rw [htr.takes_nothing hread, hdone, hover, ← htaken]
        simp
    · rw [if_neg htR] at hreads
      have hread : i.isRead = false := by
        by_contra hread
        rw [if_pos (by simpa using hread)] at hreads
        omega
      rw [htr.takes_nothing hread, Function.update_of_ne (Ne.symm htR),
        Function.update_of_ne (Ne.symm htR), List.append_nil]
  · show s.sent W = Fifo.puts (fifoOps a (o.events ++ s.log)) ++
      (Function.update s.code t (o.code ++ rest) W).flatMap Instr.left
    rw [fifoOps_append, puts_append, h.put, List.append_assoc]
    have hwrites := h.writes t
    rw [hcode, List.countP_cons] at hwrites
    by_cases htW : t = W
    · subst htW
      simp only [Function.update_self, hcode, List.flatMap_cons, List.flatMap_append]
      rw [htr.put, List.append_assoc]
    · rw [if_neg htW] at hwrites
      have hwrite : i.isWrite = false := by
        by_contra hwrite
        rw [if_pos (by simpa using hwrite)] at hwrites
        omega
      rw [htr.puts_nothing hwrite, Function.update_of_ne (Ne.symm htW), List.nil_append]
  · show Fifo.NeverCleared (fifoOps a (o.events ++ s.log))
    intro hm
    rw [fifoOps_append] at hm
    exact (List.mem_append.mp hm).elim h.notCleared htr.notCleared

/-- **Step lemma** for the start of a call. -/
theorem enter (h : OneToOne id a R W s) {t : Addr} {c : PipeCall} (hcode : s.code t = [])
    (hc : OneReaderOneWriter id R W (.start t c)) : OneToOne id a R W (s.enter t c) := by
  have hother : ∀ u, u ≠ t → (s.enter t c).code u = s.code u := fun u hu =>
    Function.update_of_ne hu _ _
  have hself : (s.enter t c).code t = c.code := Function.update_self ..
  -- a new call takes nothing yet; what a writer is to send joins what it still has to put
  cases c with
  | clear j => exact hc.elim
  | read j bytes =>
      obtain ⟨rfl, rfl⟩ := hc
      refine ⟨h.pipe, ?_, ?_, ?_, ?_, ?_, h.notCleared⟩
      · intro u i hi
        by_cases hu : u = t
        · subst hu
          rw [hself] at hi
          simp only [PipeCall.code, List.mem_singleton] at hi
          simp [hi, Instr.inCall]
        · exact h.inCall u i (hother u hu ▸ hi)
      · intro u
        by_cases hu : u = t
        · subst hu
          rw [hself]
          simp [PipeCall.code, Instr.isRead]
        · exact hother u hu ▸ h.reads u
      · intro u
        by_cases hu : u = t
        · subst hu
          rw [hself]
          simp [PipeCall.code, Instr.isWrite]
        · exact hother u hu ▸ h.writes u
      · have htaken := h.taken
        rw [hcode] at htaken
        rw [hself]
        exact htaken
      · have hput := h.put
        by_cases hW : W = t
        · subst hW
          rw [hcode] at hput
          rw [hself]
          exact hput
        · rw [hother W hW]
          exact hput
  | write j bytes =>
      obtain ⟨rfl, rfl⟩ := hc
      refine ⟨h.pipe, ?_, ?_, ?_, ?_, ?_, h.notCleared⟩
      · intro u i hi
        by_cases hu : u = t
        · subst hu
          rw [hself] at hi
          simp only [PipeCall.code, List.mem_singleton] at hi
          simp [hi, Instr.inCall]
        · exact h.inCall u i (hother u hu ▸ hi)
      · intro u
        by_cases hu : u = t
        · subst hu
          rw [hself]
          simp [PipeCall.code, Instr.isRead]
        · exact hother u hu ▸ h.reads u
      · intro u
        by_cases hu : u = t
        · subst hu
          rw [hself]
          simp [PipeCall.code, Instr.isWrite]
        · exact hother u hu ▸ h.writes u
      · have htaken := h.taken
        by_cases hR : R = t
        · subst hR
          rw [hcode] at htaken
          rw [hself]
          exact htaken
        · rw [hother R hR]
          exact htaken
      · have hput := h.put
        rw [hcode, List.flatMap_nil, List.append_nil] at hput
        show Function.update s.sent t (s.sent t ++ bytes) t = _
        rw [hself, Function.update_self, hput]
        simp [PipeCall.code, Instr.left, PipeSystem.enter]

/-- **Step lemma.** -/
theorem step (h : OneToOne id a R W s) {action : PipeAction} (ha : OneReaderOneWriter id R W action)
    (hs : s.step action = some s') : OneToOne id a R W s' := by
  cases action with
  | start t c =>
      obtain ⟨hcode, rfl⟩ := PipeSystem.step_start hs
      exact h.enter hcode ha
  | exec t =>
      obtain ⟨i, rest, hcode, rfl⟩ := PipeSystem.step_exec hs
      exact h.exec hcode

theorem start {k : Kernel} (hpipe : pipeOf k id = some a) :
    OneToOne id a R W (PipeSystem.idle k) where
  pipe := hpipe
  inCall _ _ h := absurd h List.not_mem_nil
  reads _ := by simp [PipeSystem.idle]
  writes _ := by simp [PipeSystem.idle]
  taken := rfl
  put := rfl
  notCleared := by simp [PipeSystem.idle, fifoOps, Fifo.NeverCleared]

end OneToOne

/-- **Pipes are first-in first-out.** Whatever threads call `read_pipe`, `write_pipe` and
    `clear_pipe`, in any order of steps: the ring of a pipe is in order; the bytes taken out and then
    those waiting are the bytes put in, in that order, less those `clear_pipe` discards; and between
    one reader and one writer, what the reader has received is a prefix of what the writer sent. -/
theorem pipe_fifo {k : Kernel} {a : Addr} (hfresh : (k.pipe a).Fresh) {as : List PipeAction}
    {s : PipeSystem} (hrun : (PipeSystem.idle k).run as = some s) :
    (s.k.pipe a).Ok ∧
    Fifo.run [] (fifoOps a s.log) = some (s.k.pipe a).waiting ∧
    (Fifo.taken (fifoOps a s.log) ++ (s.k.pipe a).waiting).Sublist (Fifo.puts (fifoOps a s.log)) ∧
    (Fifo.NeverCleared (fifoOps a s.log) →
      Fifo.taken (fifoOps a s.log) ++ (s.k.pipe a).waiting = Fifo.puts (fifoOps a s.log)) ∧
    ∀ id R W, pipeOf k id = some a → (∀ action ∈ as, OneReaderOneWriter id R W action) →
      (s.received R ++ (s.code R).flatMap Instr.done) <+: s.sent W := by
  have hholds : PipeHolds a s :=
    PipeSystem.run_induction (fun _ => True) (fun _ _ _ h _ hs => h.step hs)
      (fun _ _ => trivial) hrun (PipeHolds.start hfresh)
  refine ⟨hholds.ok, hholds.fifo, ?_, ?_, ?_⟩
  · simpa using Fifo.sublist_of_run _ hholds.fifo
  · intro hclear
    simpa using Fifo.eq_of_run _ hholds.fifo hclear
  · intro id R W hpipe has
    have hone : OneToOne id a R W s :=
      PipeSystem.run_induction _ (fun _ _ _ h ha hs => h.step ha hs) has hrun (OneToOne.start hpipe)
    have heq := Fifo.eq_of_run _ hholds.fifo hone.notCleared
    rw [List.nil_append, hone.taken] at heq
    rw [hone.put, ← heq]
    exact ((List.prefix_append _ _).trans (List.prefix_append _ _))

/-- Thread 7 writes two bytes to `STDIN`'s pipe and thread 8 reads them. -/
def exchange : List PipeAction :=
  .start 7 (.write STDIN [1, 2]) :: List.replicate 26 (.exec 7) ++
    .start 8 (.read STDIN 2) :: List.replicate 27 (.exec 8)

set_option maxRecDepth 10000 in
/-- After the exchange the reader has the writer's bytes. -/
theorem pipe_fifo_exchange : ∃ s,
    (PipeSystem.idle (Boot.kernel fun _ => none)).run exchange = some s ∧ s.received 8 = [1, 2] ∧
      (s.received 8 ++ (s.code 8).flatMap Instr.done) <+: s.sent 7 := by
  obtain ⟨s, hs, hreceived⟩ := (Option.any_eq_true (fun s : PipeSystem =>
    decide (s.received 8 = [1, 2]))
    ((PipeSystem.idle (Boot.kernel fun _ => none)).run exchange)).mp (by decide +kernel)
  have hfresh : ((Boot.kernel fun _ => none).pipe (Boot.pipeAddr 0)).Fresh := ⟨rfl, rfl, rfl⟩
  obtain ⟨-, -, -, -, hprefix⟩ := pipe_fifo hfresh hs
  refine ⟨s, hs, by simpa using hreceived, hprefix STDIN 8 7 rfl ?_⟩
  intro action ha
  simp only [exchange, List.cons_append, List.mem_cons, List.mem_append, List.mem_replicate] at ha
  rcases ha with rfl | ⟨-, rfl⟩ | rfl | ⟨-, rfl⟩
  · exact ⟨rfl, rfl⟩
  · trivial
  · exact ⟨rfl, rfl⟩
  · trivial

end TpSo
