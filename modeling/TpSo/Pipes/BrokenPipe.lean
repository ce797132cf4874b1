import TpSo.Pipes.EndOfFile
import TpSo.Pipes.Uncontended

set_option autoImplicit false

/-! # Broken pipes

A writer that finds its pipe full waits on `can_write`. When nobody else is attached any more nobody
will make room, and it must not wait. Unlike `read_pipe`, `write_pipe` does not look at
`attached_count` before it waits. -/

namespace TpSo

/-- The process `p` is blocked on `can_write` inside `write_pipe`, on a full pipe to which nothing else
    is attached, and the processor is not closing the pipe. -/
structure WritesToNobody (m : Machine) (id : Nat) (a p : Addr) : Prop where
  opened : OpenPipe m.k id a
  full : (m.k.pipe a).dataCount = PIPE_BUFFER_SIZE
  alone : (m.k.pipe a).attachedCount ≤ 1
  blocked : (m.k.proc p).state = .blocked
  waits : p ∈ endWaiters m.k .write a
  writing : .writeWoken a ∈ m.code p
  notClosing : m.NotClosing .write id a

/-- The shell opens a pipe, makes it its own output, creates a child and writes a byte. -/
def shellWrites : List Action :=
  startShell ++
  .syscall .openPipe :: List.replicate 2 .exec ++
  .syscall (.setFdTargets 0 3 2) :: List.replicate 26 .exec ++
  .syscall (.processCreate 0 0 false (KERNEL_BASE * 4)) :: List.replicate 45 .exec ++
  .syscall (.write 1 [65]) :: List.replicate 16 .exec

/-- Nobody is in the pipe's semaphores, and its mutex is free. -/
structure Unused (k : Kernel) (p : Addr) : Prop where
  mutex : (k.sem (k.pipe p).mutex).lock = false ∧ (k.sem (k.pipe p).mutex).count = 1 ∧
    (k.sem (k.pipe p).mutex).waitingProcesses = some []
  canRead : (k.sem (k.pipe p).canRead).lock = false ∧
    (k.sem (k.pipe p).canRead).waitingProcesses = some []
  canWrite : (k.sem (k.pipe p).canWrite).lock = false ∧ (k.sem (k.pipe p).canWrite).count = 0 ∧
    (k.sem (k.pipe p).canWrite).waitingProcesses = some []
  distinct : (k.pipe p).mutex ≠ (k.pipe p).canRead ∧ (k.pipe p).mutex ≠ (k.pipe p).canWrite ∧
    (k.pipe p).canRead ≠ (k.pipe p).canWrite

instance (k : Kernel) (p : Addr) : Decidable (Unused k p) :=
  decidable_of_iff (_ ∧ _ ∧ _ ∧ _)
    ⟨fun ⟨h1, h2, h3, h4⟩ => ⟨h1, h2, h3, h4⟩, fun ⟨h1, h2, h3, h4⟩ => ⟨h1, h2, h3, h4⟩⟩

theorem Unused.vacant {k : Kernel} {p : Addr} (h : Unused k p) : Vacant k p := by
  obtain ⟨hmr, hmw, hrw⟩ := h.distinct
  refine ⟨h.mutex, h.canRead, ⟨h.canWrite.1, h.canWrite.2.2⟩, ?_⟩
  simp [Pipe.sems, hrw, hmr.symm, hmw.symm]

/-- Nothing else has changed but that there are `n` bytes in the pipe. -/
structure Filled (k0 k : Kernel) (p : Addr) (n : Nat) : Prop where
  unused : Unused k p
  bytes : (k.pipe p).dataCount = n
  attached : (k.pipe p).attachedCount = (k0.pipe p).attachedCount
  canWrite : (k.pipe p).canWrite = (k0.pipe p).canWrite
  proc : k.proc = k0.proc
  current : k.current = k0.current
  pipes : k.pipes = k0.pipes
  allocOk : k.allocOk = k0.allocOk

theorem Filled.putOne {k0 k : Kernel} {p : Addr} {n : Nat} (h : Filled k0 k p n) (byte : UInt8) :
    Filled k0 (putOne k p byte) p (n + 1) := by
  obtain ⟨hmr, hmw, hrw⟩ := h.unused.distinct
  have hpipe : (TpSo.putOne k p byte).pipe p = (k.pipe p).put byte := by
    simp [TpSo.putOne, Kernel.modSem, Kernel.modPipe]
  have hsem : ∀ s, s ≠ (k.pipe p).canRead → (TpSo.putOne k p byte).sem s = k.sem s := fun s hs => by
    simp [TpSo.putOne, Kernel.modSem, Kernel.modPipe, Function.update_of_ne hs]
  have hread : (TpSo.putOne k p byte).sem (k.pipe p).canRead = Sem.addToken (k.sem (k.pipe p).canRead) := by
    simp [TpSo.putOne, Kernel.modSem, Kernel.modPipe]
  refine ⟨⟨?_, ?_, ?_, ?_⟩, ?_, ?_, ?_, h.proc, h.current, h.pipes, h.allocOk⟩
  · rw [hpipe, show ((k.pipe p).put byte).mutex = (k.pipe p).mutex from rfl, hsem _ hmr]
    exact h.unused.mutex
  · rw [hpipe, show ((k.pipe p).put byte).canRead = (k.pipe p).canRead from rfl, hread]
    exact ⟨rfl, h.unused.canRead.2⟩
  · rw [hpipe, show ((k.pipe p).put byte).canWrite = (k.pipe p).canWrite from rfl, hsem _ hrw.symm]
    exact h.unused.canWrite
  · rw [hpipe]
    exact ⟨hmr, hmw, hrw⟩
  · rw [hpipe]
    exact congrArg (· + 1) h.bytes
  · rw [hpipe]
    exact h.attached
  · rw [hpipe]
    exact h.canWrite

theorem Filled.putAll {k0 k : Kernel} {p : Addr} {n : Nat} (h : Filled k0 k p n) (bytes : List UInt8) :
    Filled k0 (putAll k p bytes) p (n + bytes.length) := by
  induction bytes generalizing k n with
  | nil => exact h
  | cons byte bytes ih =>
      rw [List.length_cons, Nat.add_comm bytes.length, ← Nat.add_assoc]
      exact ih (h.putOne byte)

/-! ## A writer alone -/

/-- The shell opens a pipe with a child as its reader, and the child exits. -/
def readerExits : List Action :=
  startShell ++
  .syscall .openPipe :: List.replicate 2 .exec ++
  .syscall (.setFdTargets 3 1 2) :: List.replicate 26 .exec ++
  .syscall (.processCreate 0 0 false (KERNEL_BASE * 4)) :: List.replicate 45 .exec ++
  .syscall (.setFdTargets 0 3 2) :: List.replicate 49 .exec ++ List.replicate 4 .tick ++
  .exec :: .syscall (.processExit 0) :: List.replicate 76 .exec

/-- The shell writes `bytes` through its descriptor 1 until there is no more room. -/
def overfills (bytes : List UInt8) : List Action :=
  .syscall (.write 1 bytes) :: List.replicate (2 + (12 * PIPE_BUFFER_SIZE + 12)) .exec

/-- **A writer with more bytes than the pipe can hold** fills it and waits for room. -/
theorem run_overfills {m : Machine} {p c : Addr} {id : Nat} {bytes : List UInt8}
    (hif : m.interruptsEnabled) (hn : m.next matches some .user) (hcpu : m.k.current = some c)
    (hfd : (m.k.proc c).fdTargets 1 = id) (hpipe : pipeOf m.k id = some p) (h : Unused m.k p)
    (hempty : (m.k.pipe p).dataCount = 0) (hb : (m.k.proc c).state ≠ .blocked)
    (halloc : m.k.allocOk = true) (hlong : PIPE_BUFFER_SIZE < bytes.length) :
    ∃ k k' r' log', Filled m.k k p PIPE_BUFFER_SIZE ∧
      m.run (overfills bytes) =
        some (m.inHandler k' r' (waitsForRoom k p bytes PIPE_BUFFER_SIZE ++ [.writeAfter c 1 id]) log') ∧
      (k'.proc c).state = .blocked ∧ c ∈ waiters k' (k.pipe p).canWrite ∧ k'.pipes = k.pipes ∧
      k'.pipe p = (k.pipe p).addWriter := by
  have hnot : bytes.length ≠ 0 := by omega
  have hfilled : Filled m.k (putAll m.k p (bytes.take PIPE_BUFFER_SIZE)) p PIPE_BUFFER_SIZE := by
    have hstart : Filled m.k m.k p 0 := ⟨h, hempty, rfl, rfl, rfl, rfl, rfl, rfl⟩
    have hall := hstart.putAll (bytes.take PIPE_BUFFER_SIZE)
    rwa [List.length_take_of_le (Nat.le_of_lt hlong), Nat.zero_add] at hall
  obtain ⟨r1, log1, -, hfill⟩ := proceeds_fill m m.thread.regs [.writeAfter c 1 id] m.log h.vacant
    PIPE_BUFFER_SIZE (by omega) (Nat.le_of_lt hlong)
  obtain ⟨k', r', log', hfull, hblocked, hwaits, hpipes, hpipe'⟩ :=
    proceeds_full m r1 [.writeAfter c 1 id] log1 hfilled.unused.vacant hfilled.bytes hlong
      hfilled.unused.canWrite.2.1 (hfilled.current ▸ hcpu) (by rw [hfilled.proc]; exact hb)
  refine ⟨_, k', r', log', hfilled, ?_, hblocked, hwaits (hfilled.allocOk ▸ halloc), hpipes, hpipe'⟩
  have hstart : (m.inHandler m.k m.thread.regs [.sys (.write 1 bytes)] m.log).Proceeds 2
      (m.inHandler m.k m.thread.regs (.writeLoop p bytes 0 :: [.writeAfter c 1 id]) m.log) := by
    refine Machine.proceeds_instr (n := 1) rfl ?_
    have hvalid : validFd 1 = some 1 := rfl
    have hone : (1 : Fin 3) ≠ 0 := by decide
    simp only [exec, sysCode, hvalid, if_neg hone, if_neg hnot, hcpu, hfd, List.nil_append]
    refine Machine.proceeds_instr (n := 0) rfl ?_
    simp only [exec, if_neg hnot, hpipe, List.nil_append, List.cons_append]
    exact .refl _
  exact Machine.run_cons (Machine.step_call hif hn rfl) <|
    run_of_guarded (hstart.append (hfill.append hfull))

/-- The processor does not close the pipe once the writer waits, if it did not before. -/
theorem notClosing_overfilled {m : Machine} {p c : Addr} {id : Nat} {bytes : List UInt8}
    {k k' : Kernel} {r' : Regs} {log' : List Event}
    (hfilled : Filled m.k k p PIPE_BUFFER_SIZE) (hpipe : k'.pipe p = (k.pipe p).addWriter)
    (h : notClosing .write id p m = true) :
    (m.inHandler k' r' (waitsForRoom k p bytes PIPE_BUFFER_SIZE ++ [.writeAfter c 1 id])
      log').NotClosing .write id p := by
  have hsem : (k'.pipe p).semAt .write = (m.k.pipe p).semAt .write := by
    rw [hpipe]
    exact hfilled.canWrite
  have hmutex : (k.pipe p).mutex ≠ (m.k.pipe p).semAt .write := by
    rw [show (m.k.pipe p).semAt .write = _ from hfilled.canWrite.symm]
    exact hfilled.unused.distinct.2.1
  refine .inr fun i hi => ?_
  rw [show (m.inHandler k' r' _ log').cpu = m.cpu from rfl, Machine.inHandler_code, if_pos rfl] at hi
  rw [show (m.inHandler k' r' _ log').k = k' from rfl, hsem]
  rcases List.mem_append.mp hi with hsys | hbase
  · simp only [waitsForRoom, List.mem_append, List.mem_cons, List.not_mem_nil, or_false] at hsys
    rcases hsys with (rfl | rfl | rfl | rfl | rfl | rfl) | rfl
    all_goals simp [Instr.closing, Instr.postsTo, hmutex]
  · simpa using List.all_eq_true.mp h i (List.mem_append_right _ hbase)

end TpSo
