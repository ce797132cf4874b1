import TpSo.Machine.Objects
import TpSo.Library.RingBuffer

set_option autoImplicit false

/-! # Pipes as ring buffers

Each pipe object is a ring buffer of `PIPE_BUFFER_SIZE` cells. `exec_ring` shows, for every
instruction, that it keeps the ring in order and acts on what the ring holds as the queue operations
in its trace do. -/

namespace TpSo

/-- The ring of a pipe. -/
def Pipe.ring (p : Pipe) : RingBuffer UInt8 where
  cells := p.buffer
  readIdx := p.readIdx
  writeIdx := p.writeIdx
  count := p.dataCount

/-- The bytes waiting in a pipe. -/
def Pipe.waiting (p : Pipe) : List UInt8 := p.ring.contents PIPE_BUFFER_SIZE

/-- The ring of a pipe is in order. -/
def Pipe.Ok (p : Pipe) : Prop := p.ring.Ok PIPE_BUFFER_SIZE

theorem Pipe.ring_put (p : Pipe) (byte : UInt8) :
    (p.put byte).ring = p.ring.put PIPE_BUFFER_SIZE byte := rfl

theorem Pipe.ring_take (p : Pipe) : p.take.ring = p.ring.take PIPE_BUFFER_SIZE := rfl

theorem Pipe.ring_dropReader (p : Pipe) : p.dropReader.ring = p.ring := by
  unfold Pipe.dropReader Pipe.ring
  rfl

theorem Pipe.ring_dropWriter (p : Pipe) : p.dropWriter.ring = p.ring := by
  unfold Pipe.dropWriter Pipe.ring
  rfl

/-- What an event means to the pipe at `a`. Opening a pipe starts it empty. -/
def fifoOp (a : Addr) : Event → Option (FifoOp UInt8)
  | .put pipe byte => if pipe = a then some (.put byte) else none
  | .took pipe byte => if pipe = a then some (.took byte) else none
  | .cleared pipe => if pipe = a then some .cleared else none
  | .opened pipe => if pipe = a then some .cleared else none
  | _ => none

/-- The queue operations of a trace (newest first) on the pipe at `a`, oldest first. -/
def fifoOps (a : Addr) (log : List Event) : List (FifoOp UInt8) := (log.filterMap (fifoOp a)).reverse

theorem fifoOps_append (a : Addr) (new old : List Event) :
    fifoOps a (new ++ old) = fifoOps a old ++ fifoOps a new := by
  simp [fifoOps]

/-! ## One stretch of code -/

/-- A stretch of code keeps the ring at `a` in order and acts on it as its trace says. -/
def RingStep (a : Addr) (k k' : Kernel) (events : List Event) : Prop :=
  (k.pipe a).Ok →
    (k'.pipe a).Ok ∧ Fifo.run (k.pipe a).waiting (fifoOps a events) = some (k'.pipe a).waiting

namespace RingStep

variable {a : Addr} {k k' : Kernel} {events : List Event}

/-- Code that does not touch the ring. -/
theorem same (hr : (k'.pipe a).ring = (k.pipe a).ring) (he : fifoOps a events = []) :
    RingStep a k k' events := by
  intro h
  unfold Pipe.Ok Pipe.waiting
  rw [hr, he]
  exact ⟨h, rfl⟩

/-- Code that does not touch any pipe. -/
theorem of_pipe (hp : k'.pipe = k.pipe) (he : fifoOps a events = []) : RingStep a k k' events :=
  .same (by rw [hp]) he

/-- Only the pipes and the trace of the pipe matter. -/
theorem congr {k1 k1' : Kernel} {events1 : List Event} (h : RingStep a k1 k1' events1)
    (hk : k.pipe = k1.pipe) (hk' : k'.pipe = k1'.pipe) (he : fifoOps a events = fifoOps a events1) :
    RingStep a k k' events := by
  unfold RingStep at h ⊢
  rwa [hk, hk', he]

/-- A write to other fields of a pipe. -/
theorem modPipe (k : Kernel) (a pipe : Addr) (f : Pipe → Pipe)
    (hf : (f (k.pipe pipe)).ring = (k.pipe pipe).ring) : RingStep a k (k.modPipe pipe f) [] := by
  refine .same ?_ rfl
  unfold Kernel.modPipe
  by_cases ha : a = pipe
  · subst ha
    simpa using hf
  · simp [Function.update_of_ne ha]

/-- A write to the ring of one pipe. -/
theorem write {pipe : Addr} {f : Pipe → Pipe} {event : Event} (op : FifoOp UInt8)
    (hop : ∀ b, fifoOp b event = if pipe = b then some op else none)
    (h : (k.pipe pipe).Ok → (f (k.pipe pipe)).Ok ∧
      Fifo.apply (k.pipe pipe).waiting op = some (f (k.pipe pipe)).waiting) :
    RingStep a k (k.modPipe pipe f) [event] := by
  intro hok
  by_cases ha : a = pipe
  · subst ha
    obtain ⟨hok', happ⟩ := h hok
    simp only [Kernel.modPipe, Function.update_self, fifoOps, List.filterMap_cons, List.filterMap_nil,
      hop, if_true, List.reverse_singleton, Fifo.run, happ, Option.bind_some]
    exact ⟨hok', trivial⟩
  · have hne : ¬ pipe = a := fun h => ha h.symm
    simp only [Kernel.modPipe, Function.update_of_ne ha, fifoOps, List.filterMap_cons,
      List.filterMap_nil, hop, if_neg hne, List.reverse_nil, Fifo.run]
    exact ⟨hok, trivial⟩

end RingStep

/-- `read_pipe` takes the oldest byte. -/
theorem readLocked_ring (a : Addr) (k : Kernel) (pipe : Addr) (hne : (k.pipe pipe).dataCount ≠ 0) :
    RingStep a k (k.modPipe pipe Pipe.take)
      [.took pipe ((k.pipe pipe).buffer (k.pipe pipe).readIdx)] := by
  refine .write (.took ((k.pipe pipe).buffer (k.pipe pipe).readIdx)) (fun _ => rfl) ?_
  intro hok
  have hpos : 0 < (k.pipe pipe).ring.count := Nat.pos_of_ne_zero hne
  have hcontents := RingBuffer.contents_take hok hpos
  refine ⟨RingBuffer.take_ok hok hpos, ?_⟩
  unfold Pipe.waiting
  rw [hcontents, Pipe.ring_take]
  simp [Fifo.apply, Pipe.ring]

/-- `write_pipe` appends a byte. -/
theorem writeLocked_ring (a : Addr) (k : Kernel) (pipe : Addr) (byte : UInt8)
    (hne : (k.pipe pipe).dataCount ≠ PIPE_BUFFER_SIZE) :
    RingStep a k (k.modPipe pipe (fun p => p.put byte)) [.put pipe byte] := by
  refine .write (.put byte) (fun _ => rfl) ?_
  intro hok
  have hroom : (k.pipe pipe).ring.count < PIPE_BUFFER_SIZE := Nat.lt_of_le_of_ne hok.count_le hne
  refine ⟨RingBuffer.put_ok hok hroom byte, ?_⟩
  unfold Pipe.waiting
  rw [Pipe.ring_put, RingBuffer.contents_put hok hroom]
  rfl

/-- `clear_pipe` empties the pipe. -/
theorem clearLocked_ring (a : Addr) (k : Kernel) (pipe : Addr) :
    RingStep a k (k.modPipe pipe Pipe.reset) [.cleared pipe] := by
  have hok : (k.pipe pipe).reset.Ok := RingBuffer.clear_ok (r := (k.pipe pipe).ring) (by decide)
  exact .write .cleared (fun _ => rfl) fun _ => ⟨hok, rfl⟩

/-! ## Creation -/

theorem pipe_of_outside {k k' : Kernel} (h : k'.outside = k.outside) : k'.pipe = k.pipe :=
  (SameObjects.of_outside h).pipe

theorem semInit_pipe (k : Kernel) (s : Addr) (name : Name) (count : Nat) :
    (semInit k s name count).pipe = k.pipe := by
  rw [(semInit_inits k s name count).kernel]

theorem createProcessCode_pipes (k : Kernel) (r : Regs) (args : CreateArgs) (use : CreateUse) :
    (createProcessCode k r args use).k.pipe = k.pipe ∧
      (createProcessCode k r args use).k.pipes = k.pipes := by
  unfold createProcessCode
  split
  · exact ⟨rfl, rfl⟩
  · split
    · exact ⟨rfl, rfl⟩
    · dsimp only
      rcases memAlloc_cases k .process with h | ⟨p, -, -, h⟩ <;> rw [h]
      · exact ⟨rfl, rfl⟩
      · have hb := buildProcess_builds (k.grant p .process) p (allocatePid k) args
        dsimp only
        split <;>
        · rw [hb.kernel]
          exact ⟨rfl, rfl⟩

theorem semOpen_pipes (k : Kernel) (r : Regs) (name : Name) (count : Nat) (create : Bool) :
    (sysCode k r (.semOpen name count create)).k.pipe = k.pipe ∧
      (sysCode k r (.semOpen name count create)).k.pipes = k.pipes := by
  simp only [sysCode]
  split
  · exact ⟨rfl, rfl⟩
  split
  · exact ⟨rfl, rfl⟩
  · split
    · exact ⟨rfl, rfl⟩
    · rcases memAlloc_cases k .userSemaphore with h | ⟨s, -, -, h⟩ <;> rw [h]
      · exact ⟨rfl, rfl⟩
      · have hinit := semInit_inits (k.grant s .userSemaphore) s name count
        dsimp only
        rw [hinit.kernel]
        exact ⟨rfl, rfl⟩

theorem fifoOps_initEvents (a : Addr) (k : Kernel) (sems : List Addr) :
    fifoOps a (sems.map (initEvent k)) = [] := by
  unfold fifoOps
  rw [List.filterMap_map, List.reverse_eq_nil_iff, List.filterMap_eq_nil_iff]
  exact fun _ _ => rfl

theorem createProcessCode_fifo (a : Addr) (k : Kernel) (r : Regs) (args : CreateArgs)
    (use : CreateUse) : fifoOps a (createProcessCode k r args use).events = [] := by
  unfold createProcessCode
  split
  · rfl
  · split
    · rfl
    · dsimp only
      split
      · rfl
      · split <;> exact fifoOps_initEvents a _ _

theorem semOpen_fifo (a : Addr) (k : Kernel) (r : Regs) (name : Name) (count : Nat) (create : Bool) :
    fifoOps a (sysCode k r (.semOpen name count create)).events = [] := by
  simp only [sysCode]
  split
  · rfl
  split
  · rfl
  · split
    · rfl
    · rcases memAlloc_cases k .userSemaphore with h | ⟨s, -, -, h⟩ <;> rw [h] <;> rfl

/-! ## Traces without pipe operations -/

/-- Code that touches no semaphore and no pipe leaves nothing in the traces of pipes. -/
theorem exec_fifo (a : Addr) (k : Kernel) (r : Regs) {i : Instr} (hi : i.touchesObjects = false) :
    fifoOps a (exec k r i).events = [] := by
  cases i
  all_goals first
    | cases hi; done
    | rfl
    | (simp only [exec]; repeat' split) <;> rfl
    | skip
  case createNamed c s name targets =>
      simp only [exec, createNamedCode]
      split <;> rfl
  case createRegister c attached =>
      simp only [exec, createRegisterCode]
      split <;> rfl
  case createDone c =>
      simp only [exec]
      cases c.use <;> rfl
  case createFailed use => cases use <;> rfl
  case initFirst =>
      simp only [exec, initFirstCode]
      repeat' split
      all_goals rfl
  case initLoop =>
      simp only [exec, initLoopCode]
      split <;> rfl
  case initScan self left =>
      simp only [exec, initScanCode]
      repeat' split
      all_goals rfl
  case sys c =>
      cases c
      all_goals first
        | cases hi; done
        | rfl
        | simp only [exec, sysCode, processWaitPidCode]
          repeat' split
          all_goals rfl

/-! ## Opening a pipe -/

/-- `open_pipe` starts an empty ring, or fails and opens nothing. -/
theorem openPipeCode_ring (a : Addr) (k : Kernel) (r : Regs) :
    RingStep a k (openPipeCode k r).k (openPipeCode k r).events := by
  have hinit : ∀ k s, fifoOp a (initEvent k s) = none := fun _ _ => rfl
  unfold openPipeCode
  dsimp only
  split
  · exact .of_pipe rfl rfl
  · rcases memAlloc_cases k .pipe with h | ⟨pipe, -, -, h⟩ <;> rw [h] <;> dsimp only
    · exact .of_pipe rfl rfl
    · set k1 := k.grant pipe .pipe
      have h1 : k1.pipe = k.pipe := rfl
      rcases memAlloc_cases k1 .semaphore with h | ⟨s, -, -, h⟩ <;> rw [h] <;> dsimp only
      · exact .of_pipe rfl rfl
      · set k2 := semInit (k1.grant s .semaphore) s (semName k.nextPipeId 'R') 0
        have h2 : k2.pipe = k.pipe := (semInit_pipe ..).trans h1
        split
        · exact .of_pipe rfl rfl
        rcases memAlloc_cases k2 .semaphore with h | ⟨t, -, -, h⟩ <;> rw [h] <;> dsimp only
        · exact .of_pipe h2 (by simp [fifoOps, hinit])
        · set k3 := semInit (k2.grant t .semaphore) t (semName k.nextPipeId 'W') 0
          have h3 : k3.pipe = k.pipe := (semInit_pipe ..).trans h2
          split
          · exact .of_pipe rfl rfl
          rcases memAlloc_cases k3 .semaphore with h | ⟨u, -, -, h⟩ <;> rw [h] <;> dsimp only
          · exact .of_pipe h3 (by simp [fifoOps, hinit])
          split
          · exact .of_pipe rfl rfl
          · set k4 := semInit (k3.grant u .semaphore) u (semName k.nextPipeId 'M') 1
            have h4 : k4.pipe = k.pipe := (semInit_pipe ..).trans h3
            have hopen : RingStep a k4
                (k4.modPipe pipe (newPipe k.nextPipeId s t u)) [.opened pipe] := by
              refine .write .cleared (fun _ => rfl) fun _ => ⟨?_, rfl⟩
              exact RingBuffer.clear_ok (r := (k4.pipe pipe).ring) (by decide)
            refine hopen.congr h4.symm rfl ?_
            simp only [fifoOps, List.filterMap_cons, hinit, List.filterMap_nil]

/-! ## All instructions -/

/-- **Every instruction** keeps the ring of every pipe in order, and does to the bytes in it what its
    trace says. -/
theorem exec_ring (a : Addr) (k : Kernel) (r : Regs) (i : Instr) :
    RingStep a k (exec k r i).k (exec k r i).events := by
  by_cases hi : i.touchesObjects = false
  · exact .of_pipe (exec_sameObjects k r hi).pipe (exec_fifo a k r hi)
  · cases i
    all_goals first
      | exact absurd rfl hi
      | exact .of_pipe rfl rfl
      | skip
    case semLock s =>
        simp only [exec]
        split <;> exact .of_pipe rfl rfl
    case semWaitLocked s =>
        exact .of_pipe ((pipe_of_outside (semWaitBody_outside k s)).trans rfl) rfl
    case semPostLocked s =>
        exact .of_pipe ((pipe_of_outside (semPostBody_outside k s)).trans rfl) rfl
    case semDestroyLocked s =>
        exact .of_pipe ((pipe_of_outside (semDestroyBody_outside k s)).trans rfl) rfl
    case attachLocked pipe => exact .modPipe k a pipe Pipe.attach rfl
    case unattachFromPipe id pid =>
        simp only [exec]
        repeat' split
        all_goals exact .of_pipe rfl rfl
    case unattachLocked pipe => exact .modPipe k a pipe Pipe.unattach rfl
    case openPipe => exact openPipeCode_ring a k r
    -- a byte leaves the ring here and enters it in `writeLocked`; nothing else moves its ends
    case readLocked pipe bytes done =>
        simp only [exec]
        split
        · split
          · exact .of_pipe rfl rfl
          · exact .modPipe k a pipe Pipe.addReader rfl
        · next hne => exact readLocked_ring a k pipe hne
    case readWoken pipe => exact .modPipe k a pipe Pipe.dropReader (Pipe.ring_dropReader _)
    case writeLocked pipe bytes written =>
        simp only [exec]
        split
        · exact .modPipe k a pipe Pipe.addWriter rfl
        · next hne => exact writeLocked_ring a k pipe (bytes.getD written 0) hne
    case writeWoken pipe => exact .modPipe k a pipe Pipe.dropWriter (Pipe.ring_dropWriter _)
    case clearLocked pipe => exact clearLocked_ring a k pipe
    case exitSemPost p =>
        simp only [exec]
        split
        · exact .of_pipe rfl rfl
        · next s _ => exact .of_pipe ((pipe_of_outside (semPostBody_outside k s)).trans rfl) rfl
    case createProcess args use =>
        exact .of_pipe (createProcessCode_pipes k r args use).1 (createProcessCode_fifo a k r args use)
    case sys c =>
        cases c <;> try exact absurd rfl hi
        exact .of_pipe (semOpen_pipes k r _ _ _).1 (semOpen_fifo a k r _ _ _)

end TpSo
