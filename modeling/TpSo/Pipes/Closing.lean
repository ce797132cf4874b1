import TpSo.Machine.SpinLocks
import TpSo.Pipes.Ring
import TpSo.Sem.Waiters

set_option autoImplicit false

/-! # Waiters at the ends of a pipe

Once a pipe has at most one attachment left, nobody may wait at its ends for ever. Whoever gives up
the last other one goes on to `close_pipe`, which counts the waiters and posts as often. Its duty is
followed through the code of its stack: `Wakes` says that a stack has still to wake all who wait. A stack
that has lost the processor may never be executed again, so that only the current one counts. -/

namespace TpSo

/-! ## The two ends -/

/-- The ends of a pipe. -/
inductive PipeEnd
  | read | write

/-- The semaphore at which processes wait that read, or write. -/
def Pipe.semAt (p : Pipe) : PipeEnd → Addr
  | .read => p.canRead
  | .write => p.canWrite

/-- The pipe `id` is open and its object is at `a`. It is none of the three standard pipes. -/
def OpenPipe (k : Kernel) (id : Nat) (a : Addr) : Prop := pipeOf k id = some a ∧ isStd id = false

/-- The processes in the waiting queue at an end of the pipe at `a`. -/
def endWaiters (k : Kernel) (e : PipeEnd) (a : Addr) : List Addr := waiters k ((k.pipe a).semAt e)

/-- A `sem_post` on `s` that is still to come. -/
def Instr.postsTo (s : Addr) : Instr → Bool
  | .semPost t | .semPostLocked t => t == s
  | _ => false

/-- A `close_pipe` on the pipe `id` at `a` that has not posted yet, and will post `n` times or more. -/
def Instr.closing (e : PipeEnd) (id : Nat) (a : Addr) (n : Nat) : Instr → Bool
  | .closePipe i => i == id
  | .closeLocked i p | .closeReaders i p _ => i == id && p == a
  | .closeWriters i p _ readers =>
    i == id && p == a &&
      match e with
      | .read => decide (n ≤ readers)
      | .write => true
  | _ => false

/-- The stack `t` will still wake everybody who waits at the end of the pipe. -/
def Machine.Wakes (m : Machine) (t : Addr) (e : PipeEnd) (id : Nat) (a : Addr) : Prop :=
  (∃ i ∈ m.code t, i.closing e id a (endWaiters m.k e a).length = true) ∨
    (endWaiters m.k e a).length ≤ (m.code t).countP (Instr.postsTo ((m.k.pipe a).semAt e))

/-- The processor is in the middle of a `close_pipe` on the pipe or of a `sem_post` at its end. -/
def Machine.Closing (m : Machine) (e : PipeEnd) (id : Nat) (a : Addr) : Prop :=
  ∃ i ∈ m.code m.cpu, i.closing e id a 0 = true ∨ i.postsTo ((m.k.pipe a).semAt e) = true

/-- The processor is not in the middle of a `close_pipe` on the pipe or of a `sem_post` at its end, or turns
    round at a spin lock there. -/
def Machine.NotClosing (m : Machine) (e : PipeEnd) (id : Nat) (a : Addr) : Prop :=
  m.Spins ∨ ∀ i ∈ m.code m.cpu, i.closing e id a 0 = false ∧ i.postsTo ((m.k.pipe a).semAt e) = false

/-- The processor is about to wake whoever waits at the end of an open pipe with at most one attachment. -/
def ClosesInTime (e : PipeEnd) (m : Machine) : Prop :=
  ∀ id a, OpenPipe m.k id a → (m.k.pipe a).attachedCount ≤ 1 → m.Wakes m.cpu e id a

/-! ## The condition -/

/-- Nobody begins to wait at the end of a pipe where nobody else is attached, and whoever gives up the
    last other attachment closes the pipe. -/
structure Closes (e : PipeEnd) (m : Machine) (a : Action) : Prop where
  /-- A process that waits at the end finds more than one attachment. -/
  waits : ∀ s c id p, m.Executes a (.semWaitLocked s) → (m.k.sem s).count = 0 →
    m.k.current = some c → OpenPipe m.k id p → (m.k.pipe p).semAt e = s →
    1 < (m.k.pipe p).attachedCount
  /-- The last other attachment is given up by somebody who will close the pipe, or nobody waits. -/
  unattached : ∀ id p, m.Executes a (.unattachLocked p) → OpenPipe m.k id p →
    (m.k.pipe p).attachedCount = 2 → endWaiters m.k e p = [] ∨ .closePipe id ∈ m.code m.cpu
  /-- `attached_count` does not wrap. -/
  attached : ∀ p, m.Executes a (.attachLocked p) → (m.k.pipe p).attachedCount + 1 < 256
  /-- `close_pipe` gets its mutex. -/
  locked : ∀ id p, m.Executes a (.closeLocked id p) → m.thread.regs.rax ≠ -1
  /-- A new pipe starts with nobody waiting. -/
  opened : ∀ p, m.Executes a .openPipe →
    pipeOf (exec m.k m.thread.regs .openPipe).k m.k.nextPipeId = some p →
    endWaiters (exec m.k m.thread.regs .openPipe).k e p = []
  /-- The stack of somebody who closes a pipe is not given to a new process while there is somebody to wake. -/
  spawned : ∀ id p, m.Spawns a m.cpu → OpenPipe m.k id p → (m.k.pipe p).attachedCount ≤ 1 →
    m.Closing e id p → endWaiters m.k e p = []
  /-- The processor is not taken away from somebody who closes a pipe while there is somebody to wake. -/
  kept : m.switches a → ∀ id p, OpenPipe m.k id p → (m.k.pipe p).attachedCount ≤ 1 →
    m.Closing e id p → endWaiters m.k e p = []
  /-- No interrupt comes where a spin lock is taken. -/
  locks : m.LeavesLocks a

/-! ## Attachments and semaphores -/

/-- No pipe is opened or attached, and none changes its semaphores. -/
structure SameLinks (k k' : Kernel) : Prop where
  pipes : ∀ id a, pipeOf k' id = some a → pipeOf k id = some a
  attached : ∀ a, (k'.pipe a).attachedCount = (k.pipe a).attachedCount
  semAt : ∀ a e, (k'.pipe a).semAt e = (k.pipe a).semAt e

namespace SameLinks

variable {k k' : Kernel}

theorem of_same (hpipe : k'.pipe = k.pipe) (hpipes : k'.pipes = k.pipes) : SameLinks k k' := by
  refine ⟨fun id a h => ?_, fun a => by rw [hpipe], fun a e => by rw [hpipe]⟩
  unfold pipeOf at h ⊢
  rwa [hpipes] at h

theorem of_objects (h : SameObjects k k') : SameLinks k k' := .of_same h.pipe h.pipes

/-- Code that beyond the scheduler's data writes to one semaphore. -/
theorem of_modSem {s : Addr} {f : Sem → Sem} (h : k'.outside = (k.modSem s f).outside) :
    SameLinks k k' := by
  have hsame := SameObjects.of_outside h
  exact .of_same (hsame.pipe.trans rfl) (hsame.pipes.trans rfl)

/-- A write to other fields of a pipe object. -/
theorem modPipe (k : Kernel) (p : Addr) (f : Pipe → Pipe)
    (hf : ∀ x, (f x).attachedCount = x.attachedCount ∧ (f x).canRead = x.canRead ∧
      (f x).canWrite = x.canWrite) : SameLinks k (k.modPipe p f) := by
  have hat : ∀ a, (k.modPipe p f).pipe a = k.pipe a ∨ (k.modPipe p f).pipe a = f (k.pipe a) := by
    intro a
    simp only [Kernel.modPipe, Function.update_apply]
    split
    · next h => exact .inr (by rw [h])
    · exact .inl rfl
  refine ⟨fun id a h => h, fun a => ?_, fun a e => ?_⟩
  · rcases hat a with h | h <;> rw [h]
    exact (hf _).1
  · rcases hat a with h | h <;> rw [h]
    cases e
    · exact (hf _).2.1
    · exact (hf _).2.2

end SameLinks

/-- **All other instructions** attach and open nothing. -/
theorem exec_sameLinks (k : Kernel) (r : Regs) {i : Instr} (hattach : ∀ p, i ≠ .attachLocked p)
    (hunattach : ∀ p, i ≠ .unattachLocked p) (hopen : i ≠ .openPipe) :
    SameLinks k (exec k r i).k := by
  by_cases hi : i.touchesObjects = false
  · exact .of_objects (exec_sameObjects k r hi)
  · cases i
    all_goals first
      | exact absurd rfl hi
      | exact absurd rfl (hattach _)
      | exact absurd rfl (hunattach _)
      | exact absurd rfl hopen
      | exact .of_same rfl rfl
      | skip
    case semLock s =>
        simp only [exec]
        split <;> exact .of_same rfl rfl
    case semWaitLocked s => exact .of_modSem (semWaitBody_outside k s)
    case semPostLocked s => exact .of_modSem (semPostBody_outside k s)
    case semDestroyLocked s => exact .of_modSem (semDestroyBody_outside k s)
    case exitSemPost p =>
        simp only [exec]
        split
        · exact .of_same rfl rfl
        · next s _ => exact .of_modSem (semPostBody_outside k s)
    case destroyPipeFree id p =>
        refine ⟨fun i a h => ?_, fun _ => rfl, fun _ _ => rfl⟩
        simp only [exec, pipeOf, Function.update_apply] at h
        unfold pipeOf
        split at h
        · cases h
        · next hid =>
          rw [if_neg hid]
          split at h
          · cases h
          · exact h
    case unattachFromPipe id pid =>
        simp only [exec]
        repeat' split
        all_goals exact .of_same rfl rfl
    -- the counts of readers and writers, and the buffer, are not links of the pipe
    case readLocked p bytes done =>
        simp only [exec]
        repeat' split
        · exact .of_same rfl rfl
        · exact .modPipe k p Pipe.addReader fun _ => ⟨rfl, rfl, rfl⟩
        · exact .modPipe k p Pipe.take fun _ => ⟨rfl, rfl, rfl⟩
    case readWoken p => exact .modPipe k p Pipe.dropReader fun _ => by unfold Pipe.dropReader; exact ⟨rfl, rfl, rfl⟩
    case writeLocked p bytes written =>
        simp only [exec]
        split
        · exact .modPipe k p Pipe.addWriter fun _ => ⟨rfl, rfl, rfl⟩
        · exact .modPipe k p (fun x => x.put (bytes.getD written 0)) fun _ => ⟨rfl, rfl, rfl⟩
    case writeWoken p => exact .modPipe k p Pipe.dropWriter fun _ => by unfold Pipe.dropWriter; exact ⟨rfl, rfl, rfl⟩
    case clearLocked p => exact .modPipe k p Pipe.reset fun _ => ⟨rfl, rfl, rfl⟩
    case createProcess args use =>
        obtain ⟨hpipe, hpipes⟩ := createProcessCode_pipes k r args use
        exact .of_same hpipe hpipes
    case sys c =>
        cases c <;> try exact absurd rfl hi
        obtain ⟨hpipe, hpipes⟩ := semOpen_pipes k r _ _ _
        exact .of_same hpipe hpipes

/-- The semaphores of a pipe. -/
def Pipe.sems (p : Pipe) : List Addr := [p.canRead, p.canWrite, p.mutex]

theorem Pipe.sems_eq {p p' : Pipe} (hread : p'.canRead = p.canRead) (hwrite : p'.canWrite = p.canWrite)
    (hmutex : p'.mutex = p.mutex) : p'.sems = p.sems := by
  unfold sems
  rw [hread, hwrite, hmutex]

theorem Pipe.addReader_sems (p : Pipe) : p.addReader.sems = p.sems := by
  unfold Pipe.addReader
  exact sems_eq rfl rfl rfl

theorem Pipe.dropReader_sems (p : Pipe) : p.dropReader.sems = p.sems := by
  unfold Pipe.dropReader
  exact sems_eq rfl rfl rfl

theorem Pipe.addWriter_sems (p : Pipe) : p.addWriter.sems = p.sems := by
  unfold Pipe.addWriter
  exact sems_eq rfl rfl rfl

theorem Pipe.dropWriter_sems (p : Pipe) : p.dropWriter.sems = p.sems := by
  unfold Pipe.dropWriter
  exact sems_eq rfl rfl rfl

/-- The same pipe objects and the same pipe table. -/
structure SamePipes (k k' : Kernel) : Prop where
  pipe : k'.pipe = k.pipe
  pipes : k'.pipes = k.pipes
  next : k'.nextPipeId = k.nextPipeId

/-- `open_pipe` has entered the pipe object at `a` in the table, with three semaphores of its own. -/
structure OpensAt (k : Kernel) (o : Outcome) (a : Addr) : Prop where
  room : k.nextPipeId < MAX_PIPES
  pipes : o.k.pipes = Function.update k.pipes k.nextPipeId (some a)
  next : o.k.nextPipeId = k.nextPipeId + 1
  pipe : ∀ b, b ≠ a → o.k.pipe b = k.pipe b
  sems : ∀ s ∈ (o.k.pipe a).sems, ∃ n, .semInit s n ∈ o.events
  rax : o.r.rax = (k.nextPipeId : Int)

/-- **`open_pipe`** makes one pipe, or none. -/
theorem openPipe_cases (k : Kernel) (r : Regs) :
    SamePipes k (openPipeCode k r).k ∨ ∃ a, OpensAt k (openPipeCode k r) a := by
  have hinit : ∀ {k' : Kernel} (s : Addr) (name : Name) (n : Nat), SamePipes k k' →
      SamePipes k (semInit (k'.grant s .semaphore) s name n) := by
    intro k' s name n h
    rw [(semInit_inits _ s name n).kernel]
    exact ⟨h.pipe, h.pipes, h.next⟩
  have hsame : ∀ {k' k'' : Kernel}, SamePipes k k' → k''.pipe = k'.pipe → k''.pipes = k'.pipes →
      k''.nextPipeId = k'.nextPipeId → SamePipes k k'' := fun h hp ht hn =>
    ⟨hp.trans h.pipe, ht.trans h.pipes, hn.trans h.next⟩
  unfold openPipeCode
  dsimp only
  split
  · exact .inl ⟨rfl, rfl, rfl⟩
  · next hroom =>
    rcases memAlloc_cases k .pipe with h | ⟨p, -, -, h⟩ <;> rw [h] <;> dsimp only
    · exact .inl ⟨rfl, rfl, rfl⟩
    · set k1 := k.grant p .pipe
      have h1 : SamePipes k k1 := ⟨rfl, rfl, rfl⟩
      rcases memAlloc_cases k1 .semaphore with h | ⟨s, -, -, h⟩ <;> rw [h] <;> dsimp only
      · exact .inl (hsame h1 rfl rfl rfl)
      · set k2 := semInit (k1.grant s .semaphore) s (semName k.nextPipeId 'R') 0
        have h2 : SamePipes k k2 := hinit s _ 0 h1
        split
        · exact .inl ⟨rfl, rfl, rfl⟩
        rcases memAlloc_cases k2 .semaphore with h | ⟨t, -, -, h⟩ <;> rw [h] <;> dsimp only
        · exact .inl (hsame h2 rfl rfl rfl)
        · set k3 := semInit (k2.grant t .semaphore) t (semName k.nextPipeId 'W') 0
          have h3 : SamePipes k k3 := hinit t _ 0 h2
          split
          · exact .inl ⟨rfl, rfl, rfl⟩
          rcases memAlloc_cases k3 .semaphore with h | ⟨u, -, -, h⟩ <;> rw [h] <;> dsimp only
          · exact .inl (hsame h3 rfl rfl rfl)
          split
          · exact .inl ⟨rfl, rfl, rfl⟩
          · set k4 := semInit (k3.grant u .semaphore) u (semName k.nextPipeId 'M') 1
            have h4 : SamePipes k k4 := hinit u _ 1 h3
            refine .inr ⟨p, by omega, ?_, ?_, fun b hb => ?_, fun x hx => ?_, rfl⟩
            · simp only [Kernel.modPipe, h4.pipes]
            · simp only [Kernel.modPipe, h4.next]
            · simp only [Kernel.modPipe, Function.update_of_ne hb, h4.pipe]
            · simp only [Kernel.modPipe, Function.update_self, newPipe, Pipe.sems, List.mem_cons,
                List.not_mem_nil, or_false] at hx
              refine ⟨(k4.sem x).count, ?_⟩
              rcases hx with rfl | rfl | rfl <;> simp [initEvent, Kernel.modPipe]

/-- `open_pipe` adds one entry to the table at most, and writes to the object it points to. -/
theorem openPipe_links (k : Kernel) (r : Regs) :
    (∀ id a, pipeOf (openPipeCode k r).k id = some a → id = k.nextPipeId ∨ pipeOf k id = some a) ∧
      ∀ a, (openPipeCode k r).k.pipe a = k.pipe a ∨
        pipeOf (openPipeCode k r).k k.nextPipeId = some a := by
  rcases openPipe_cases k r with h | ⟨p, h⟩
  · exact ⟨fun id a ha => .inr ((SameLinks.of_same h.pipe h.pipes).pipes id a ha),
      fun a => .inl (by rw [h.pipe])⟩
  · have hroom := h.room
    refine ⟨fun id a ha => ?_, fun a => ?_⟩
    · by_cases hid : id = k.nextPipeId
      · exact .inl hid
      · refine .inr ?_
        simpa only [pipeOf, h.pipes, Function.update_of_ne hid] using ha
    · by_cases hap : a = p
      · refine .inr ?_
        simp [pipeOf, h.pipes, hap, hroom]
      · exact .inl (h.pipe a hap)

/-! ## The duty through the code -/

theorem Instr.closing_mono {i : Instr} {e : PipeEnd} {id : Nat} {a : Addr} {n n' : Nat}
    (h : i.closing e id a n = true) (hn : n' ≤ n) : i.closing e id a n' = true := by
  cases i <;> try exact h
  case closeWriters j p attached readers =>
      cases e with
      | write => exact h
      | read =>
          simp only [Instr.closing, Bool.and_eq_true, decide_eq_true_eq] at h ⊢
          exact ⟨h.1, by omega⟩

/-- **`close_pipe` goes on** to count and to post. -/
theorem closing_exec {k : Kernel} {r : Regs} {i : Instr} {e : PipeEnd} {id : Nat} {a : Addr}
    (hopen : OpenPipe k id a) (hatt : (k.pipe a).attachedCount ≤ 1)
    (hrax : ∀ j p, i = .closeLocked j p → r.rax ≠ -1)
    (h : i.closing e id a (endWaiters k e a).length = true) :
    (∃ j ∈ (exec k r i).code, j.closing e id a (endWaiters k e a).length = true) ∨
      (endWaiters k e a).length ≤ (exec k r i).code.countP (Instr.postsTo ((k.pipe a).semAt e)) := by
  obtain ⟨hpipe, hstd⟩ := hopen
  cases i <;> try cases h
  case closePipe j =>
      cases eq_of_beq h
      refine .inl ⟨.closeLocked id a, ?_, by simp [Instr.closing]⟩
      simp [exec, hpipe]
  case closeLocked j p =>
      obtain ⟨rfl, rfl⟩ : j = id ∧ p = a := by simpa [Instr.closing] using h
      refine .inl ⟨.closeReaders j p (k.pipe p).attachedCount, ?_, by simp [Instr.closing]⟩
      simp [exec, hrax j p rfl, hstd, hatt]
  case closeReaders j p attached =>
      obtain ⟨rfl, rfl⟩ : j = id ∧ p = a := by simpa [Instr.closing] using h
      refine .inl ⟨.closeWriters j p attached (semWaitingCount k (k.pipe p).canRead), ?_, ?_⟩
      · simp [exec]
      · cases e with
        | write => simp [Instr.closing]
        | read => simp [Instr.closing, semWaitingCount, queueSize, endWaiters, waiters, Pipe.semAt]
  case closeWriters j p attached readers =>
      refine .inr ?_
      cases e with
      | read =>
          obtain ⟨⟨rfl, rfl⟩, hle⟩ : (j = id ∧ p = a) ∧ (endWaiters k .read a).length ≤ readers := by
            simpa [Instr.closing] using h
          refine Nat.le_trans hle ?_
          simp only [exec, closeTail, List.countP_append, List.countP_replicate, Instr.postsTo, Pipe.semAt,
            BEq.rfl, if_true]
          omega
      | write =>
          obtain ⟨rfl, rfl⟩ : j = id ∧ p = a := by simpa [Instr.closing] using h
          have hcount : (endWaiters k .write p).length = semWaitingCount k (k.pipe p).canWrite := rfl
          rw [hcount]
          simp only [exec, closeTail, List.countP_append, List.countP_replicate, Instr.postsTo, Pipe.semAt,
            BEq.rfl, if_true]
          omega

/-- A `sem_post` takes somebody out of the queue, if there is anybody. -/
theorem posted_shorter (k : Kernel) (r : Regs) (s : Addr) :
    (waiters (exec k r (.semPostLocked s)).k s).length ≤ (waiters k s).length - 1 := by
  have hafter : ∀ ws w, firstBlocked k ws = some w →
      (afterFirstBlocked k ws).length ≤ ws.length - 1 := by
    intro ws
    induction ws with
    | nil => exact fun _ h => nomatch h
    | cons x rest ih =>
        intro w hw
        unfold afterFirstBlocked
        split
        · simp
        · next hx =>
          simp only [firstBlocked, List.find?_cons, hx, decide_false] at hw
          have hle := ih w hw
          simp only [List.length_cons]
          omega
  unfold waiters
  rw [show (exec k r (.semPostLocked s)).k.sem = _ from sem_of_outside (semPostBody_outside k s)]
  simp only [Kernel.modSem, Function.update_self, postedSem]
  cases hw : firstBlocked k (waiters k s) with
  | some w => exact hafter _ w hw
  | none =>
      cases (k.sem s).waitingProcesses <;> simp [Sem.addToken]

/-! ## Steps -/

section Step
variable {e : PipeEnd} {m m' : Machine} {i : Instr} {id : Nat} {a : Addr}

/-- The processor that has somebody to wake is closing the pipe. -/
theorem Machine.Wakes.nobody_of (hw : m.Wakes m.cpu e id a)
    (hclosing : m.Closing e id a → endWaiters m.k e a = []) : endWaiters m.k e a = [] := by
  rcases hw with ⟨i, hi, hc⟩ | hcount
  · exact hclosing ⟨i, hi, .inl (Instr.closing_mono hc (Nat.zero_le _))⟩
  · rcases Nat.eq_zero_or_pos ((m.code m.cpu).countP (Instr.postsTo ((m.k.pipe a).semAt e))) with hzero | hpos
    · exact List.eq_nil_of_length_eq_zero (by omega)
    · obtain ⟨i, hi, hp⟩ := List.countP_pos_iff.mp hpos
      exact hclosing ⟨i, hi, .inr hp⟩

/-- The processor that has somebody to wake still has after an instruction. -/
theorem wakes_exec (hg : Closes e m .exec) (hn : m.next = some i) (hi : i ≠ .int20)
    (hopen : OpenPipe m.k id a) (hatt : (m.k.pipe a).attachedCount ≤ 1)
    (hsem : ((exec m.k m.thread.regs i).k.pipe a).semAt e = (m.k.pipe a).semAt e)
    (hw : m.Wakes m.cpu e id a) : (m.execInstr i).Wakes (m.execInstr i).cpu e id a := by
  have hnobody : ∀ c, ¬ WaitsOn m.k i ((m.k.pipe a).semAt e) c := by
    rintro c ⟨rfl, hcount, hc⟩
    have hmore := hg.waits _ c id a ⟨rfl, hn⟩ hcount hc hopen rfl
    omega
  have hle : (endWaiters (exec m.k m.thread.regs i).k e a).length ≤ (endWaiters m.k e a).length := by
    unfold endWaiters
    rw [hsem]
    exact (exec_waiters_sublist m.thread.regs hnobody).length_le
  unfold Machine.Wakes
  rw [m.execInstr_k hi, hsem, m.execInstr_cpu hi]
  obtain ⟨rest, hcode, hrest⟩ := Machine.code_of_next hn
  rw [Machine.execInstr_code hi hrest]
  by_cases hsp : (exec m.k m.thread.regs i).spawned = some m.cpu
  · have hnone := hw.nobody_of (hg.spawned id a ⟨i, ⟨rfl, hn⟩, hsp⟩ hopen hatt)
    rw [hnone, List.length_nil] at hle
    exact .inr (by omega)
  · rw [if_neg hsp, if_pos rfl]
    rcases hw with ⟨j, hj, hc⟩ | hcount
    · rw [hcode] at hj
      rcases List.mem_cons.mp hj with rfl | hj
      · have hrax : ∀ x p, j = .closeLocked x p → m.thread.regs.rax ≠ -1 := by
          rintro x p rfl
          exact hg.locked x p ⟨rfl, hn⟩
        rcases closing_exec hopen hatt hrax hc with ⟨j', hj', hc'⟩ | hposts
        · exact .inl ⟨j', List.mem_append_left _ hj', Instr.closing_mono hc' hle⟩
        · rw [List.countP_append]
          exact .inr (by omega)
      · exact .inl ⟨j, List.mem_append_right _ hj, Instr.closing_mono hc hle⟩
    · rw [hcode, List.countP_cons] at hcount
      refine .inr ?_
      rw [List.countP_append]
      by_cases hp : i.postsTo ((m.k.pipe a).semAt e) = true
      · rw [if_pos hp] at hcount
        cases i <;> try cases hp
        case semPost s =>
            cases eq_of_beq hp
            simp only [exec, List.countP_cons, List.countP_nil, Instr.postsTo, BEq.rfl, if_true] at hle ⊢
            omega
        case semPostLocked s =>
            cases eq_of_beq hp
            have hshort := posted_shorter m.k m.thread.regs ((m.k.pipe a).semAt e)
            unfold endWaiters at hcount ⊢
            rw [hsem]
            omega
      · rw [if_neg hp] at hcount
        omega

/-- **Execution** of a stretch of code. -/
theorem ClosesInTime.exec (h : ClosesInTime e m) (hg : Closes e m .exec) (hn : m.next = some i)
    (hi : i ≠ .int20) : ClosesInTime e (m.execInstr i) := by
  intro id a hopen hatt
  rw [m.execInstr_k hi] at hopen hatt
  have hidle : ∀ {k' : Kernel}, (TpSo.exec m.k m.thread.regs i).k = k' → endWaiters k' e a = [] →
      (m.execInstr i).Wakes (m.execInstr i).cpu e id a := by
    intro k' hk hnone
    refine .inr ?_
    rw [m.execInstr_k hi, hk, hnone]
    exact Nat.zero_le _
  -- only `attach_to_pipe`, `unattach_from_pipe` and `open_pipe` change who is at the ends
  by_cases hattach : ∃ p, i = .attachLocked p
  · obtain ⟨p, rfl⟩ := hattach
    have hsem : ((m.k.modPipe p Pipe.attach).pipe a).semAt e = (m.k.pipe a).semAt e := by
      simp only [Kernel.modPipe, Function.update_apply]
      split
      · next hap =>
        rw [hap]
        cases e <;> rfl
      · rfl
    have hfew : (m.k.pipe a).attachedCount ≤ 1 := by
      simp only [TpSo.exec, Kernel.modPipe, Function.update_apply] at hatt
      split at hatt
      · next hap =>
        subst hap
        have hroom := hg.attached a ⟨rfl, hn⟩
        simp only [Pipe.attach, Nat.mod_eq_of_lt hroom] at hatt
        omega
      · exact hatt
    exact wakes_exec hg hn hi hopen hfew hsem (h id a hopen hfew)
  · by_cases hunattach : ∃ p, i = .unattachLocked p
    · obtain ⟨p, rfl⟩ := hunattach
      have hsem : ((m.k.modPipe p Pipe.unattach).pipe a).semAt e = (m.k.pipe a).semAt e := by
        simp only [Kernel.modPipe, Function.update_apply]
        split
        · next hap =>
          rw [hap]
          cases e <;> rfl
        · rfl
      by_cases hfew : (m.k.pipe a).attachedCount ≤ 1
      · exact wakes_exec hg hn hi hopen hfew hsem (h id a hopen hfew)
      · have hlast : a = p ∧ (m.k.pipe p).attachedCount = 2 := by
          simp only [TpSo.exec, Kernel.modPipe, Function.update_apply] at hatt
          split at hatt
          · next hap =>
            subst hap
            simp only [Pipe.unattach] at hatt
            exact ⟨rfl, by omega⟩
          · exact absurd hatt hfew
        obtain ⟨rfl, htwo⟩ := hlast
        -- the last but one leaves: whoever is left must be woken by the `close_pipe` it goes on to
        rcases hg.unattached id a ⟨rfl, hn⟩ hopen htwo with hnone | hclose
        · refine hidle rfl ?_
          unfold endWaiters at hnone ⊢
          simp only [TpSo.exec, hsem]
          exact hnone
        · refine .inl ⟨.closePipe id, ?_, by simp [Instr.closing]⟩
          rw [m.execInstr_cpu hi]
          exact Machine.mem_code_execInstr hi hn (Option.some_ne_none _).symm hclose (by simp)
    · by_cases hopens : i = .openPipe
      · subst hopens
        obtain ⟨htable, hobject⟩ := openPipe_links m.k m.thread.regs
        by_cases hnew : pipeOf (TpSo.exec m.k m.thread.regs .openPipe).k m.k.nextPipeId = some a
        · exact hidle rfl (hg.opened a ⟨rfl, hn⟩ hnew)
        · have hsame := (hobject a).resolve_right hnew
          have hopen' : OpenPipe m.k id a := by
            refine ⟨(htable id a hopen.1).resolve_left ?_, hopen.2⟩
            rintro rfl
            exact hnew hopen.1
          have hfew : (m.k.pipe a).attachedCount ≤ 1 := hsame ▸ hatt
          exact wakes_exec hg hn hi hopen' hfew (congrArg (fun x => Pipe.semAt x e) hsame) (h id a hopen' hfew)
      · have hlinks := exec_sameLinks m.k m.thread.regs (fun p hp => hattach ⟨p, hp⟩)
          (fun p hp => hunattach ⟨p, hp⟩) hopens
        have hopen' : OpenPipe m.k id a := ⟨hlinks.pipes id a hopen.1, hopen.2⟩
        rw [hlinks.attached a] at hatt
        exact wakes_exec hg hn hi hopen' hatt (hlinks.semAt a e) (h id a hopen' hatt)

/-- **Step lemma.** -/
theorem ClosesInTime.step (h : ClosesInTime e m) {act : Action} (hg : Closes e m act)
    (hs : m.step act = some m') : ClosesInTime e m' := by
  by_cases hexec : ∃ i, m.Executes act i ∧ i ≠ .int20
  · obtain ⟨i, ⟨rfl, hn⟩, hi⟩ := hexec
    obtain ⟨j, hj, -, rfl⟩ := Machine.step_exec hs
    cases hn.symm.trans hj
    exact h.exec hg hn hi
  · -- nothing but an `int 0x20` or user code is taken off a stack
    have hother : ∀ i, m.Executes act i → i = .int20 := fun i hi => by
      by_contra hne
      exact hexec ⟨i, hi, hne⟩
    obtain ⟨hobj, hcode⟩ := Machine.step_other hs hother
    have hlinks := SameLinks.of_objects hobj
    intro id a hopen hatt
    rw [hlinks.attached a] at hatt
    have hopen' : OpenPipe m.k id a := ⟨hlinks.pipes id a hopen.1, hopen.2⟩
    have hwaiters : endWaiters m'.k e a = endWaiters m.k e a := by
      unfold endWaiters waiters
      rw [hobj.sem, hlinks.semAt a e]
    unfold Machine.Wakes
    rw [hwaiters, hlinks.semAt a e]
    cases Machine.step_cases hs with
    | switched hsw _ _ =>
        rw [(h id a hopen' hatt).nobody_of (hg.kept hsw id a hopen' hatt)]
        exact .inr (Nat.zero_le _)
    | stays _ _ hcpu =>
        rw [hcpu]
        obtain ⟨gone, new, rest, hold, hnew, hgone, -⟩ := hcode m.cpu
        rw [hnew]
        rcases h id a hopen' hatt with ⟨i, hi, hc⟩ | hcount
        · refine .inl ⟨i, ?_, hc⟩
          rw [hold] at hi
          rcases List.mem_append.mp hi with hi | hi
          · rcases hgone i hi with rfl | rfl <;> cases hc
          · exact List.mem_append_right _ hi
        · refine .inr ?_
          have hzero : gone.countP (Instr.postsTo ((m.k.pipe a).semAt e)) = 0 := by
            refine List.countP_eq_zero.mpr fun i hi hp => ?_
            rcases hgone i hi with rfl | rfl <;> cases hp
          rw [hold, List.countP_append, hzero] at hcount
          rw [List.countP_append]
          omega

end Step

/-- Only the standard pipes are open at boot. -/
theorem ClosesInTime.boot (e : PipeEnd) (memAnswers : Nat → Option Addr) :
    ClosesInTime e (Boot.machine memAnswers) := by
  rintro id a ⟨hopen, hstd⟩ -
  have hid : id < 3 := by
    simp only [pipeOf, Boot.machine, Boot.kernel] at hopen
    split at hopen
    · cases hopen
    · split at hopen
      · assumption
      · cases hopen
  obtain rfl | rfl | rfl : id = 0 ∨ id = 1 ∨ id = 2 := by omega
  all_goals cases hstd

/-- **Run lemma.** -/
theorem closesInTime_of_run {e : PipeEnd} {memAnswers : Nat → Option Addr} {as : List Action}
    {m : Machine} (h : GuardedRun Machine.step (Closes e) (Boot.machine memAnswers) as m) :
    ClosesInTime e m :=
  h.invariant (ClosesInTime e) (fun _ _ _ hi hg hs => hi.step hg hs) (.boot e memAnswers)

/-- Where the processor is not closing the pipe, nobody waits. -/
theorem nobody_waits {e : PipeEnd} {memAnswers : Nat → Option Addr} {as : List Action} {m : Machine}
    (h : GuardedRun Machine.step (Closes e) (Boot.machine memAnswers) as m) {id : Nat} {a : Addr}
    (hopen : OpenPipe m.k id a) (hatt : (m.k.pipe a).attachedCount ≤ 1)
    (hno : m.NotClosing e id a) : endWaiters m.k e a = [] := by
  have hquiet := hno.resolve_left (never_spins (h.mono fun _ _ hg => hg.locks))
  refine (closesInTime_of_run h id a hopen hatt).nobody_of ?_
  rintro ⟨i, hi, hc | hp⟩
  · rw [(hquiet i hi).1] at hc
    cases hc
  · rw [(hquiet i hi).2] at hp
    cases hp

end TpSo
