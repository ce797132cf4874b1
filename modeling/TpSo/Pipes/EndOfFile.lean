import TpSo.Machine.Terminated
import TpSo.Pipes.Closing

set_option autoImplicit false

/-! # End of file

A reader that finds its pipe empty waits on `can_read` unless it is the only process attached. Once it
has become so, it must not wait any more. -/

namespace TpSo

/-- The process `p` is blocked on `can_read` inside `read_pipe`, on an empty pipe to which nothing else
    is attached, and the processor is not closing the pipe. -/
structure MissesEndOfFile (m : Machine) (id : Nat) (a p : Addr) : Prop where
  opened : OpenPipe m.k id a
  empty : (m.k.pipe a).dataCount = 0
  alone : (m.k.pipe a).attachedCount ≤ 1
  blocked : (m.k.proc p).state = .blocked
  waits : p ∈ endWaiters m.k .read a
  reading : .readWoken a ∈ m.code p
  notClosing : m.NotClosing .read id a

/-- The open pipes other than the standard ones. -/
def openPipes (k : Kernel) : List (Nat × Addr) :=
  (List.range MAX_PIPES).filterMap (fun id =>
    if isStd id then none else (pipeOf k id).map (fun a => (id, a)))

theorem mem_openPipes {k : Kernel} {id : Nat} {a : Addr} (h : OpenPipe k id a) :
    (id, a) ∈ openPipes k := by
  obtain ⟨hpipe, hstd⟩ := h
  have hid : id < MAX_PIPES := by
    unfold pipeOf at hpipe
    split at hpipe
    · cases hpipe
    · omega
  exact List.mem_filterMap.mpr ⟨id, List.mem_range.mpr hid, by simp [hstd, hpipe]⟩

/-- Does the stack have a `close_pipe` on this id before it? -/
def Instr.closesPipe (id : Nat) : Instr → Bool
  | .closePipe i => i == id
  | _ => false

/-- Nobody waits at an end of a pipe that has at most one attachment. -/
def nobodyLeft (e : PipeEnd) (k : Kernel) : Bool :=
  (openPipes k).all (fun x => decide (1 < (k.pipe x.2).attachedCount) || (endWaiters k e x.2).isEmpty)

theorem nobodyLeft_spec {e : PipeEnd} {k : Kernel} (h : nobodyLeft e k = true) {id : Nat} {a : Addr}
    (hopen : OpenPipe k id a) (hatt : (k.pipe a).attachedCount ≤ 1) : endWaiters k e a = [] := by
  have hone := List.all_eq_true.mp h _ (mem_openPipes hopen)
  rw [Bool.or_eq_true, decide_eq_true_eq] at hone
  exact List.isEmpty_iff.mp (hone.resolve_left (Nat.not_lt.mpr hatt))

/-- The conditions of `Closes` for the instruction the processor is at. -/
def closesInstr (e : PipeEnd) (m : Machine) : Instr → Bool
  | .semWaitLocked s =>
    decide ((m.k.sem s).count ≠ 0) || (openPipes m.k).all (fun x =>
      decide ((m.k.pipe x.2).semAt e ≠ s) || decide (1 < (m.k.pipe x.2).attachedCount))
  | .unattachLocked p =>
    (openPipes m.k).all (fun x =>
      decide (x.2 ≠ p) || decide ((m.k.pipe p).attachedCount ≠ 2) || (endWaiters m.k e p).isEmpty ||
        (m.code m.cpu).any (Instr.closesPipe x.1))
  | .attachLocked p => decide ((m.k.pipe p).attachedCount + 1 < 256)
  | .closeLocked _ _ => decide (m.thread.regs.rax ≠ -1)
  | .openPipe =>
    (pipeOf (exec m.k m.thread.regs .openPipe).k m.k.nextPipeId).all (fun p =>
      (endWaiters (exec m.k m.thread.regs .openPipe).k e p).isEmpty)
  | .createProcess _ _ | .int20 => nobodyLeft e m.k
  | _ => true

/-- The same for a step. -/
def closesStep (e : PipeEnd) (m : Machine) (a : Action) : Bool :=
  decide (m.LeavesLocks a) &&
    match a with
    | .exec => m.next.all (closesInstr e m)
    | .tick => nobodyLeft e m.k
    | _ => true

theorem closes_of_closesStep {e : PipeEnd} {m : Machine} {a : Action} (h : closesStep e m a) :
    Closes e m a := by
  simp only [closesStep, Bool.and_eq_true, decide_eq_true_eq] at h
  obtain ⟨hlocks, hstep⟩ := h
  have hinstr : ∀ i, m.Executes a i → closesInstr e m i = true := by
    rintro i ⟨rfl, hn⟩
    simpa only [hn, Option.all_some] using hstep
  refine ⟨fun s c id p hex hcount _ hopen hsem => ?_, fun id p hex hopen htwo => ?_, fun p hex => ?_,
    fun id p hex => ?_, fun p hex hp => ?_, fun id p hsp hopen hatt _ => ?_, fun hsw id p hopen hatt _ => ?_,
    hlocks⟩
  · have hcheck := hinstr _ hex
    simp only [closesInstr, hcount, ne_eq, not_true, decide_false, Bool.false_or, List.all_eq_true] at hcheck
    simpa [hsem] using hcheck _ (mem_openPipes hopen)
  · have hcheck := hinstr _ hex
    simp only [closesInstr, List.all_eq_true] at hcheck
    have hone := hcheck _ (mem_openPipes hopen)
    simp only [ne_eq, not_true, decide_false, htwo, Bool.false_or, Bool.or_eq_true, List.isEmpty_iff,
      List.any_eq_true] at hone
    refine hone.imp_right ?_
    rintro ⟨i, hi, hc⟩
    cases i <;> try cases hc
    cases eq_of_beq hc
    exact hi
  · simpa [closesInstr] using hinstr _ hex
  · simpa [closesInstr] using hinstr _ hex
  · have hcheck := hinstr _ hex
    simp only [closesInstr, hp, Option.all_some, List.isEmpty_iff] at hcheck
    exact hcheck
  · obtain ⟨i, hex, hspawned⟩ := hsp
    have hcheck := hinstr i hex
    -- only a creation prepares a stack
    obtain ⟨args, use, rfl⟩ : ∃ args use, i = .createProcess args use := by
      by_contra hno
      have hnone := spawned_eq_none m.k m.thread.regs (i := i) fun args use hi => hno ⟨args, use, hi⟩
      cases hnone.symm.trans hspawned
    exact nobodyLeft_spec hcheck hopen hatt
  · cases a with
    | exec => exact nobodyLeft_spec (hinstr .int20 ⟨rfl, hsw⟩) hopen hatt
    | tick => exact nobodyLeft_spec hstep hopen hatt
    | _ => cases hsw

/-- The processor is not closing the pipe. -/
def notClosing (e : PipeEnd) (id : Nat) (a : Addr) (m : Machine) : Bool :=
  (m.code m.cpu).all (fun i => !i.closing e id a 0 && !i.postsTo ((m.k.pipe a).semAt e))

theorem notClosing_spec {e : PipeEnd} {id : Nat} {a : Addr} {m : Machine} (h : notClosing e id a m = true) :
    m.NotClosing e id a :=
  .inr fun i hi => by simpa using List.all_eq_true.mp h i hi

/-! ## The last other process goes away -/

/-- The shell opens a pipe, makes it its own input and creates a child, which reads from it and
    waits. -/
def childReads : List Action :=
  startShell ++
  .syscall .openPipe :: List.replicate 2 .exec ++
  .syscall (.setFdTargets 3 1 2) :: List.replicate 26 .exec ++
  .syscall (.processCreate 0 0 false (KERNEL_BASE * 4)) :: List.replicate 45 .exec ++
  List.replicate 4 .tick ++
  .exec :: .syscall (.read 0 1) :: List.replicate 21 .exec

/-- The shell exits, and the child runs on. -/
def shellExits : List Action :=
  .syscall (.processExit 0) :: List.replicate 132 .exec ++ List.replicate 4 .tick ++ List.replicate 19 .exec

/-- The process is in the loop of `read_pipe`, where it goes on once it has been woken. -/
def Instr.isReadWoken (a : Addr) : Instr → Bool
  | .readWoken p => p == a
  | _ => false

end TpSo
