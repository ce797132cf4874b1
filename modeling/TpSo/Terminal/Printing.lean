import TpSo.Machine.Terminated
import TpSo.Pipes.Fifo
import TpSo.Pipes.Uncontended

set_option autoImplicit false

/-! # Writing to the terminal

`write` first puts the whole request into the pipe its descriptor leads to; afterwards it takes the
bytes out again, one after the other, and prints them. It does the second part only where descriptor 1
leads to `STDOUT` or descriptor 2 to `STDERR`, and it comes to it only if the request fits in the
pipe. -/

namespace TpSo

/-- A call of `write`: the state in which it is made, who makes it, and its arguments. -/
structure WriteCall where
  m : Machine
  caller : Addr
  fd : Fin 3
  bytes : List UInt8

namespace WriteCall

/-- The pipe the descriptor leads to. -/
def target (c : WriteCall) : Nat := (c.m.k.proc c.caller).fdTargets c.fd

/-- The running process makes the call. Its descriptors 1 and 2 lead to `STDOUT` and `STDERR`, in any
    combination. -/
structure Made (c : WriteCall) : Prop where
  user : c.m.interruptsEnabled ∧ (c.m.next matches some .user)
  caller : c.m.k.current = some c.caller
  running : (c.m.k.proc c.caller).state = .running
  fd : c.fd = 1 ∨ c.fd = 2
  targets : ∀ fd, fd = 1 ∨ fd = 2 → (c.m.k.proc c.caller).fdTargets fd = STDOUT ∨
    (c.m.k.proc c.caller).fdTargets fd = STDERR

/-- The call returns in `m'`, without having given the processor away. -/
def Returns (c : WriteCall) (m' : Machine) : Prop :=
  ∃ m1 n, c.m.step (.syscall (.write c.fd.val c.bytes)) = some m1 ∧ m1.Proceeds n m' ∧
    m'.interruptsEnabled

/-- The call returns its count without blocking; it has printed its bytes and nothing else, and the pipe
    is empty. -/
def Shown (c : WriteCall) : Prop :=
  ∃ m', c.Returns m' ∧ m'.thread.regs.rax = (c.bytes.length : Int) ∧
    printed m'.log = printed c.m.log ++ c.bytes.map (Prod.mk c.target) ∧
    ∃ p, pipeOf m'.k c.target = some p ∧ (m'.k.pipe p).dataCount = 0

/-- The descriptor leads to the pipe of its own number, and the request fits in the pipe; or the request is
    empty. -/
def Fits (c : WriteCall) : Prop :=
  c.bytes = [] ∨ c.target = c.fd.val ∧ c.bytes.length ≤ PIPE_BUFFER_SIZE

end WriteCall

/-- Between two calls the machine may do anything that prints nothing and leaves the bytes in the two
    pipes and their semaphores as they are. -/
structure BetweenCalls (m m' : Machine) : Prop where
  run : ∃ as, m.run as = some m'
  prints : printed m'.log = printed m.log
  pipes : ∀ id, id = STDOUT ∨ id = STDERR → ∀ p, pipeOf m.k id = some p →
    pipeOf m'.k id = some p ∧ (m'.k.pipe p).sems = (m.k.pipe p).sems ∧
      (m'.k.pipe p).waiting = (m.k.pipe p).waiting ∧ (Vacant m.k p → Vacant m'.k p)

/-- The calls are made one after the other, from `m` on. What comes after a call that never returns
    is not made. -/
inductive Calls : Machine → List WriteCall → Prop
  | nil (m : Machine) : Calls m []
  | cons {m : Machine} {c : WriteCall} {cs : List WriteCall} : BetweenCalls m c.m → c.Made →
      (∀ m', c.Returns m' → Calls m' cs) → Calls m (c :: cs)

/-! ## The two pipes between the calls -/

/-- Both pipes are vacant and empty. -/
def TerminalIdle (k : Kernel) : Prop :=
  ∀ id, id = STDOUT ∨ id = STDERR → pipeOf k id = some (Boot.pipeAddr id) ∧
    (k.pipe (Boot.pipeAddr id)).sems = (Boot.stdPipe id).sems ∧ Carries k (Boot.pipeAddr id) []

theorem TerminalIdle.boot (memAnswers : Nat → Option Addr) :
    TerminalIdle (Boot.machine memAnswers).k := by
  have hok := PipesHold.boot memAnswers
  intro id hid
  have hpipe : (Boot.machine memAnswers).k.pipe (Boot.pipeAddr id) = Boot.stdPipe id := by
    rcases hid with rfl | rfl <;> rfl
  have hsems : ((Boot.sems.lookup (Boot.stdPipe id).mutex).getD {}).count = 1 ∧
      ∀ s ∈ (Boot.stdPipe id).sems, ((Boot.sems.lookup s).getD {}).lock = false ∧
        ((Boot.sems.lookup s).getD {}).waitingProcesses = some [] := by
    rcases hid with rfl | rfl <;> decide
  have hdistinct : (Boot.stdPipe id).sems.Nodup := by
    rcases hid with rfl | rfl <;> decide
  refine ⟨?_, congrArg Pipe.sems hpipe, ⟨?_, ?_, ?_, ?_⟩, (hok (Boot.pipeAddr id)).1, ?_⟩
  · rcases hid with rfl | rfl <;> rfl
  · rw [hpipe]
    exact ⟨(hsems.2 _ (by simp [Pipe.sems])).1, hsems.1, (hsems.2 _ (by simp [Pipe.sems])).2⟩
  · rw [hpipe]
    exact hsems.2 _ (by simp [Pipe.sems])
  · rw [hpipe]
    exact hsems.2 _ (by simp [Pipe.sems])
  · rw [hpipe]
    exact hdistinct
  · rw [hpipe]
    rfl

theorem TerminalIdle.between {m m' : Machine} (h : TerminalIdle m.k) (hb : BetweenCalls m m')
    (hok : ∀ a, (m'.k.pipe a).Ok) : TerminalIdle m'.k := by
  intro id hid
  obtain ⟨hpipe, hsems, hholds⟩ := h id hid
  obtain ⟨hpipe', hsems', hwaiting, hvacant⟩ := hb.pipes id hid _ hpipe
  exact ⟨hpipe', hsems'.trans hsems, hvacant hholds.vacant, hok _, hwaiting.trans hholds.waiting⟩

/-- A call that leaves its own pipe empty leaves both so. -/
theorem TerminalIdle.within {k k' : Kernel} {id : Nat} (h : TerminalIdle k) (hid : id = STDOUT ∨ id = STDERR)
    (hw : Within k k' (Boot.pipeAddr id)) (hholds : Carries k' (Boot.pipeAddr id) []) : TerminalIdle k' := by
  intro j hj
  obtain ⟨hpipe, hsems, hother⟩ := h j hj
  have hpipe' : pipeOf k' j = some (Boot.pipeAddr j) := by
    unfold pipeOf
    rw [hw.pipes]
    exact hpipe
  by_cases hji : j = id
  · subst hji
    exact ⟨hpipe', hw.sems.trans hsems, hholds⟩
  · have hne : Boot.pipeAddr j ≠ Boot.pipeAddr id := by
      simpa [Boot.pipeAddr] using hji
    have hsame := hw.pipe _ hne
    have hapart : ∀ s ∈ (k.pipe (Boot.pipeAddr j)).sems, s ∉ (k.pipe (Boot.pipeAddr id)).sems := by
      rw [hsems, (h id hid).2.1]
      simp only [Pipe.sems, Boot.stdPipe, Boot.pipeAddr, Addr, List.mem_cons, List.not_mem_nil, or_false]
      intro s hs hs'
      omega
    refine ⟨hpipe', by rw [hsame]; exact hsems, hw.vacant hne hapart hother.vacant, ?_, ?_⟩
    all_goals rw [hsame]
    · exact hother.ok
    · exact hother.waiting

/-! ## One call -/

/-- A handler that does not go on has come to its only end. -/
theorem Machine.Proceeds.stuck {m m' : Machine} {n : Nat} (h : m.Proceeds n m')
    (hstop : ¬ m.KeepsCpu .exec) : m' = m := by
  cases n with
  | zero =>
      cases h
      rfl
  | succ n =>
      cases h with
      | cons hk _ _ => exact absurd hk hstop

theorem Machine.not_keepsCpu_of_enabled {m : Machine} (h : m.interruptsEnabled) :
    ¬ m.KeepsCpu .exec := by
  rintro ⟨i, rest, hsys, -⟩
  unfold interruptsEnabled at h
  rw [hsys] at h
  cases h

namespace WriteCall

variable {c : WriteCall} {m' m'' : Machine}

/-- A call returns in one way at most. -/
theorem Returns.unique (h : c.Returns m') (h' : c.Returns m'') : m'' = m' := by
  obtain ⟨m1, n, hs, hrun, hif⟩ := h
  obtain ⟨m2, l, hs', hrun', hif'⟩ := h'
  cases hs.symm.trans hs'
  obtain ⟨d, -, hrest⟩ := hrun.split hrun' (Machine.not_keepsCpu_of_enabled hif)
  exact (hrest.stuck (Machine.not_keepsCpu_of_enabled hif')).symm

theorem Made.target (h : c.Made) : c.target = STDOUT ∨ c.target = STDERR := h.targets c.fd h.fd

/-- The system call. -/
theorem Made.step (h : c.Made) : c.m.step (.syscall (.write c.fd.val c.bytes)) =
    some (c.m.inHandler c.m.k c.m.thread.regs [.sys (.write c.fd.val c.bytes)] c.m.log) :=
  Machine.step_call h.user.1 h.user.2 rfl

theorem validFd_val (fd : Fin 3) : validFd fd.val = some fd :=
  match fd with
  | 0 => rfl
  | 1 => rfl
  | 2 => rfl

theorem Made.fd_ne (h : c.Made) : c.fd ≠ 0 := by
  rcases h.fd with hfd | hfd <;>
  · rw [hfd]
    decide

/-- An empty request. -/
theorem Made.returns_nil (h : c.Made) (hnil : c.bytes = []) :
    c.Returns (c.m.inHandler c.m.k { c.m.thread.regs with rax := 0 } [] c.m.log) := by
  refine ⟨_, 1, h.step, ?_, ?_⟩
  · refine Machine.proceeds_instr (n := 0) rfl ?_
    simp only [exec, sysCode, validFd_val, if_neg h.fd_ne, hnil, List.length_nil, if_true]
    exact .refl _
  · unfold Machine.interruptsEnabled
    rw [Machine.inHandler_thread]
    rfl

/-- The request is on its way into the pipe. -/
theorem Made.begins (h : c.Made) (hne : c.bytes ≠ []) {p : Addr} (hp : pipeOf c.m.k c.target = some p) :
    (c.m.inHandler c.m.k c.m.thread.regs [.sys (.write c.fd.val c.bytes)] c.m.log).Proceeds 2
      (c.m.inHandler c.m.k c.m.thread.regs
        [.writeLoop p c.bytes 0, .writeAfter c.caller c.fd c.target] c.m.log) := by
  have hlen : c.bytes.length ≠ 0 := fun hzero => hne (List.eq_nil_of_length_eq_zero hzero)
  refine Machine.proceeds_instr (n := 1) rfl ?_
  simp only [exec, sysCode, validFd_val, if_neg h.fd_ne, if_neg hlen, h.caller, List.nil_append,
    List.append_nil]
  refine Machine.proceeds_instr (n := 0) rfl ?_
  simp only [exec, if_neg hlen, show (c.m.k.proc c.caller).fdTargets c.fd = c.target from rfl, hp,
    List.nil_append, List.cons_append]
  exact .refl _

/-- The whole request is in the pipe. -/
theorem Made.filled (h : c.Made) (hne : c.bytes ≠ []) (hfits : c.bytes.length ≤ PIPE_BUFFER_SIZE)
    {p : Addr} (hp : pipeOf c.m.k c.target = some p) (hholds : Carries c.m.k p []) :
    ∃ k r log n, Carries k p c.bytes ∧ Within c.m.k k p ∧ r.rax = (c.bytes.length : Int) ∧
      printed log = printed c.m.log ∧
      (c.m.inHandler c.m.k c.m.thread.regs [.sys (.write c.fd.val c.bytes)] c.m.log).Proceeds n
        (c.m.inHandler k r [.writeAfter c.caller c.fd c.target] log) := by
  have hroom : (c.m.k.pipe p).dataCount + c.bytes.length ≤ PIPE_BUFFER_SIZE := by
    rw [hholds.dataCount, List.length_nil, Nat.zero_add]
    exact hfits
  obtain ⟨r, log, hprinted, hfill⟩ := proceeds_fill c.m c.m.thread.regs
    [.writeAfter c.caller c.fd c.target] c.m.log hholds.vacant c.bytes.length hroom (Nat.le_refl _)
  rw [List.take_length] at hfill
  have hall := hholds.putAll c.bytes ((Nat.zero_add _).trans_le hfits)
  refine ⟨_, { r with rax := c.bytes.length }, log, _, hall.1, hall.2, rfl, hprinted,
    ((h.begins hne hp).append hfill).append (Machine.proceeds_instr (n := 0) rfl ?_)⟩
  simp only [exec, Nat.lt_irrefl, if_false, List.nil_append]
  exact .refl _

/-- The end of `write`, once `write_pipe` has returned. -/
theorem exec_writeAfter (k : Kernel) (r : Regs) (cur : Addr) (fd : Fin 3) (id : Nat) {n : Nat}
    (hrax : r.rax = (n : Int)) : exec k r (.writeAfter cur fd id) =
      { k := k, r := r, code :=
          if (fd = 1 ∧ (k.proc cur).fdTargets 1 = STDOUT) ∨ (fd = 2 ∧ (k.proc cur).fdTargets 2 = STDERR)
          then [.writeDrain id n n] else [] } := by
  have hnonneg : ¬ r.rax < 0 := by
    rw [hrax]
    exact Int.not_lt.mpr (Int.natCast_nonneg n)
  simp only [exec]
  rw [if_neg hnonneg, hrax, Int.toNat_natCast]
  split <;> rfl

/-- **A request that fits** is shown. -/
theorem Made.shown (h : c.Made) (hidle : TerminalIdle c.m.k) (hfits : c.Fits) :
    ∃ m', c.Returns m' ∧ m'.thread.regs.rax = (c.bytes.length : Int) ∧
      printed m'.log = printed c.m.log ++ c.bytes.map (Prod.mk c.target) ∧ TerminalIdle m'.k := by
  by_cases hne : c.bytes = []
  · refine ⟨_, h.returns_nil hne, ?_, ?_, hidle⟩
    · rw [Machine.inHandler_thread, hne]
      rfl
    · rw [hne]
      exact (List.append_nil _).symm
  obtain ⟨htarget, hlen⟩ := hfits.resolve_left hne
  obtain ⟨hp, -, hholds⟩ := hidle c.target h.target
  obtain ⟨k, r, log, n, hfull, hwithin, hrax, hprinted, hfill⟩ := h.filled hne hlen hp hholds
  have hp' : pipeOf k c.target = some (Boot.pipeAddr c.target) := by
    unfold pipeOf
    rw [hwithin.pipes]
    exact hp
  obtain ⟨k', r', log', l, hempty, hwithin', hrax', hprinted', hdrain⟩ :=
    proceeds_drain c.m r [] log (w := c.bytes.length) hfull hp'
  have hafter : (c.m.inHandler k r [.writeAfter c.caller c.fd c.target] log).Proceeds (l + 1)
      (c.m.inHandler k' r' [] log') := by
    refine Machine.proceeds_instr rfl ?_
    have hpair : (c.fd = 1 ∧ (k.proc c.caller).fdTargets 1 = STDOUT) ∨
        (c.fd = 2 ∧ (k.proc c.caller).fdTargets 2 = STDERR) := by
      rw [hwithin.proc]
      refine h.fd.imp (fun hfd => ⟨hfd, ?_⟩) fun hfd => ⟨hfd, ?_⟩
      all_goals
        unfold WriteCall.target at htarget
        rw [hfd] at htarget
        exact htarget
    rw [exec_writeAfter k r c.caller c.fd c.target hrax, if_pos hpair]
    exact hdrain
  refine ⟨_, ⟨_, _, h.step, hfill.append hafter, ?_⟩, ?_, ?_, ?_⟩
  · unfold Machine.interruptsEnabled
    rw [Machine.inHandler_thread]
    rfl
  · rw [Machine.inHandler_thread]
    exact hrax'
  · rw [← hprinted]
    exact hprinted'
  · exact hidle.within h.target (hwithin.trans hwithin') hempty

/-- **A request that does not fit** gives the processor away before it returns, if it does. -/
theorem Made.blocks (h : c.Made) (hidle : TerminalIdle c.m.k)
    (hlong : PIPE_BUFFER_SIZE < c.bytes.length) : ¬ c.Returns m' := by
  rintro ⟨m1, n, hs, hrun, hif⟩
  cases hs.symm.trans h.step
  obtain ⟨hp, -, hholds⟩ := hidle c.target h.target
  have hne : c.bytes ≠ [] := by
    rintro hnil
    rw [hnil] at hlong
    cases hlong
  obtain ⟨r, log, -, hfill⟩ := proceeds_fill c.m c.m.thread.regs
    [.writeAfter c.caller c.fd c.target] c.m.log hholds.vacant PIPE_BUFFER_SIZE
    (by rw [hholds.dataCount]; exact Nat.le_of_eq (Nat.zero_add _)) (Nat.le_of_lt hlong)
  have htake : (c.bytes.take PIPE_BUFFER_SIZE).length = PIPE_BUFFER_SIZE :=
    List.length_take_of_le (Nat.le_of_lt hlong)
  obtain ⟨hfull, hwithin⟩ := hholds.putAll (c.bytes.take PIPE_BUFFER_SIZE)
    (by rw [htake]; exact Nat.le_of_eq (Nat.zero_add _))
  obtain ⟨k', r', code, log', l, hblock⟩ := proceeds_blocks c.m r
    [.writeAfter c.caller c.fd c.target] log hfull htake hlong (by rw [hwithin.current]; exact h.caller)
    (by rw [hwithin.proc, h.running]; exact nofun) rfl
  obtain ⟨d, -, hrest⟩ := hrun.split (((h.begins hne hp).append hfill).append hblock)
    (Machine.not_keepsCpu_of_enabled hif)
  have hstop : ¬ (c.m.inHandler k' r' (.int20 :: code) log').KeepsCpu .exec := by
    rintro ⟨i, rest, hsys, hi⟩
    rw [Machine.inHandler_thread] at hsys
    cases hsys
    exact hi rfl
  rw [hrest.stuck hstop] at hif
  unfold Machine.interruptsEnabled at hif
  rw [Machine.inHandler_thread] at hif
  cases hif

/-- **A request through a crossed descriptor** stays in the pipe. -/
theorem Made.stays (h : c.Made) (hidle : TerminalIdle c.m.k) (hne : c.bytes ≠ [])
    (hlen : c.bytes.length ≤ PIPE_BUFFER_SIZE) (hcross : c.target ≠ c.fd.val) :
    ∃ m', c.Returns m' ∧ printed m'.log = printed c.m.log := by
  obtain ⟨hp, -, hholds⟩ := hidle c.target h.target
  obtain ⟨k, r, log, n, -, hwithin, hrax, hprinted, hfill⟩ := h.filled hne hlen hp hholds
  have hpair : ¬ ((c.fd = 1 ∧ (k.proc c.caller).fdTargets 1 = STDOUT) ∨
      (c.fd = 2 ∧ (k.proc c.caller).fdTargets 2 = STDERR)) := by
    rw [hwithin.proc]
    rintro (⟨hfd, htarget⟩ | ⟨hfd, htarget⟩)
    all_goals
      refine hcross ?_
      unfold WriteCall.target
      rw [hfd, htarget]
      rfl
  refine ⟨c.m.inHandler k r [] log,
    ⟨_, _, h.step, hfill.append (Machine.proceeds_instr (n := 0) rfl ?_), ?_⟩, ?_⟩
  · rw [exec_writeAfter k r c.caller c.fd c.target hrax, if_neg hpair]
    exact .refl _
  · unfold Machine.interruptsEnabled
    rw [Machine.inHandler_thread]
    rfl
  · exact hprinted

/-- **Which calls are shown.** -/
theorem Made.shown_iff (h : c.Made) (hidle : TerminalIdle c.m.k) : c.Shown ↔ c.Fits := by
  constructor
  · rintro ⟨m', hreturns, -, hprinted, -⟩
    by_cases hne : c.bytes = []
    · exact .inl hne
    by_cases hlen : c.bytes.length ≤ PIPE_BUFFER_SIZE
    · refine .inr ⟨?_, hlen⟩
      by_contra hcross
      obtain ⟨m1, hreturns1, hprinted1⟩ := h.stays hidle hne hlen hcross
      rw [hreturns.unique hreturns1, hprinted] at hprinted1
      exact hne (List.map_eq_nil_iff.mp (List.append_right_eq_self.mp hprinted1))
    · exact absurd hreturns (h.blocks hidle (Nat.lt_of_not_le hlen))
  · intro hfits
    obtain ⟨m', hreturns, hrax, hprinted, hidle'⟩ := h.shown hidle hfits
    obtain ⟨hp, -, hholds⟩ := hidle' c.target h.target
    exact ⟨m', hreturns, hrax, hprinted, _, hp, hholds.dataCount⟩

end WriteCall

/-! ## Any number of calls -/

/-- **Writing to the terminal**, from boot on: each of a sequence of calls returns its count without
    blocking, prints its bytes and nothing else, and leaves the pipe empty, if and only if each is made
    through the descriptor whose number is the pipe's and fits in the pipe, or is empty. -/
theorem terminal_write {memAnswers : Nat → Option Addr} {cs : List WriteCall}
    (h : Calls (Boot.machine memAnswers) cs) : (∀ c ∈ cs, c.Shown) ↔ ∀ c ∈ cs, c.Fits := by
  suffices hall : ∀ m as, Reaches memAnswers as m → TerminalIdle m.k → Calls m cs →
      ((∀ c ∈ cs, c.Shown) ↔ ∀ c ∈ cs, c.Fits) from
    hall (Boot.machine memAnswers) [] rfl (TerminalIdle.boot memAnswers) h
  clear h
  induction cs with
  | nil =>
      intro m as _ _ _
      simp only [List.not_mem_nil, false_implies, implies_true]
  | cons c cs ih =>
      intro m as hreach hidle h
      obtain - | ⟨hbetween, hmade, hrest⟩ := h
      obtain ⟨bs, hbs⟩ := hbetween.run
      have hreach' : Reaches memAnswers (as ++ bs) c.m := Machine.run_append hreach hbs
      have hidle' := hidle.between hbetween fun a => (reaches_pipesHold hreach' a).1
      have hiff := hmade.shown_iff hidle'
      -- the calls after one that is shown
      have htail : c.Fits → ((∀ d ∈ cs, d.Shown) ↔ ∀ d ∈ cs, d.Fits) := by
        intro hfits
        obtain ⟨m', hreturns, -, -, hidle''⟩ := hmade.shown hidle' hfits
        obtain ⟨m1, n, hs, hrun, -⟩ := id hreturns
        have hcall : Reaches memAnswers
            ((as ++ bs) ++ .syscall (.write c.fd.val c.bytes) :: List.replicate n .exec) m' :=
          Machine.run_append hreach' (Machine.run_cons hs (run_of_guarded hrun))
        exact ih m' _ hcall hidle'' (hrest m' hreturns)
      simp only [List.forall_mem_cons]
      constructor
      · rintro ⟨hc, hcs⟩
        exact ⟨hiff.mp hc, (htail (hiff.mp hc)).mp hcs⟩
      · rintro ⟨hc, hcs⟩
        exact ⟨hiff.mpr hc, (htail hc).mpr hcs⟩

/-! ## The shell and a child write -/

/-- `KeepsCpu`, by looking at the instruction. -/
def keepsCpu (m : Machine) : Bool :=
  match m.thread.sys with
  | [] | .int20 :: _ => false
  | _ => true

theorem keepsCpu_iff (m : Machine) (a : Action) : keepsCpu m = true ↔ m.KeepsCpu a := by
  unfold keepsCpu Machine.KeepsCpu
  cases m.thread.sys with
  | nil => simp
  | cons i rest => cases i <;> simp

instance (m : Machine) (a : Action) : Decidable (m.KeepsCpu a) := decidable_of_iff _ (keepsCpu_iff m a)

instance (c : WriteCall) : Decidable c.Made :=
  decidable_of_iff (_ ∧ _ ∧ _ ∧ _ ∧ _)
    ⟨fun ⟨h1, h2, h3, h4, h5⟩ => ⟨h1, h2, h3, h4, h5⟩, fun ⟨h1, h2, h3, h4, h5⟩ => ⟨h1, h2, h3, h4, h5⟩⟩

/-- `BetweenCalls`, for a machine that has been reached. -/
def leavesTerminal (m m' : Machine) : Bool :=
  decide (printed m'.log = printed m.log) && [STDOUT, STDERR].all fun id =>
    match pipeOf m.k id with
    | none => true
    | some p => decide (pipeOf m'.k id = some p ∧ (m'.k.pipe p).sems = (m.k.pipe p).sems ∧
        (m'.k.pipe p).waiting = (m.k.pipe p).waiting ∧ Vacant m'.k p)

theorem betweenCalls_of_leavesTerminal {m m' : Machine} {as : List Action} (hrun : m.run as = some m')
    (h : leavesTerminal m m' = true) : BetweenCalls m m' := by
  unfold leavesTerminal at h
  simp only [Bool.and_eq_true, decide_eq_true_eq, List.all_eq_true, List.mem_cons, List.not_mem_nil,
    or_false] at h
  refine ⟨⟨as, hrun⟩, h.1, fun id hid p hp => ?_⟩
  have hid' := h.2 id hid
  rw [hp] at hid'
  obtain ⟨hpipe, hsems, hwaiting, hvacant⟩ := of_decide_eq_true hid'
  exact ⟨hpipe, hsems, hwaiting, fun _ => hvacant⟩

/-- The shell creates a child, which gets the processor. -/
def childRuns : List Action :=
  .syscall (.processCreate 0 0 false 0x400000) :: List.replicate 45 .exec ++ List.replicate 4 .tick ++ [.exec]

/-- Execute the call's handler. -/
def WriteCall.finish (c : WriteCall) (n : Nat) : Option Machine :=
  (c.m.step (.syscall (.write c.fd.val c.bytes))).bind fun m1 =>
    GuardedRun.check Machine.step Machine.KeepsCpu m1 (List.replicate n .exec)

theorem WriteCall.returns_of_finish {c : WriteCall} {n : Nat} {m' : Machine} (h : c.finish n = some m')
    (hif : m'.interruptsEnabled) : c.Returns m' := by
  obtain ⟨m1, hs, hrun⟩ := Option.bind_eq_some_iff.mp h
  exact ⟨m1, n, hs, GuardedRun.of_check hrun, hif⟩

/-- The shell's first call. -/
def shellCall (bytes : List UInt8) (m : Machine) : WriteCall :=
  { m := m, caller := KERNEL_BASE + 100, fd := 1, bytes := bytes }

/-- Its child's first call. -/
def childCall (bytes : List UInt8) (m : Machine) : WriteCall :=
  { m := m, caller := KERNEL_BASE + 114, fd := 2, bytes := bytes }

set_option maxRecDepth 100000 in
/-- The shell writes a byte to `STDOUT`, creates a child, and the child writes a byte to `STDERR`. -/
theorem terminal_write_child : ∃ m1 m2,
    Calls (Boot.machine freshBlocks) [shellCall [65] m1, childCall [66] m2] ∧
      (shellCall [65] m1).Shown ∧ (childCall [66] m2).Shown := by
  obtain ⟨m1, hm1, hfacts⟩ := (Option.any_eq_true (fun m1 : Machine =>
    leavesTerminal (Boot.machine freshBlocks) m1 && decide (shellCall [65] m1).Made &&
      decide ((shellCall [65] m1).target = STDOUT) &&
      ((shellCall [65] m1).finish 34).any fun m' => m'.interruptsEnabled && (m'.run childRuns).any fun m2 =>
        leavesTerminal m' m2 && decide (childCall [66] m2).Made && decide ((childCall [66] m2).target = STDERR))
    ((Boot.machine freshBlocks).run startShell)).mp (by decide +kernel)
  simp only [Bool.and_eq_true, decide_eq_true_eq] at hfacts
  obtain ⟨⟨⟨hleaves, hmade⟩, htarget⟩, hrest⟩ := hfacts
  obtain ⟨m', hm', hfacts'⟩ := (Option.any_eq_true _ _).mp hrest
  simp only [Bool.and_eq_true] at hfacts'
  obtain ⟨hif, hchild⟩ := hfacts'
  obtain ⟨m2, hm2, hfacts2⟩ := (Option.any_eq_true _ _).mp hchild
  simp only [Bool.and_eq_true, decide_eq_true_eq] at hfacts2
  obtain ⟨⟨hleaves', hmade'⟩, htarget'⟩ := hfacts2
  have hcalls : Calls (Boot.machine freshBlocks) [shellCall [65] m1, childCall [66] m2] := by
    refine .cons (betweenCalls_of_leavesTerminal hm1 hleaves) hmade fun m'' hreturns => ?_
    rw [(WriteCall.returns_of_finish hm' hif).unique hreturns]
    exact .cons (betweenCalls_of_leavesTerminal hm2 hleaves') hmade' fun m3 _ => .nil m3
  refine ⟨m1, m2, hcalls, ?_⟩
  have hshown := (terminal_write hcalls).mpr fun c hc => ?_
  · exact ⟨hshown _ List.mem_cons_self, hshown _ (.tail _ List.mem_cons_self)⟩
  · simp only [List.mem_cons, List.not_mem_nil, or_false] at hc
    rcases hc with rfl | rfl
    · exact .inr ⟨htarget, (by decide : 1 ≤ PIPE_BUFFER_SIZE)⟩
    · exact .inr ⟨htarget', (by decide : 1 ≤ PIPE_BUFFER_SIZE)⟩

set_option maxRecDepth 100000 in
/-- The shell writes a byte more than the pipe can hold. It fills the pipe, and waits for somebody to
    take a byte out, which only it would do. -/
theorem long_write_blocks : ¬ ∀ (memAnswers : Nat → Option Addr) (cs : List WriteCall),
    Calls (Boot.machine memAnswers) cs → ∀ c ∈ cs, c.Shown := by
  intro h
  obtain ⟨m1, hm1, hfacts⟩ := (Option.any_eq_true (fun m1 : Machine =>
    leavesTerminal (Boot.machine freshBlocks) m1 && decide (shellCall [] m1).Made)
    ((Boot.machine freshBlocks).run startShell)).mp (by decide +kernel)
  simp only [Bool.and_eq_true, decide_eq_true_eq] at hfacts
  obtain ⟨hleaves, huser, hcaller, hrunning, hfd, htargets⟩ := hfacts
  have hbetween := betweenCalls_of_leavesTerminal hm1 hleaves
  have hlong : PIPE_BUFFER_SIZE < (List.replicate (PIPE_BUFFER_SIZE + 1) (65 : UInt8)).length := by
    rw [List.length_replicate]
    exact Nat.lt_succ_self _
  generalize List.replicate (PIPE_BUFFER_SIZE + 1) (65 : UInt8) = bytes at hlong
  have hmade : (shellCall bytes m1).Made := ⟨huser, hcaller, hrunning, hfd, htargets⟩
  obtain ⟨m', hreturns, -⟩ := h freshBlocks [shellCall bytes m1]
    (.cons hbetween hmade fun m' _ => .nil m') _ List.mem_cons_self
  have hidle := (TerminalIdle.boot freshBlocks).between hbetween fun a =>
    (reaches_pipesHold (show Reaches freshBlocks startShell m1 from hm1) a).1
  exact hmade.blocks hidle hlong hreturns

end TpSo
