import TpSo.Machine.Call
import TpSo.Machine.Terminated

set_option autoImplicit false

/-! # What `read_pipe` returns

Between two turns of its loop a call of `read_pipe` is in `sem_wait` and `sem_post`, where other
processes run. The step lemma follows the one line of the loop that comes next through all of that;
the run lemma adds up the bytes taken on the way. -/

namespace TpSo

/-- The byte an event takes out of a pipe. -/
def Event.taken : Event → Option (Addr × UInt8)
  | .took pipe byte => some (pipe, byte)
  | _ => none

/-- `read_pipe` is about to return a number that is not negative and not that of the bytes it has
    read: it finds end of file after it has read some, or has read more than an `int` can count. -/
def Instr.miscounts (k : Kernel) : Instr → Bool
  | .readLocked pipe _ done =>
    decide ((k.pipe pipe).dataCount = 0 ∧ (k.pipe pipe).attachedCount ≤ 1 ∧ done ≠ [])
  | .readLoop _ bytes done =>
    decide (bytes ≤ done.length ∧ 0 ≤ toInt done.length ∧ toInt done.length ≠ done.length)
  | _ => false

/-- Code between two turns takes nothing out of any pipe. -/
theorem exec_isLocking_taken (k : Kernel) (r : Regs) {i : Instr} (hi : i.isLocking) :
    (exec k r i).events.filterMap Event.taken = [] := by
  cases i <;> try cases hi
  case processYield =>
      simp only [exec]
      split <;> rfl
  case semLock s =>
      simp only [exec]
      split <;> rfl
  all_goals rfl

/-- `i` is one of the two lines of the loop of `read_pipe`, with these bytes read. -/
def Instr.IsTurn (pipe : Addr) (done : List UInt8) (i : Instr) : Prop :=
  ∃ bytes, i = .readLoop pipe bytes done ∨ i = .readLocked pipe bytes done

/-- What a line of the loop comes to: the next one, perhaps with another byte read, or the return. -/
inductive Turn (pipe : Addr) (done : List UInt8) (k : Kernel) (i : Instr) (o : Outcome) : Prop
  | goesOn (locks : List Instr) (j : Instr) (more : List UInt8) (code : o.code = locks ++ [j])
      (isTurn : j.IsTurn pipe (done ++ more)) (locking : ∀ l ∈ locks, l.isLocking)
      (taken : (o.events.filterMap Event.taken).reverse = more.map (Prod.mk pipe))
      (fine : ¬ i.miscounts k)
  | ends (locks : List Instr) (ret : Int) (code : o.code = locks ++ [.readReturn done ret])
      (locking : ∀ l ∈ locks, l.isLocking) (taken : o.events = [])
      (counts : (0 ≤ ret → ret = done.length) ↔ ¬ i.miscounts k)

theorem exec_turn (k : Kernel) (r : Regs) {pipe : Addr} {done : List UInt8} {i : Instr}
    (hi : i.IsTurn pipe done) : Turn pipe done k i (exec k r i) := by
  obtain ⟨bytes, rfl | rfl⟩ := hi
  · simp only [exec]
    split
    · next hlt =>
      refine .goesOn [.semWait (k.pipe pipe).mutex] (.readLocked pipe bytes done) [] rfl ?_ ?_ rfl ?_
      · rw [List.append_nil]
        exact ⟨bytes, .inr rfl⟩
      · simp [Instr.isLocking]
      · exact fun hmis => absurd (of_decide_eq_true hmis).1 (by omega)
    · next hge =>
      refine .ends [] (toInt done.length) rfl (by simp) rfl ⟨fun h hmis => ?_, fun hfine hret => ?_⟩
      · obtain ⟨-, hret, hne⟩ := of_decide_eq_true hmis
        exact hne (h hret)
      · by_contra hne
        exact hfine (decide_eq_true ⟨Nat.le_of_not_lt hge, hret, hne⟩)
  · simp only [exec]
    split
    · next hempty =>
      split
      -- the line that miscounts: it returns 0 although bytes may have been read before it slept
      · next hlast =>
        refine .ends [.semPost (k.pipe pipe).mutex] 0 rfl (by simp [Instr.isLocking]) rfl ⟨?_, ?_⟩
        · intro hret hmis
          obtain ⟨-, -, hdone⟩ := of_decide_eq_true hmis
          have hlen : (0 : Int) = done.length := hret (Int.le_refl 0)
          exact hdone (List.eq_nil_of_length_eq_zero (by omega))
        · intro hfine _
          have hdone : done = [] := by
            by_contra hdone
            exact hfine (decide_eq_true ⟨hempty, hlast, hdone⟩)
          rw [hdone]
          rfl
      · next hothers =>
        refine .goesOn [.semPost (k.pipe pipe).mutex, .semWait (k.pipe pipe).canRead,
          .semWait (k.pipe pipe).mutex, .readWoken pipe, .semPost (k.pipe pipe).mutex]
          (.readLoop pipe bytes done) [] rfl ?_ ?_ rfl ?_
        · rw [List.append_nil]
          exact ⟨bytes, .inl rfl⟩
        · simp [Instr.isLocking]
        · exact fun hmis => hothers (of_decide_eq_true hmis).2.1
    · next hbyte =>
      exact .goesOn [.semPost (k.pipe pipe).mutex, .semPost (k.pipe pipe).canWrite] _
        [(k.pipe pipe).buffer (k.pipe pipe).readIdx] rfl ⟨bytes, .inl rfl⟩ (by simp [Instr.isLocking])
        rfl fun hmis => hbyte (of_decide_eq_true hmis).1

namespace Machine

/-- The bytes a step takes out of pipes, each with the address of its pipe. -/
def takes (m : Machine) : Action → List (Addr × UInt8)
  | .exec => m.next.elim [] fun i => ((exec m.k m.thread.regs i).events.filterMap Event.taken).reverse
  | _ => []

/-- The bytes the process `p` takes out of pipes in a run, in this order. -/
def takenBy (m : Machine) (p : Addr) : List Action → List (Addr × UInt8)
  | [] => []
  | a :: as =>
    (if m.cpu = p then m.takes a else []) ++ (m.step a).elim [] fun m' => m'.takenBy p as

theorem takenBy_cons {m m' : Machine} {p : Addr} {a : Action} {as : List Action}
    (h : m.step a = some m') :
    m.takenBy p (a :: as) = (if m.cpu = p then m.takes a else []) ++ m'.takenBy p as := by
  simp only [takenBy, h, Option.elim]

/-- The process `p` is at a line of `read_pipe` that makes it return a wrong number. -/
def Miscounts (p : Addr) (m : Machine) (a : Action) : Prop :=
  m.cpu = p ∧ ∃ i, m.Executes a i ∧ i.miscounts m.k

/-- The process `p` is in a call of `read_pipe`, and `i` is the next of its own lines. -/
def ReadsAt (p : Addr) (rest : List Instr) (m : Machine) (i : Instr) : Prop :=
  ∃ waits, (m.threads p).sys = waits ++ i :: rest ∧ ∀ j ∈ waits, j.isLocking

variable {p : Addr} {rest : List Instr} {m m' : Machine} {a : Action} {i : Instr}

/-- The call has not returned. -/
theorem ReadsAt.length_lt (h : ReadsAt p rest m i) : (m.threads p).sys ≠ rest := by
  obtain ⟨waits, hsys, -⟩ := h
  intro heq
  have hlen := congrArg List.length (hsys.symm.trans heq)
  simp only [List.length_append, List.length_cons] at hlen
  omega

/-- The line after the instruction the processor is at. -/
theorem ReadsAt.of_execInstr {code : List Instr} {j : Instr} (hsys : (m.threads m.cpu).sys = i :: rest)
    (hi : i ≠ .int20) (hc : i.creates = false)
    (hcode : (exec m.k m.thread.regs i).code = code ++ [j]) (hcode' : ∀ l ∈ code, l.isLocking) :
    ReadsAt m.cpu rest (m.execInstr i) j := by
  obtain ⟨hcpu, hthread⟩ := execInstr_thread hsys hi (exec_spawn_none _ _ hc)
  refine ⟨code, ?_, hcode'⟩
  have hnew := congrArg Thread.sys hthread
  rw [thread, hcpu, hcode, List.append_assoc] at hnew
  exact hnew

/-- **Step lemma.** Either the next line of `read_pipe` stays the same, or the processor is at it. -/
theorem ReadsAt.step (h : ReadsAt p rest m i) (hs : m.step a = some m') (hsp : ¬ m.Spawns a p) :
    (ReadsAt p rest m' i ∧ (if m.cpu = p then m.takes a else []) = [] ∧ ¬ m.Miscounts p a) ∨
      (m.cpu = p ∧ (m.threads p).sys = i :: rest) := by
  obtain ⟨waits, hsys, hwaits⟩ := h
  by_cases hcpu : m.cpu = p
  · subst hcpu
    cases waits with
    | nil => exact .inr ⟨rfl, hsys⟩
    | cons j waits =>
      refine .inl ?_
      obtain ⟨⟨rfl, hn⟩, rfl⟩ := step_of_sys hsys hs
      have hj := hwaits j List.mem_cons_self
      have hrest : ∀ l ∈ waits, l.isLocking := fun l hl => hwaits l (.tail _ hl)
      have hcode := exec_isLocking m.k m.thread.regs hj
      have htakes := exec_isLocking_taken m.k m.thread.regs hj
      refine ⟨?_, ?_, ?_⟩
      · by_cases hint : j = .int20
        · subst hint
          refine ⟨waits, ?_, hrest⟩
          have hadvance : m.advance [] = { m.thread with sys := waits ++ i :: rest } := by
            unfold advance thread
            rw [hsys]
            rfl
          show (Function.update m.threads m.cpu (m.advance []) m.cpu).sys = _
          rw [Function.update_self, hadvance]
        · have hcreates : j.creates = false := by
            cases j <;> first | rfl | cases hj
          obtain ⟨hcpu, hthread⟩ := execInstr_thread hsys hint (exec_spawn_none _ _ hcreates)
          refine ⟨(exec m.k m.thread.regs j).code ++ waits, ?_, ?_⟩
          · have hnew := congrArg Thread.sys hthread
            rw [thread, hcpu] at hnew
            exact hnew.trans (List.append_assoc ..).symm
          · intro l hl
            exact (List.mem_append.mp hl).elim (hcode l) (hrest l)
      · rw [if_pos rfl]
        simp only [takes, hn, Option.elim, htakes, List.reverse_nil]
      · rintro ⟨-, l, ⟨-, hex⟩, hmis⟩
        cases hn.symm.trans hex
        cases j <;> first | cases hj; done | cases hmis
  · refine .inl ⟨⟨waits, ?_, hwaits⟩, if_neg hcpu, fun h => hcpu h.1⟩
    rw [step_thread_of_ne hs (Ne.symm hcpu) hsp]
    exact hsys

/-- The return of `read_pipe`. -/
theorem returns_of_readReturn {as : List Action} (h : GuardedRun step (InCall p rest) m as m')
    (hend : (m'.threads p).sys = rest) {done : List UInt8} {ret : Int}
    (hat : ReadsAt p rest m (.readReturn done ret)) :
    m.takenBy p as = [] ∧ (m'.threads p).regs = { rax := ret, buf := done } ∧
      GuardedRun step (fun m a => ¬ m.Miscounts p a) m as m' := by
  induction h with
  | nil m => exact absurd hend hat.length_lt
  | @cons m m1 t a as hg hs hrun ih =>
    rcases hat.step hs hg.2 with ⟨hat', htakes, hmis⟩ | ⟨rfl, hsys⟩
    · obtain ⟨htaken, hregs, hfine⟩ := ih hend hat'
      rw [takenBy_cons hs, htakes, htaken]
      exact ⟨rfl, hregs, .cons hmis hs hfine⟩
    · have hstep := hs
      obtain ⟨⟨rfl, hn⟩, rfl⟩ := step_of_sys hsys hs
      obtain ⟨hcpu, hthread⟩ := execInstr_thread hsys (i := .readReturn done ret) (by simp)
        (exec_spawn_none _ _ rfl)
      rw [thread, hcpu] at hthread
      obtain ⟨rfl, rfl⟩ := InCall.over hrun (by rw [hthread]; rfl)
      refine ⟨?_, by rw [hthread]; rfl, .cons ?_ hstep (.nil _)⟩
      · rw [takenBy_cons hstep, if_pos rfl]
        simp [takes, hn, exec, takenBy]
      · rintro ⟨-, l, ⟨-, hex⟩, hmis⟩
        cases hn.symm.trans hex
        cases hmis

/-- **Run lemma.** A call in its loop returns the bytes it has read and those it reads on the way, and
    their number unless it miscounts them. -/
theorem returns_of_loop {as : List Action} (h : GuardedRun step (InCall p rest) m as m')
    (hend : (m'.threads p).sys = rest) {pipe : Addr} {done : List UInt8} (hi : i.IsTurn pipe done)
    (hat : ReadsAt p rest m i) : ∃ more ret, m.takenBy p as = more.map (Prod.mk pipe) ∧
      (m'.threads p).regs = { rax := ret, buf := done ++ more } ∧
      ((0 ≤ ret → ret = (done ++ more).length) ↔
        GuardedRun step (fun m a => ¬ m.Miscounts p a) m as m') := by
  induction h generalizing i done with
  | nil m => exact absurd hend hat.length_lt
  | @cons m m1 t a as hg hs hrun ih =>
    rcases hat.step hs hg.2 with ⟨hat', htakes, hmis⟩ | ⟨rfl, hsys⟩
    · obtain ⟨more, ret, htaken, hregs, hcount⟩ := ih hend hi hat'
      refine ⟨more, ret, ?_, hregs, ?_⟩
      · rw [takenBy_cons hs, htakes, htaken]
        rfl
      · rw [hcount, GuardedRun.cons_iff hs, and_iff_right hmis]
    · have hstep := hs
      obtain ⟨⟨rfl, hn⟩, rfl⟩ := step_of_sys hsys hs
      have hplain : i ≠ .int20 ∧ i.creates = false := by
        obtain ⟨bytes, rfl | rfl⟩ := hi <;> exact ⟨by simp, rfl⟩
      have hmis : m.Miscounts m.cpu .exec ↔ i.miscounts m.k := by
        refine ⟨?_, fun h => ⟨rfl, i, ⟨rfl, hn⟩, h⟩⟩
        rintro ⟨-, l, ⟨-, hex⟩, h⟩
        cases hn.symm.trans hex
        exact h
      rw [takenBy_cons hstep, if_pos rfl]
      simp only [takes, hn, Option.elim]
      -- what the turn reads is at the front of what the rest of the call reads
      cases exec_turn m.k m.thread.regs hi with
      | goesOn locks j more hcode hj hlocks htaken hfine =>
        have hat' := ReadsAt.of_execInstr hsys hplain.1 hplain.2 hcode hlocks
        obtain ⟨more', ret, htaken', hregs, hcount⟩ := ih hend hj hat'
        refine ⟨more ++ more', ret, ?_, ?_, ?_⟩
        · rw [htaken, htaken', List.map_append]
        · rw [hregs, List.append_assoc]
        · rw [← List.append_assoc, hcount, GuardedRun.cons_iff hstep, hmis, and_iff_right hfine]
      | ends locks ret hcode hlocks htaken hcounts =>
        have hat' := ReadsAt.of_execInstr hsys hplain.1 hplain.2 hcode hlocks
        obtain ⟨htaken', hregs, hall⟩ := returns_of_readReturn hrun hend hat'
        refine ⟨[], ret, ?_, ?_, ?_⟩
        · rw [htaken, htaken']
          rfl
        · rw [hregs, List.append_nil]
        · rw [List.append_nil, hcounts, GuardedRun.cons_iff hstep, hmis, and_iff_left hall]

end Machine

/-- A call of `read_pipe` by `p` on pipe `id`, from `m` to `m'`, accounts for the value `n` it returned:
    it has taken `n` bytes out of that pipe and stored them in this order. -/
structure ReadAccounts (p : Addr) (id : Nat) (m : Machine) (as : List Action) (m' : Machine) (n : Nat) :
    Prop where
  removed : (m.takenBy p as).length = n
  stored : (m'.threads p).regs.buf.take n = (m.takenBy p as).map Prod.snd
  pipe : ∀ x ∈ m.takenBy p as, pipeOf m.k id = some x.1

/-- **What `read_pipe` returns.** A call, with any other processes running in between, accounts for
    what it returns, unless it comes to a line that makes it miscount. -/
theorem read_pipe_accounts {m m' : Machine} {id bytes : Nat} {rest : List Instr} {as : List Action}
    (hcall : (m.threads m.cpu).sys = .readPipe id bytes :: rest)
    (hrun : GuardedRun Machine.step (Machine.InCall m.cpu rest) m as m')
    (hret : (m'.threads m.cpu).sys = rest) :
    (∀ n : Nat, (m'.threads m.cpu).regs.rax = n → ReadAccounts m.cpu id m as m' n) ↔
      GuardedRun Machine.step (fun m1 a => ¬ m1.Miscounts m.cpu a) m as m' := by
  cases hrun with
  | nil =>
    have hlen := congrArg List.length (hcall.symm.trans hret)
    simp at hlen
  | @cons _ m1 _ a as hg hs hrest =>
    have hstep := hs
    obtain ⟨⟨rfl, hn⟩, rfl⟩ := Machine.step_of_sys hcall hs
    obtain ⟨hcpu, hthread⟩ := Machine.execInstr_thread hcall (i := .readPipe id bytes) (by simp)
      (exec_spawn_none _ _ rfl)
    rw [Machine.thread, hcpu] at hthread
    have hfirst : ¬ m.Miscounts m.cpu .exec := by
      rintro ⟨-, i, ⟨-, hex⟩, hmis⟩
      cases hn.symm.trans hex
      cases hmis
    have htaken : ∀ as, m.takenBy m.cpu (.exec :: as) =
        (m.execInstr (.readPipe id bytes)).takenBy m.cpu as := by
      intro as
      have hnone : (exec m.k m.thread.regs (.readPipe id bytes)).events = [] := by
        simp only [exec]
        split
        · rfl
        · split <;> rfl
      rw [Machine.takenBy_cons hstep, if_pos rfl, Machine.takes, hn, Option.elim, hnone]
      rfl
    rw [GuardedRun.cons_iff hstep, and_iff_right hfirst]
    -- an empty request or an unknown pipe: the call returns before its loop, with nothing taken
    have hearly : ∀ ret : Int, ret ≤ 0 →
        exec m.k m.thread.regs (.readPipe id bytes) = { k := m.k, r := { m.thread.regs with rax := ret } } →
        ((∀ n : Nat, (m'.threads m.cpu).regs.rax = n →
            ReadAccounts m.cpu id m (.exec :: as) m' n) ↔
          GuardedRun Machine.step (fun m1 a => ¬ m1.Miscounts m.cpu a)
            (m.execInstr (.readPipe id bytes)) as m') := by
      intro ret hle hexec
      rw [hexec] at hthread
      obtain ⟨rfl, rfl⟩ := Machine.InCall.over hrest (by rw [hthread]; rfl)
      refine ⟨fun _ => .nil _, fun _ n hn => ?_⟩
      have hn0 : n = 0 := by
        rw [hthread] at hn
        change ret = n at hn
        omega
      subst hn0
      have hnil : m.takenBy m.cpu [.exec] = [] := htaken []
      refine ⟨?_, ?_, ?_⟩ <;> rw [hnil]
      · rfl
      · exact List.take_zero
      · exact fun x hx => absurd hx List.not_mem_nil
    by_cases hzero : bytes = 0
    · exact hearly 0 (Int.le_refl 0) (by simp only [exec, if_pos hzero])
    cases hpipe : pipeOf m.k id with
    | none => exact hearly (-1) (by decide) (by simp only [exec, if_neg hzero, hpipe])
    | some pipe =>
      have hcode : (exec m.k m.thread.regs (.readPipe id bytes)).code =
          [] ++ [.readLoop pipe bytes []] := by
        simp only [exec, if_neg hzero, hpipe, List.nil_append]
      have hat := Machine.ReadsAt.of_execInstr hcall (by simp) rfl hcode (by simp)
      -- from here on the loop lemma says what was taken, whatever ran in between
      obtain ⟨more, ret, htake, hregs, hcount⟩ :=
        Machine.returns_of_loop hrest hret ⟨bytes, .inl rfl⟩ hat
      rw [List.nil_append] at hregs hcount
      rw [← hcount]
      constructor
      · intro hall hle
        have hremoved := (hall ret.toNat (by rw [hregs]; exact (Int.toNat_of_nonneg hle).symm)).removed
        rw [htaken as, htake, List.length_map] at hremoved
        omega
      · intro hall n hn
        rw [hregs] at hn
        change ret = n at hn
        have hlen := hall (by omega)
        have hn' : n = more.length := by omega
        subst hn'
        constructor
        · rw [htaken as, htake, List.length_map]
        · rw [htaken as, htake, hregs, List.take_length, List.map_map]
          exact (List.map_id more).symm
        · rw [htaken as, htake]
          intro x hx
          obtain ⟨b, -, rfl⟩ := List.mem_map.mp hx
          exact hpipe
/-! ## End of file in the middle of a call -/

instance (p : Addr) (m : Machine) (a : Action) : Decidable (m.Miscounts p a) :=
  decidable_of_iff (m.cpu = p ∧ (m.executed a).any (fun i => i.miscounts m.k) = true) (by
    simp only [Machine.Miscounts, Machine.executes_iff, Option.any_eq_true])

/-- The call of `read_pipe` the processor is at, if the handler does nothing after it. -/
def Machine.readCall (m : Machine) : Option (Nat × Nat) :=
  match (m.threads m.cpu).sys with
  | [.readPipe id bytes] => some (id, bytes)
  | _ => none

theorem Machine.sys_of_readCall {m : Machine} {id bytes : Nat} (h : m.readCall = some (id, bytes)) :
    (m.threads m.cpu).sys = [.readPipe id bytes] := by
  unfold readCall at h
  split at h
  · next hsys =>
    cases h
    exact hsys
  · cases h

/-- The shell opens a pipe and attaches it to its descriptors 0 and 1. -/
def shellAttached : List Action :=
  startShell ++
  .syscall .openPipe :: List.replicate 2 .exec ++
  .syscall (.setFdTargets 3 3 2) :: List.replicate 49 .exec

/-- A child inherits the pipe, and asks for two bytes of it. -/
def childAsks : List Action :=
  shellAttached ++
  .syscall (.processCreate 0 0 false (KERNEL_BASE * 4)) :: List.replicate 45 .exec ++
  List.replicate 4 .tick ++
  [.exec, .syscall (.read 0 2), .exec]

/-- The child waits, the shell writes two bytes, and the child goes on. -/
def shellAnswers : List Action :=
  List.replicate 20 .exec ++
  .syscall (.write 1 [65, 66]) :: List.replicate 28 .exec ++
  List.replicate 4 .tick ++ List.replicate 41 .exec

set_option maxRecDepth 100000 in
/-- The child has waited for two bytes, and is given both. -/
theorem read_pipe_accounts_child : ∃ m m' : Machine,
    Reaches freshBlocks childAsks m ∧ m.readCall = some (3, 2) ∧
      (m'.threads m.cpu).regs.rax = (2 : Nat) ∧ ReadAccounts m.cpu 3 m shellAnswers m' 2 := by
  obtain ⟨x, hx, hfacts⟩ := (Option.any_eq_true (fun x : Machine × Machine =>
    decide (x.1.readCall = some (3, 2)) && (x.2.threads x.1.cpu).sys.isEmpty &&
      decide ((x.2.threads x.1.cpu).regs.rax = (2 : Nat)))
    (callRun freshBlocks (fun p m a => Machine.InCall p [] m a ∧ ¬ m.Miscounts p a) childAsks shellAnswers)).mp
      (by decide +kernel)
  simp only [Bool.and_eq_true, decide_eq_true_eq, List.isEmpty_iff] at hfacts
  obtain ⟨⟨hcall, hret⟩, hrax⟩ := hfacts
  obtain ⟨hreach, hrun⟩ := callRun_eq_some hx
  have haccounts := read_pipe_accounts (Machine.sys_of_readCall hcall) (hrun.mono fun _ _ h => h.1) hret
  exact ⟨x.1, x.2, hreach, hcall, hrax, haccounts.mpr (hrun.mono fun _ _ h => h.2) 2 hrax⟩

/-- The shell writes a byte into the pipe, gives up descriptor 1 and asks for two bytes. -/
def shellReads : List Action :=
  shellAttached ++
  .syscall (.write 1 [65]) :: List.replicate 16 .exec ++
  .syscall (.setFdTargets 3 1 2) :: List.replicate 26 .exec ++
  [.syscall (.read 0 2), .exec]

set_option maxRecDepth 100000 in
/-- The call takes the byte, finds end of file and returns 0. -/
theorem read_pipe_loses_byte : ¬ ∀ (memAnswers : Nat → Option Addr) (before : List Action) (m m' : Machine)
    (id bytes : Nat) (rest : List Instr) (as : List Action) (n : Nat), Reaches memAnswers before m →
    (m.threads m.cpu).sys = .readPipe id bytes :: rest →
    GuardedRun Machine.step (Machine.InCall m.cpu rest) m as m' → (m'.threads m.cpu).sys = rest →
    (m'.threads m.cpu).regs.rax = n → ReadAccounts m.cpu id m as m' n := by
  intro hall
  obtain ⟨x, hx, hfacts⟩ := (Option.any_eq_true (fun x : Machine × Machine =>
    decide (x.1.readCall = some (3, 2)) && (x.2.threads x.1.cpu).sys.isEmpty &&
      decide ((x.2.threads x.1.cpu).regs.rax = (0 : Nat)) &&
      decide ((x.1.takenBy x.1.cpu (List.replicate 23 .exec)).length = 1))
    (callRun freshBlocks (fun p m a => Machine.InCall p [] m a) shellReads (List.replicate 23 .exec))).mp
      (by decide +kernel)
  simp only [Bool.and_eq_true, decide_eq_true_eq, List.isEmpty_iff] at hfacts
  obtain ⟨⟨⟨hcall, hret⟩, hrax⟩, htaken⟩ := hfacts
  obtain ⟨hreach, hrun⟩ := callRun_eq_some hx
  have haccounts := hall _ _ _ _ _ _ _ _ _ hreach (Machine.sys_of_readCall hcall) hrun hret hrax
  have hremoved := haccounts.removed
  omega

end TpSo
