import TpSo.Machine.Seats
import TpSo.Machine.Table
import TpSo.Machine.Terminated
import TpSo.Sem.Waiters

set_option autoImplicit false

/-! # Dangling waiters

The clean-up of a killed process looks for its pid, not its pointer, in the waiting queues, and only
in those of two pipe semaphores. So a process that is killed while it waits stays in the queue, and
dangles once it is reaped. No other way leads to a dangling waiter. -/

namespace TpSo

/-- Every waiter of every semaphore is a registered process. -/
def NoDanglingWaiters (k : Kernel) : Prop := ∀ s p, p ∈ waiters k s → Registered k p

/-- Nobody is ended while he waits, and only processes that have ended are reaped. -/
structure KillsNoWaiter (m : Machine) (a : Action) : Prop where
  /-- `process_exit` is run on a process that is in no waiting queue. -/
  killed : ∀ p, m.Executes a (.processExit p) → ∀ s, p ∉ waiters m.k s
  /-- A reap takes a process out of the table that has ended, and is neither current nor idle. -/
  reaped : ∀ i p, m.Executes a i → Unregisters m.k i p →
    (m.k.proc p).state = .terminated ∧ m.k.current ≠ some p ∧ m.k.idle ≠ some p
  /-- The end of a creation comes to a process that is registered still. -/
  created : ∀ c, m.Executes a (.createDone c) → Registered m.k c.process
  /-- A process object is not made over one in a ready queue. -/
  rebuilt : ∀ p, .fresh p ∈ m.stepActs a → ¬ Queued m.k p

/-! ## Who can come to wait -/

/-- Every process the kernel may let run is registered, and so is every waiter. -/
structure AllRegistered (k : Kernel) : Prop where
  waiting : NoDanglingWaiters k
  queued : ∀ p, Queued k p → Registered k p
  current : ∀ p, k.current = some p → Registered k p
  idle : ∀ p, k.idle = some p → Registered k p

namespace AllRegistered

variable {k k' : Kernel}

/-- Unblocked processes are registered: they come from a waiting queue or from the table. -/
theorem unblocked (h : AllRegistered k) {i : Instr} {p : Addr} (hm : .unblock p ∈ schedActs k i) :
    Registered k p := by
  cases mem_schedActs hm with
  | post hp => exact h.waiting _ p (List.mem_of_find?_eq_some hp)
  | exitPost _ hp => exact h.waiting _ p (List.mem_of_find?_eq_some hp)
  | destroy hp => exact h.waiting _ p hp
  | sysUnblock hp => exact ⟨_, hp⟩

/-- A process in a ready queue comes from there, from the table, or from the end of its creation. -/
theorem exec_queued (h : AllRegistered k) {r : Regs} {i : Instr} {p : Addr}
    (hcreated : ∀ c, i = .createDone c → Registered k c.process) (hq : Queued (exec k r i).k p) :
    Registered k p := by
  rcases (exec_acts k r i).queued hq with hq | hm | hm | ⟨pid, n, hm⟩
  · exact h.queued p hq
  · cases mem_schedActs hm with
    | done => exact hcreated _ rfl
  · exact h.unblocked hm
  · cases mem_schedActs hm with
    | sysPriority =>
        rcases (schedulerSetProcessPriority_between k pid n).1.queued p hq with hq | ⟨hp, -⟩
        · exact h.queued p hq
        · exact ⟨pid, hp⟩

/-- The instruction keeps a process registered unless it is reaped, and then it is nowhere. -/
theorem exec (h : AllRegistered k) (r : Regs) {i : Instr}
    (hcreated : ∀ c, i = .createDone c → Registered k c.process)
    (hg : ∀ p, Unregisters k i p →
      (∀ s, p ∉ waiters k s) ∧ ¬ Queued k p ∧ k.current ≠ some p ∧ k.idle ≠ some p) :
    AllRegistered (TpSo.exec k r i).k := by
  have hacts := exec_acts k r i
  refine ⟨?_, ?_, ?_, ?_⟩
  · intro s p hp
    have hreg : Registered k p := by
      rcases exec_waiters hp with hp | ⟨-, -, hc⟩
      · exact h.waiting s p hp
      · exact h.current p hc
    rcases exec_registered (r := r) hreg with hreg | hun
    · exact hreg
    · -- a reap adds nobody to a waiting queue
      obtain ⟨c, rfl, -⟩ := id hun
      rcases exec_waiters hp with hp | ⟨hw, -, -⟩
      · exact absurd hp ((hg p hun).1 s)
      · cases hw
  · intro p hq
    rcases exec_registered (r := r) (h.exec_queued hcreated hq) with hreg | hun
    · exact hreg
    · obtain ⟨c, rfl, -⟩ := id hun
      have hold : Queued k p := by
        rcases hacts.queued hq with hq | hm | hm | ⟨pid, n, hm⟩
        · exact hq
        all_goals exact absurd hm List.not_mem_nil
      exact absurd hold (hg p hun).2.1
  · intro p hc
    rw [hacts.current] at hc
    rcases exec_registered (r := r) (h.current p hc) with hreg | hun
    · exact hreg
    · exact absurd hc (hg p hun).2.2.1
  · intro p hi
    rw [hacts.idle] at hi
    rcases exec_registered (r := r) (h.idle p hi) with hreg | hun
    · exact hreg
    · exact absurd hi (hg p hun).2.2.2

/-- A switch chooses among the processes the kernel may let run. -/
theorem scheduleTick (h : AllRegistered k) (rsp : Nat) : AllRegistered (TpSo.scheduleTick k rsp).2 := by
  have hout := scheduleTick_outside k rsp
  have hreg : ∀ p, Registered (TpSo.scheduleTick k rsp).2 p ↔ Registered k p := fun p =>
    Registered.congr (processes_of_outside hout)
  have hleft : ∀ p, Queued k p ∨ k.current = some p ∧ k.idle ≠ some p ∧ (k.proc p).state = .running →
      Registered k p := fun p hp => hp.elim (h.queued p) fun hp => h.current p hp.1
  refine ⟨?_, ?_, ?_, ?_⟩
  · intro s p hp
    rw [hreg]
    unfold waiters at hp
    rw [sem_of_outside hout] at hp
    exact h.waiting s p hp
  · intro p hq
    rw [hreg]
    cases scheduleTick_cases k rsp with
    | keep c _ _ _ _ _ queued => exact h.queued p (queued p hq)
    | dispatch n _ _ _ _ _ _ _ queued => exact hleft p (queued p hq)
    | idle d _ _ _ _ _ _ queued => exact hleft p (queued p hq)
    | nobody _ _ _ _ _ queued => exact hleft p (queued p hq)
  · intro p hc
    rw [hreg]
    cases scheduleTick_cases k rsp with
    | keep c keeps _ current _ _ _ =>
        cases current.symm.trans hc
        exact h.current p keeps.1
    | dispatch n _ ready _ _ current _ _ _ =>
        cases current.symm.trans hc
        exact ready.elim (fun hr => h.queued p hr.1) fun hr => h.current p hr.1
    | idle d isIdle _ _ current _ _ _ =>
        cases current.symm.trans hc
        exact h.idle p isIdle
    | nobody _ _ current _ _ _ => exact absurd (current.symm.trans hc) (by simp)
  · intro p hi
    rw [hreg]
    exact h.idle p ((idle_of_outside hout).symm.trans hi)

/-- The timer handler unblocks registered processes only. -/
theorem timerHandler (h : AllRegistered k) : AllRegistered (TpSo.timerHandler k) := by
  have hacts := timerHandler_acts k
  have hreg : ∀ p, Registered (TpSo.timerHandler k) p ↔ Registered k p := fun p =>
    Registered.congr (timerHandler_processes k)
  refine ⟨?_, ?_, ?_, ?_⟩
  · intro s p hp
    rw [hreg]
    unfold waiters at hp
    rw [(timerHandler_objects k).sem] at hp
    exact h.waiting s p hp
  · intro p hq
    rw [hreg]
    rcases hacts.queued hq with hq | hm | hm | ⟨pid, n, hm⟩
    · exact h.queued p hq
    · obtain ⟨e, he, q, hwake, hpid, hp⟩ := mem_sleeperActs hm
      cases hp
    · obtain ⟨e, he, q, hwake, hpid, hp⟩ := mem_sleeperActs hm
      cases hp
      exact ⟨e.pid, hpid⟩
    · obtain ⟨e, he, q, hwake, hpid, hp⟩ := mem_sleeperActs hm
      cases hp
  · intro p hc
    rw [hreg]
    exact h.current p (hacts.current ▸ hc)
  · intro p hi
    rw [hreg]
    exact h.idle p (hacts.idle ▸ hi)

end AllRegistered

/-! ## Who has ended -/

/-- Nobody comes into a waiting queue but by a `sem_wait` of his own. -/
theorem step_waiters {m m' : Machine} {a : Action} (hs : m.step a = some m') {s p : Addr}
    (h : p ∈ waiters m'.k s) : p ∈ waiters m.k s ∨ ∃ i, m.Executes a i ∧ WaitsOn m.k i s p := by
  by_cases hexec : ∃ i, m.Executes a i ∧ i ≠ .int20
  · obtain ⟨i, ⟨rfl, hn⟩, hi⟩ := hexec
    obtain ⟨j, hj, -, rfl⟩ := Machine.step_exec hs
    cases hn.symm.trans hj
    rw [m.execInstr_k hi] at h
    exact (exec_waiters h).imp_right fun hw => ⟨i, ⟨rfl, hn⟩, hw⟩
  · have hother : ∀ i, m.Executes a i → i = .int20 := fun i hi => by
      by_contra hne
      exact hexec ⟨i, hi, hne⟩
    unfold waiters at h
    rw [(Machine.step_other hs hother).1.sem] at h
    exact .inl h

/-- Every process that the kernel may let run or wake is registered, and whoever has ended waits for
    nothing. -/
structure Settled (m : Machine) : Prop where
  registered : AllRegistered m.k
  placed : Placed m.k
  ended : ∀ p, (m.k.proc p).state = .terminated → ∀ s, p ∉ waiters m.k s

namespace Settled

variable {m m' : Machine} {a : Action}

/-- A process that is reaped is nowhere else. -/
theorem unused (h : Settled m) (hg : KillsNoWaiter m a) {i : Instr} {p : Addr} (hex : m.Executes a i)
    (hun : Unregisters m.k i p) :
    (∀ s, p ∉ waiters m.k s) ∧ ¬ Queued m.k p ∧ m.k.current ≠ some p ∧ m.k.idle ≠ some p := by
  obtain ⟨hended, hcur, hidle⟩ := hg.reaped i p hex hun
  refine ⟨h.ended p hended, ?_, hcur, hidle⟩
  rintro ⟨level, hentry⟩
  exact h.placed.not_mem hidle (by rw [hended]; decide) level hentry

/-- Nobody who has ended comes into a waiting queue: `process_block` makes him `BLOCKED`. -/
theorem step_ended (h : Settled m) (hg : KillsNoWaiter m a) (hs : m.step a = some m') {p : Addr}
    (hended : (m'.k.proc p).state = .terminated) (s : Addr) : p ∉ waiters m'.k s := by
  intro hp
  rcases step_waiters hs hp with hp | ⟨i, ⟨rfl, hn⟩, rfl, hcount, hc⟩
  · rcases Machine.terminated_before hs hended with hbefore | hex
    · exact h.ended p hbefore s hp
    · exact hg.killed p hex s hp
  · obtain ⟨j, hj, -, rfl⟩ := Machine.step_exec hs
    cases hn.symm.trans hj
    rw [m.execInstr_k (by simp), semWait_blocked m.thread.regs hcount hc] at hended
    cases hended

/-- **Step lemma.** -/
theorem step (h : Settled m) (hg : KillsNoWaiter m a) (hs : m.step a = some m') : Settled m' := by
  refine ⟨?_, ?_, fun p hp s => h.step_ended hg hs hp s⟩
  · cases a with
    | exec =>
        obtain ⟨i, hn, -, rfl⟩ := Machine.step_exec hs
        by_cases hi : i = .int20
        · subst hi
          exact h.registered.scheduleTick _
        · rw [m.execInstr_k hi]
          exact h.registered.exec _ (fun c hc => hg.created c ⟨rfl, hc ▸ hn⟩) fun p hp =>
            h.unused hg ⟨rfl, hn⟩ hp
    | syscall c =>
        obtain ⟨-, -, -, rfl⟩ := Machine.step_syscall hs
        exact h.registered
    | ret =>
        obtain ⟨-, -, rfl⟩ := Machine.step_ret hs
        exact h.registered
    | exception =>
        obtain ⟨-, -, rfl⟩ := Machine.step_exception hs
        exact h.registered
    | tick =>
        obtain ⟨-, rfl⟩ := Machine.step_tick hs
        exact h.registered.timerHandler.scheduleTick _
    | key e =>
        obtain ⟨-, rfl⟩ := Machine.step_key hs
        exact h.registered
  · exact h.placed.step hg.rebuilt hs

end Settled

/-! ## Runs -/

theorem waiters_boot (memAnswers : Nat → Option Addr) (s : Addr) :
    waiters (Boot.kernel memAnswers) s = [] := by
  have hlookup : ∀ sems : List (Addr × Sem), (∀ x ∈ sems, x.2.waitingProcesses = some []) →
      ((sems.lookup s).getD {}).waitingProcesses.getD [] = [] := by
    intro sems
    induction sems with
    | nil => exact fun _ => rfl
    | cons x rest ih =>
        intro hall
        rw [List.lookup_cons]
        split
        · rw [Option.getD_some, hall x List.mem_cons_self]
          rfl
        · exact ih fun y hy => hall y (.tail _ hy)
  exact hlookup Boot.sems (by decide)

theorem AllRegistered.boot (memAnswers : Nat → Option Addr) :
    AllRegistered (Boot.kernel memAnswers) where
  waiting s p hp := absurd (waiters_boot memAnswers s ▸ hp) List.not_mem_nil
  queued p := by
    rintro ⟨i, hi⟩
    rw [entries_boot] at hi
    split at hi
    · cases List.mem_singleton.mp hi
      exact ⟨2, rfl⟩
    · exact absurd hi List.not_mem_nil
  current p hp := absurd hp (by simp [Boot.kernel])
  idle p hp := by
    cases hp
    exact ⟨1, rfl⟩

theorem Settled.boot (memAnswers : Nat → Option Addr) : Settled (Boot.machine memAnswers) where
  registered := .boot memAnswers
  placed := (SchedInv.boot memAnswers).placed
  ended _ _ s hp := absurd (waiters_boot memAnswers s ▸ hp) List.not_mem_nil

/-- **No waiter dangles** in any run in which nobody is ended while he waits, and only processes are reaped
    that have ended. -/
theorem no_dangling_waiters {memAnswers : Nat → Option Addr} {as : List Action} {m : Machine}
    (hrun : GuardedRun Machine.step KillsNoWaiter (Boot.machine memAnswers) as m) :
    NoDanglingWaiters m.k :=
  (hrun.invariant Settled (fun _ _ _ h hg hs => h.step hg hs) (.boot memAnswers)).registered.waiting

/-! ## A waiter that dangles -/

/-- The shell opens a semaphore without tokens and creates a child, which waits for it. The shell
    kills the child and reaps it. -/
def killWaiter : List Action :=
  startShell ++
  .syscall (.semOpen ['s'] 0 true) :: List.replicate 2 .exec ++
  .syscall (.processCreate 0 0 false (KERNEL_BASE * 4)) :: List.replicate 45 .exec ++
  List.replicate 4 .tick ++
  .exec :: .syscall (.semWait (KERNEL_BASE + 114)) :: List.replicate 11 .exec ++
  .syscall (.processKill 4) :: List.replicate 66 .exec ++
  .syscall (.processWaitPid 4) :: List.replicate 13 .exec

set_option maxRecDepth 100000 in
/-- The child is still in the semaphore's waiting queue, and in no slot of the process table. -/
theorem reaped_child_waits :
    ¬ ∀ (memAnswers : Nat → Option Addr) (as : List Action) (m : Machine),
      Reaches memAnswers as m → NoDanglingWaiters m.k := by
  intro h
  obtain ⟨m, hm, hfacts⟩ := (Option.any_eq_true (fun m : Machine =>
    decide (KERNEL_BASE + 118 ∈ waiters m.k (KERNEL_BASE + 114)) &&
      (List.range PROCESS_MAX_PROCESSES).all
        (fun i => decide (m.k.processes i ≠ some (KERNEL_BASE + 118))))
    ((Boot.machine freshBlocks).run killWaiter)).mp (by decide +kernel)
  simp only [Bool.and_eq_true, decide_eq_true_eq, List.all_eq_true, List.mem_range] at hfacts
  obtain ⟨hwaits, hslots⟩ := hfacts
  obtain ⟨pid, hpid⟩ := h _ _ m hm _ _ hwaits
  obtain ⟨-, hlt, hslot⟩ := processLookup_eq_some.mp hpid
  exact hslots _ hlt hslot

/-! ## A child that waits for nothing -/

/-- The child waits, and the shell goes on. It creates a second child, kills it and reaps it. -/
def killReady : List Action :=
  killWaiter.take 120 ++
  .syscall (.processCreate 0 0 false (KERNEL_BASE * 4)) :: List.replicate 45 .exec ++
  .syscall (.processKill 5) :: List.replicate 66 .exec ++
  .syscall (.processWaitPid 5) :: List.replicate 15 .exec

/-- Only `p` is ended and reaped, and it does not begin to wait. -/
def killsOnly (p : Addr) (m : Machine) (a : Action) : Bool :=
  (m.stepActs a).all (offQueue m.k) &&
    match a, m.next with
    | .exec, some (.semWaitLocked s) => decide ((m.k.sem s).count ≠ 0 ∨ m.k.current ≠ some p)
    | .exec, some (.processExit q) => decide (q = p)
    | .exec, some (.reapUnregister c) =>
      decide (processLookup m.k (m.k.proc c).pid = some p ∧ (m.k.proc p).state = .terminated ∧
        m.k.current ≠ some p ∧ m.k.idle ≠ some p)
    | .exec, some (.createDone c) =>
      decide (processLookup m.k (m.k.proc c.process).pid = some c.process)
    | _, _ => true

theorem killsNoWaiter_of_killsOnly {p : Addr} {m : Machine} {a : Action} (h : killsOnly p m a = true)
    (hpl : Placed m.k) (hp : ∀ s, p ∉ waiters m.k s) : KillsNoWaiter m a := by
  simp only [killsOnly, Bool.and_eq_true] at h
  obtain ⟨hacts, hinstr⟩ := h
  refine ⟨fun q hex s => ?_, fun i q hex hun => ?_, fun c hex => ?_, fun q hf => ?_⟩
  · obtain ⟨rfl, hn⟩ := hex
    simp only [hn, decide_eq_true_eq] at hinstr
    exact hinstr ▸ hp s
  · obtain ⟨rfl, hn⟩ := hex
    obtain ⟨c, rfl, hlookup⟩ := hun
    simp only [hn, decide_eq_true_eq] at hinstr
    obtain ⟨hself, hrest⟩ := hinstr
    cases hself.symm.trans hlookup
    exact hrest
  · obtain ⟨rfl, hn⟩ := hex
    simp only [hn, decide_eq_true_eq] at hinstr
    exact ⟨_, hinstr⟩
  · exact hpl.not_queued_of_offQueue (List.all_eq_true.mp hacts _ hf)

/-- A run in which only `p` is ended and reaped, and does not wait, ends nobody while he waits. -/
theorem killsNoWaiter_run {p : Addr} {memAnswers : Nat → Option Addr} {as : List Action} {m : Machine}
    (h : GuardedRun Machine.step (fun m a => killsOnly p m a) (Boot.machine memAnswers) as m) :
    GuardedRun Machine.step KillsNoWaiter (Boot.machine memAnswers) as m := by
  refine h.strengthen (fun m => Settled m ∧ ∀ s, p ∉ waiters m.k s) (fun m a m' hinv hg hs => ?_)
    ⟨.boot memAnswers, fun s hp => absurd (waiters_boot memAnswers s ▸ hp) List.not_mem_nil⟩
  obtain ⟨hsettled, hp⟩ := hinv
  have hguard := killsNoWaiter_of_killsOnly hg hsettled.placed hp
  refine ⟨hguard, hsettled.step hguard hs, fun s hnow => ?_⟩
  rcases step_waiters hs hnow with hbefore | ⟨i, ⟨rfl, hn⟩, rfl, hcount, hc⟩
  · exact hp s hbefore
  · simp [killsOnly, hn, hcount, hc] at hg

set_option maxRecDepth 100000 in
/-- The second child is out of the table, and the first one still waits and is registered. -/
theorem no_dangling_waiters_child : ∃ m,
    GuardedRun Machine.step KillsNoWaiter (Boot.machine freshBlocks) killReady m ∧
      (m.k.proc (KERNEL_BASE + 138)).state = .terminated ∧ processLookup m.k 5 = none ∧
      KERNEL_BASE + 118 ∈ waiters m.k (KERNEL_BASE + 114) ∧ NoDanglingWaiters m.k := by
  obtain ⟨m, hm, hfacts⟩ := (Option.any_eq_true (fun m : Machine =>
    decide ((m.k.proc (KERNEL_BASE + 138)).state = .terminated) && decide (processLookup m.k 5 = none) &&
      decide (KERNEL_BASE + 118 ∈ waiters m.k (KERNEL_BASE + 114)))
    (GuardedRun.check Machine.step (fun m a => killsOnly (KERNEL_BASE + 138) m a) (Boot.machine freshBlocks)
      killReady)).mp (by decide +kernel)
  simp only [Bool.and_eq_true, decide_eq_true_eq] at hfacts
  obtain ⟨⟨hended, hslot⟩, hwaits⟩ := hfacts
  have hrun := killsNoWaiter_run (GuardedRun.of_check hm)
  exact ⟨m, hrun, hended, hslot, hwaits, no_dangling_waiters hrun⟩

end TpSo
