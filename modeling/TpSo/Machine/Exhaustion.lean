import TpSo.Scheduler.Stranded
import TpSo.Machine.Terminated
import TpSo.Scheduler.Ops

set_option autoImplicit false

/-! # Processes stranded by memory exhaustion

Four places put a process away for later: `process_unblock`, the preemption in `schedule_tick`, the
end of a creation and `sem_wait`. Each ignores the result of its `queue_push`. `keeps_iff` gives the
exact condition under which the process is still in a queue afterwards, in every state that a run
passes through, also in the middle of a step. -/

namespace TpSo

/-! ## The ready queues exist in every run -/

theorem SchedAct.Step.hasQueues {a : SchedAct} {k k' : Kernel} (h : a.Step k k')
    (hq : HasQueues k) : HasQueues k' := by
  cases a with
  | block p => exact h ▸ processBlock_hasQueues hq p
  | unblock p => exact h ▸ processUnblock_hasQueues hq p
  | exit p => exact h ▸ exitFirstHalf_hasQueues hq p
  | ready p => exact h ▸ schedulerAddReady_hasQueues hq p
  | setPriority pid priority => exact h ▸ schedulerSetProcessPriority_hasQueues hq pid priority
  | fresh p =>
      obtain ⟨-, -, -, -, -, hready, -⟩ := h
      exact hq.congr hready

theorem SameSched.hasQueues {k k' : Kernel} (h : SameSched k k') (hq : HasQueues k) :
    HasQueues k' :=
  fun i => h.exist i (hq i)

theorem SchedActs.hasQueues {k k' : Kernel} {as : List SchedAct} (h : SchedActs k as k')
    (hq : HasQueues k) : HasQueues k' := by
  induction h with
  | done hs => exact hs.hasQueues hq
  | act hs ha _ ih => exact ih (ha.hasQueues (hs.hasQueues hq))

/-- **Step lemma.** No step deletes a ready queue. -/
theorem Machine.step_hasQueues {m m' : Machine} {a : Action} (h : m.step a = some m')
    (hq : HasQueues m.k) : HasQueues m'.k := by
  have hprep := (m.prepared_acts a).hasQueues hq
  cases Machine.step_cases h with
  | stays _ hk _ => rwa [hk]
  | switched _ hk _ =>
      rw [hk]
      exact scheduleTick_hasQueues hprep m.cpu

/-- **Run lemma.** In every reachable state every level has its ready queue. -/
theorem reaches_hasQueues {memAnswers : Nat → Option Addr} {as : List Action} {m : Machine}
    (h : Reaches memAnswers as m) : HasQueues m.k := by
  refine (run_guarded h).invariant (fun m => HasQueues m.k) ?_ ?_
  · intro s a s' hq _ hs
    exact Machine.step_hasQueues hs hq
  · intro i
    simp [Boot.machine, Boot.kernel]

/-! ## The places that put a process away -/

/-- A place where a process is put into a queue. -/
inductive Enqueue
  /-- `process_unblock`, from any of its callers. -/
  | unblock (p : Addr)
  /-- The preemption in `schedule_tick`, at this interrupted stack pointer. -/
  | preempt (c : Addr) (rsp : Nat)
  /-- The end of a creation, once the process is registered and a child of its parent. -/
  | create (c : Creation) (r : Regs)
  /-- `sem_wait`. -/
  | wait (sem : Addr)

namespace Enqueue

/-- The code at that place gets as far as its `queue_push`. -/
def Applies (k : Kernel) : Enqueue → Prop
  | unblock p => (k.proc p).state = .blocked
  | preempt c _ =>
    k.current = some c ∧ k.idle ≠ some c ∧ (k.proc c).state = .running ∧
      (k.proc c).remainingQuantum = 0
  | create _ _ => True
  | wait s => (k.sem s).count = 0 ∧ ∃ c, k.current = some c ∧ (k.proc c).state ≠ .blocked

/-- The process can be found again, or it was left alone and the failure was reported. Of the four
    only `process_unblock` and `sem_wait` have a result to report it with: `schedule_tick` has none,
    and `createProcess` has already returned the process. -/
def Keeps (k : Kernel) : Enqueue → Prop
  | unblock p =>
    Queued (processUnblock k p).2 p ∨
      ((processUnblock k p).2.proc p).state = (k.proc p).state ∧ (processUnblock k p).1 = false
  | preempt c rsp => Queued (tickRunning (countTick k) rsp).2 c
  | create c r => Queued (createDone k r c.process c.use).k c.process
  | wait s =>
    ∀ c, k.current = some c → c ∈ waiters (semWaitBody k s).2.2 s ∨
      ((semWaitBody k s).2.2.proc c).state = (k.proc c).state ∧ (semWaitBody k s).1 = -1

/-- `scheduler_add_ready` finds memory for the node, or the process was queued and stays so. -/
def NodeFound (k : Kernel) (p : Addr) : Prop :=
  k.allocOk = true ∨ Queued k p ∧ ((k.proc p).state ≠ .ready ∨ k.idle = some p)

/-- The node the place needs is found: the process goes into a queue that exists. -/
def Succeeds (k : Kernel) : Enqueue → Prop
  | unblock p => NodeFound k p
  | preempt c _ => NodeFound k c
  | create c _ => NodeFound k c.process
  | wait s =>
    ∀ c, k.current = some c →
      (k.sem s).waitingProcesses ≠ none ∧ k.allocOk = true ∨ c ∈ waiters k s

end Enqueue

/-! ## One place after the other -/

theorem unblock_keeps_iff {k : Kernel} (h : HasQueues k) {p : Addr}
    (hb : (k.proc p).state = .blocked) :
    (Enqueue.unblock p).Keeps k ↔ (Enqueue.unblock p).Succeeds k := by
  have heq : processUnblock k p = (true, schedulerAddReady k p) := by
    rw [processUnblock, if_neg (not_not.mpr hb)]
  simp only [Enqueue.Keeps, Enqueue.Succeeds, Enqueue.NodeFound, heq, Bool.true_eq_false, and_false,
    or_false]
  exact queued_schedulerAddReady_iff h p

theorem preempt_keeps_iff {k : Kernel} (h : HasQueues k) {c : Addr} {rsp : Nat}
    (happ : (Enqueue.preempt c rsp).Applies k) :
    (Enqueue.preempt c rsp).Keeps k ↔ (Enqueue.preempt c rsp).Succeeds k := by
  obtain ⟨hc, hi, hs, hz⟩ := happ
  have hstate : ((saveRsp (countTick k) c rsp).proc c).state = .running := by
    rw [saveRsp_state]
    exact hs
  have hquantum : ((saveRsp (countTick k) c rsp).proc c).remainingQuantum = 0 := by
    simpa [saveRsp, Kernel.modProc, countTick] using hz
  have heq : (tickRunning (countTick k) rsp).2 = processSetRunning
      { schedulerAddReady (saveRsp (countTick k) c rsp) c with current := none } none := by
    rw [tickRunning_eq (k := countTick k) hc, if_neg fun hci => hi hci.symm,
      if_neg (not_not.mpr hstate), if_neg (by omega)]
  have hqueues : HasQueues (saveRsp (countTick k) c rsp) := h.countTick.modProc c _
  simp only [Enqueue.Keeps, Enqueue.Succeeds, heq]
  refine (queued_schedulerAddReady_iff hqueues c).trans ?_
  rw [hstate]
  unfold Enqueue.NodeFound
  rw [hs]
  exact Iff.rfl

theorem create_keeps_iff {k : Kernel} (h : HasQueues k) (c : Creation) (r : Regs) :
    (Enqueue.create c r).Keeps k ↔ (Enqueue.create c r).Succeeds k := by
  have hready := queued_schedulerAddReady_iff h c.process
  simp only [Enqueue.Keeps, Enqueue.Succeeds]
  cases c.use with
  | syscall => exact hready
  | firstShell => exact hready
  | respawn => exact Iff.trans Iff.rfl hready

/-- Where the current process ends up when `sem_wait` finds no token. -/
theorem mem_waiters_semWaitBody {k : Kernel} {s c : Addr} (hcount : (k.sem s).count = 0)
    (hc : k.current = some c) : c ∈ waiters (semWaitBody k s).2.2 s ↔
      (k.sem s).waitingProcesses ≠ none ∧ k.allocOk = true ∨ c ∈ waiters k s := by
  have hsem : ((semWaitBody k s).2.2.sem s).waitingProcesses =
      (queuePush k (k.sem s).waitingProcesses c).2.1 := by
    have hblock := congrArg Kernel.sem (processBlock_outside (enqueueWaiter k s c) c)
    simp only [Kernel.outside] at hblock
    have hnot : ¬ (k.sem s).count > 0 := by omega
    simp only [semWaitBody, if_neg hnot, hc, semUnlock, Kernel.modSem, Function.update_self, hblock]
    simp only [enqueueWaiter, Kernel.modSem, Function.update_self]
  unfold waiters
  rw [hsem]
  exact mem_queuePush_iff

theorem wait_keeps_iff {k : Kernel} {s : Addr} (happ : (Enqueue.wait s).Applies k) :
    (Enqueue.wait s).Keeps k ↔ (Enqueue.wait s).Succeeds k := by
  obtain ⟨hcount, c, hc, -⟩ := happ
  have hret : (semWaitBody k s).1 = 0 := by
    simp [semWaitBody, hcount, hc]
  simp only [Enqueue.Keeps, Enqueue.Succeeds, hc, Option.some.injEq, forall_eq', hret]
  rw [mem_waiters_semWaitBody hcount hc]
  simp

/-! ## All of them, in every run -/

/-- **Nobody is stranded exactly when the node is found.** Take any state a run passes through, also
    in the middle of a step (`k` comes from the reached `m.k` by scheduler operations), and any place
    that puts a process away there. -/
theorem keeps_iff {memAnswers : Nat → Option Addr} {as : List Action} {m : Machine}
    (hm : Reaches memAnswers as m) {ops : List SchedAct} {k : Kernel} (hk : SchedActs m.k ops k)
    (e : Enqueue) (happ : e.Applies k) : e.Keeps k ↔ e.Succeeds k := by
  have hqueues : HasQueues k := hk.hasQueues (reaches_hasQueues hm)
  cases e with
  | unblock p => exact unblock_keeps_iff hqueues happ
  | preempt c rsp => exact preempt_keeps_iff hqueues happ
  | create c r => exact create_keeps_iff hqueues c r
  | wait s => exact wait_keeps_iff happ

/-- A run of ticks from boot keeps everyone placed. -/
theorem reaches_ticks_placed {memAnswers : Nat → Option Addr} {as : List Action} {m : Machine}
    (h : Reaches memAnswers as m) (hticks : ∀ a ∈ as, a = .tick) : Placed m.k := by
  have hstep : ∀ {s s' : Machine}, s.step .tick = some s' → Placed s.k → Placed s'.k := by
    intro s s' hs hpl
    obtain ⟨-, rfl⟩ := Machine.step_tick hs
    refine scheduleTick_placed ((timerHandler_acts s.k).placed hpl fun p hp => ?_) _
    obtain ⟨e, he, q, hwake, hq, hf⟩ := mem_sleeperActs hp
    cases hf
  have hrun : ∀ (as : List Action) (s : Machine), (∀ a ∈ as, a = .tick) → Placed s.k →
      s.run as = some m → Placed m.k := by
    intro as
    induction as with
    | nil =>
        intro s _ hpl hs
        cases hs
        exact hpl
    | cons a rest ih =>
        intro s hall hpl hs
        obtain ⟨s1, h1, hrest⟩ := Option.bind_eq_some_iff.mp hs
        rw [hall a List.mem_cons_self] at h1
        exact ih s1 (fun b hb => hall b (.tail _ hb)) (hstep h1 hpl) hrest
  exact hrun as _ hticks (SchedInv.boot memAnswers).placed h

/-- `init` after its first quantum. -/
theorem keeps_iff_boot : ∃ k, (Enqueue.preempt Boot.init 7).Applies k ∧
    ((Enqueue.preempt Boot.init 7).Keeps k ↔ (Enqueue.preempt Boot.init 7).Succeeds k) := by
  obtain ⟨m, hm⟩ : ∃ m, Reaches (fun _ => some 0) [.tick, .tick, .tick, .tick] m := ⟨_, rfl⟩
  have happ : (Enqueue.preempt Boot.init 7).Applies m.k := by
    cases hm
    exact ⟨by decide +kernel, by decide +kernel, by decide +kernel, by decide +kernel⟩
  exact ⟨m.k, happ, keeps_iff hm (.done (.refl m.k)) _ happ⟩

/-- No memory is left: preempting `init` leaves it `READY` in no queue. -/
theorem init_stranded :
    ¬ ∀ (memAnswers : Nat → Option Addr) (as : List Action) (m : Machine),
      Reaches memAnswers as m → ∀ (ops : List SchedAct) (k : Kernel), SchedActs m.k ops k →
        ∀ e : Enqueue, e.Applies k → e.Keeps k := by
  intro h
  obtain ⟨m, hm⟩ : ∃ m, Reaches (fun _ => none) [.tick, .tick, .tick, .tick] m := ⟨_, rfl⟩
  have happ : (Enqueue.preempt Boot.init 7).Applies m.k := by
    cases hm
    exact ⟨by decide +kernel, by decide +kernel, by decide +kernel, by decide +kernel⟩
  have hkeep := h _ _ m hm [] m.k (.done (.refl m.k)) (.preempt Boot.init 7) happ
  rw [preempt_keeps_iff (reaches_hasQueues hm) happ] at hkeep
  obtain hok | ⟨⟨i, hi⟩, -⟩ := hkeep
  · cases hm
    exact absurd hok (by decide +kernel)
  · have hpl : Placed m.k := reaches_ticks_placed hm (by simp)
    exact hpl.not_mem happ.2.1 (by rw [happ.2.2.1]; decide) i hi

end TpSo
