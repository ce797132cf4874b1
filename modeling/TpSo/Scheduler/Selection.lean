import TpSo.Library.Run
import TpSo.Machine.Pids
import TpSo.Machine.Spared
import TpSo.Machine.Terminated
import TpSo.Scheduler.Ops

set_option autoImplicit false

/-! # Which process a tick selects

`schedule_tick` pops one entry of each level and drops it when it is idle, with everybody behind it
left waiting. Idle gets into a ready queue in one way: `process_block` and `process_unblock` take any
pid. As long as nobody wakes a blocked idle, the popped entry is the one to run. -/

namespace TpSo

/-! ## Calls -/

/-- A system call of the process group, as far as the scheduler is concerned, or a tick. What a call
    forces with `int 0x20` is a tick of its own. -/
inductive SchedCall
  /-- `sys_process_create`, with the stack pointer `stackInit` prepares. -/
  | create (isShell : Bool) (args : CreateArgs) (rsp : Nat)
  | block (pid : Nat)
  | unblock (pid : Nat)
  /-- The state change of `process_exit`. -/
  | kill (pid : Nat)
  /-- The end of `process_wait_pid`, for a child of the current process. -/
  | reap (pid : Nat)
  | setPriority (pid priority : Nat)
  /-- `process_yield` up to its `int 0x20`. -/
  | yield
  | tick (rsp : Nat)

/-- A call that looks its process up. -/
def SchedState.onPid (s : SchedState) (pid : Nat) (f : Addr → SchedState) : SchedState :=
  match processLookup s.k pid with
  | none => s
  | some p => f p

/-- `process_unregister` and `mem_free`. Neither idle nor the caller is a child of the caller. -/
def SchedState.reap (s : SchedState) (p : Addr) : SchedState :=
  if s.k.idle = some p ∨ s.k.current = some p then s
  else { s with k := (processUnregister s.k (s.k.proc p).pid).memFree p }

/-- A call. -/
def SchedState.call (s : SchedState) : SchedCall → SchedState
  | .create isShell args rsp => s.apply (.create isShell args rsp)
  | .block pid => s.onPid pid fun p => s.apply (.block p)
  | .unblock pid => s.onPid pid fun p => s.apply (.unblock p)
  | .kill pid => s.onPid pid fun p => s.apply (.exit p)
  | .reap pid => s.onPid pid s.reap
  | .setPriority pid priority => s.apply (.setPriority pid priority)
  | .yield =>
    match s.k.current with
    | none => s
    | some c => { s with k := s.k.modProc c Process.endQuantum }
  | .tick rsp => s.apply (.tick rsp)

/-- Every call is possible in every state. -/
def SchedState.step (s : SchedState) (c : SchedCall) : Option SchedState := some (s.call c)

/-- The call does not wake a blocked idle, and does not free a process that is `READY` again. -/
def SchedState.Harmless (s : SchedState) : SchedCall → Prop
  | .unblock pid => ∀ p, processLookup s.k pid = some p → s.k.idle = some p → (s.k.proc p).state ≠ .blocked
  | .reap pid => ∀ p, processLookup s.k pid = some p → (s.k.proc p).state ≠ .ready
  | _ => True

/-! ## Selection -/

/-- The first entry of a level that is `READY` and is not idle. -/
def firstReady (k : Kernel) (i : Nat) : Option Addr :=
  (entries k i).find? (fun p => decide ((k.proc p).state = .ready ∧ k.idle ≠ some p))

/-- From the queues of `k` the process `n` was made to run, and nobody else left a queue but idle. -/
structure Selected (k k' : Kernel) (n : Addr) : Prop where
  current : k'.current = some n
  running : (k'.proc n).state = .running
  removed : ¬ Queued k' n
  others : ∀ i p, p ≠ n → k.idle ≠ some p → p ∈ entries k i → p ∈ entries k' i

/-- `schedule_tick` selects correctly in `k`. -/
structure SelectsCorrectly (k : Kernel) (rsp : Nat) : Prop where
  /-- When it switches it runs the first process of the first level that has one, after aging. -/
  selected : (tickRunning (countTick k) rsp).1 = true → ∀ i n, firstReady (beforePick k rsp) i = some n →
    (∀ j < i, firstReady (beforePick k rsp) j = none) →
      Selected (beforePick k rsp) (scheduleTick k rsp).2 n
  /-- Nobody is lost. -/
  kept : ∀ p, k.idle ≠ some p → Queued k p →
    Queued (scheduleTick k rsp).2 p ∨ (scheduleTick k rsp).2.current = some p
  /-- The interrupted process, if its quantum is used up, is back in a queue. -/
  preempted : ∀ c, k.current = some c → k.idle ≠ some c → (k.proc c).state = .running →
    (k.proc c).remainingQuantum = 0 → Queued (beforePick k rsp) c ∧
      (Queued (scheduleTick k rsp).2 c ∨ (scheduleTick k rsp).2.current = some c)
  /-- Idle comes last. -/
  idleLast : ∀ d, k.idle = some d → (scheduleTick k rsp).2.current = some d → ∀ pid p,
    processLookup (scheduleTick k rsp).2 pid = some p → p ≠ d →
      ((scheduleTick k rsp).2.proc p).state ≠ .ready

/-! ## The selection loop -/

/-- The loop passes the empty levels and takes the head of the first other one. -/
theorem pickNext_head {k : Kernel} (h : HasQueues k) {i : Nat} {n : Addr} {rest : List Addr}
    (hi : i < SCHEDULER_PRIORITY_LEVELS) (he : entries k i = n :: rest) (hr : (k.proc n).state = .ready)
    (hidle : k.idle ≠ some n) (later : List Nat) (before : List Nat) :
    (∀ j ∈ before, j < SCHEDULER_PRIORITY_LEVELS ∧ entries k j = []) →
    pickNext k (before ++ i :: later) = (some n, k.setReady i (some rest)) := by
  induction before with
  | nil =>
      intro _
      have hq := h.some_entries i
      rw [he] at hq
      have hr' : ((k.setReady i (some rest)).proc n).state = .ready := hr
      have hidle' : some n ≠ (k.setReady i (some rest)).idle := fun hn => hidle hn.symm
      rw [List.nil_append, pickNext, h.queueForPriority]
      simp only [priorityIndex_of_lt hi, hq, queuePop, hr', if_true, if_neg hidle']
  | cons j before ih =>
      intro hempty
      obtain ⟨hj, hej⟩ := hempty j List.mem_cons_self
      have hq := h.some_entries j
      rw [hej] at hq
      have hsame : k.setReady j (some []) = k := by
        unfold Kernel.setReady
        rw [← hq, Function.update_eq_self]
      rw [List.cons_append, pickNext, h.queueForPriority]
      simp only [priorityIndex_of_lt hj, hq, queuePop, hsame]
      exact ih fun j' hj' => hempty j' (.tail _ hj')

/-- Where every entry is `READY` and none is idle, the first one is the head. -/
theorem firstReady_eq_head? {k : Kernel}
    (h : ∀ p, Queued k p → (k.proc p).state = .ready ∧ k.idle ≠ some p) (i : Nat) :
    firstReady k i = (entries k i).head? := by
  cases he : entries k i with
  | nil => rw [firstReady, he, List.find?_nil, List.head?_nil]
  | cons p rest =>
      have hp := h p ⟨i, he ▸ List.mem_cons_self⟩
      rw [firstReady, he, List.find?_cons_of_pos (by simpa using hp), List.head?_cons]

theorem levels_split {i : Nat} (hi : i < SCHEDULER_PRIORITY_LEVELS) :
    ∃ later, levels = List.range i ++ i :: later := by
  obtain ⟨m, hm⟩ : ∃ m, SCHEDULER_PRIORITY_LEVELS = i + (m + 1) :=
    ⟨SCHEDULER_PRIORITY_LEVELS - i - 1, by omega⟩
  refine ⟨(List.range m).map (fun j => i + (j + 1)), ?_⟩
  rw [levels, hm, List.range_add, List.range_succ_eq_map]
  simp

/-! ## What the calls keep -/

/-- Idle is in no ready queue, and everybody else who is `READY` is in one. -/
structure QueuesReady (s : SchedState) : Prop where
  sched : SchedInv s
  lossless : Lossless s.k
  idleOut : ¬ Queued s.k Boot.idle
  ready : ∀ p, s.k.live p = some .process → p ≠ Boot.idle → (s.k.proc p).state = .ready → Queued s.k p
  pids : ∀ pid p, processLookup s.k pid = some p → (s.k.proc p).pid = pid

/-- After an operation everybody who is `READY` is in a queue, if so before. -/
theorem SchedAct.Step.ready_queued {a : SchedAct} {k k' : Kernel} {p : Addr} (h : a.Step k k')
    (hl : Lossless k) (hf : ∀ q, a ≠ .fresh q) (hq : (k.proc p).state = .ready → Queued k p)
    (hr : (k'.proc p).state = .ready) : Queued k' p := by
  by_cases hp : a.Spares p
  · have hs := (h.spared_state hp).symm.trans hr
    exact h.spared_queued hl hp hs (hq hs)
  cases a with
  | block q =>
      obtain rfl : q = p := not_not.mp hp
      cases h
      rw [(processBlock_between k q).state q, stateBut, if_pos rfl] at hr
      cases hr
  | unblock q =>
      obtain rfl : q = p := not_not.mp hp
      cases h
      unfold processUnblock at hr ⊢
      split
      · next hb =>
        rw [if_pos hb] at hr
        exact hq hr
      · exact queued_schedulerAddReady_self hl q
  | exit q =>
      obtain rfl : q = p := not_not.mp hp
      cases h
      rw [(exitFirstHalf_between k q).state q, stateBut, if_pos rfl] at hr
      cases hr
  | ready q =>
      obtain rfl : q = p := not_not.mp hp
      cases h
      exact queued_schedulerAddReady_self hl q
  | setPriority pid n => exact absurd trivial hp
  | fresh q => exact absurd rfl (hf q)

namespace QueuesReady

variable {s : SchedState}

/-- **Step lemma** for an operation. -/
theorem act (h : QueuesReady s) {a : SchedAct} {k' : Kernel} (ha : a.Step s.k k')
    (hs : SchedInv { s with k := k' }) (hout : k'.outer = s.k.outer) (hpids : SamePids s.k k')
    (hf : ∀ q, a ≠ .fresh q) (hr : a ≠ .ready Boot.idle)
    (hu : a = .unblock Boot.idle → (s.k.proc Boot.idle).state ≠ .blocked) :
    QueuesReady { s with k := k' } where
  sched := hs
  lossless := ha.lossless h.lossless
  idleOut hq := by
    rcases ha.spec.queued _ hq with hq | ha | ⟨ha, hb⟩ | ⟨pid, n, rfl, -⟩
    · exact h.idleOut hq
    · exact hr ha
    · exact hu ha hb
    · cases ha
      exact h.idleOut (queued_setPriority_idle h.sched.idle hq)
  ready p hp hne hready :=
    ha.ready_queued h.lossless hf (h.ready p (live_of_outer hout ▸ hp) hne) hready
  pids pid p hp := by
    rw [processLookup_of_outer hout] at hp
    exact (hpids p).trans (h.pids pid p hp)

/-- Operations on a process of the table. -/
theorem onPid (h : QueuesReady s) (pid : Nat) (f : Addr → SchedState)
    (hf : ∀ p, processLookup s.k pid = some p → s.k.live p = some .process → QueuesReady (f p)) :
    QueuesReady (s.onPid pid f) := by
  unfold SchedState.onPid
  split
  · exact h
  · next p hp => exact hf p hp (h.sched.tableLive pid p hp)

theorem block (h : QueuesReady s) {p : Addr} (hp : s.k.live p = some .process) :
    QueuesReady (s.apply (.block p)) := by
  have hs := h.sched.apply (.block p)
  simp only [SchedState.apply, SchedState.onProcess, if_pos hp] at hs ⊢
  have hout := processBlock_outside s.k p
  exact h.act (a := .block p) rfl hs (outer_of_outside hout) (.of_outside hout) (by simp) (by simp) (by simp)

theorem unblock (h : QueuesReady s) {p : Addr} (hp : s.k.live p = some .process)
    (hidle : p = Boot.idle → (s.k.proc p).state ≠ .blocked) : QueuesReady (s.apply (.unblock p)) := by
  have hs := h.sched.apply (.unblock p)
  simp only [SchedState.apply, SchedState.onProcess, if_pos hp] at hs ⊢
  have hout := processUnblock_outside s.k p
  refine h.act (a := .unblock p) rfl hs (outer_of_outside hout) (.of_outside hout) (by simp) (by simp) ?_
  intro he
  cases he
  exact hidle rfl

theorem exit (h : QueuesReady s) {p : Addr} (hp : s.k.live p = some .process) :
    QueuesReady (s.apply (.exit p)) := by
  have hs := h.sched.apply (.exit p)
  simp only [SchedState.apply, SchedState.onProcess, if_pos hp] at hs ⊢
  exact h.act (a := .exit p) rfl hs (exitFirstHalf_outer s.k p) (exitFirstHalf_pids s.k p) (by simp)
    (by simp) (by simp)

theorem setPriority (h : QueuesReady s) (pid priority : Nat) :
    QueuesReady (s.apply (.setPriority pid priority)) := by
  have hs := h.sched.apply (.setPriority pid priority)
  have hout := (schedulerSetProcessPriority_between s.k pid priority).2
  exact h.act (a := .setPriority pid priority) rfl hs (outer_of_outside hout) (.of_outside hout) (by simp)
    (by simp) (by simp)

/-- `process_unregister` and `mem_free` of a process that is in no queue. -/
theorem reap (h : QueuesReady s) {pid : Nat} {p : Addr} (hp : processLookup s.k pid = some p)
    (hr : (s.k.proc p).state ≠ .ready) : QueuesReady (s.reap p) := by
  unfold SchedState.reap
  split
  · exact h
  · next hno =>
    obtain ⟨hidle, hcur⟩ := not_or.mp hno
    have hne : Boot.idle ≠ p := fun he => hidle (he ▸ h.sched.idle)
    -- no queue may hold the block that is freed: the entries of the queues are READY
    have hout : ∀ q, Queued s.k q → q ≠ p := by
      rintro q ⟨i, hi⟩ rfl
      exact hr (h.sched.placed.entry i q hi hidle).1
    have hlive : ∀ q, q ≠ p → Function.update s.k.live p none q = s.k.live q := fun q hq =>
      Function.update_of_ne hq ..
    have htable : ∀ pid' q, processLookup (processUnregister s.k (s.k.proc p).pid) pid' = some q →
        processLookup s.k pid' = some q ∧ q ≠ p := by
      intro pid' q hq
      have hold := processUnregister_lookup hq
      refine ⟨hold, ?_⟩
      rintro rfl
      rw [h.pids pid' q hold, processUnregister_free] at hq
      cases hq
    rw [processUnregister_kernel] at htable ⊢
    exact {
      sched := {
        placed := h.sched.placed.congr rfl rfl rfl fun _ => rfl
        queuedLive := fun q hq => (hlive q (hout q hq)).trans (h.sched.queuedLive q hq)
        currentLive := fun q hq => (hlive q fun he => hcur (he ▸ hq)).trans (h.sched.currentLive q hq)
        idle := h.sched.idle
        idleLive := (hlive _ hne).trans h.sched.idleLive
        saved := h.sched.saved
        tableLive := fun pid' q hq =>
          (hlive q (htable pid' q hq).2).trans (h.sched.tableLive pid' q (htable pid' q hq).1) }
      lossless := h.lossless.congr (h.lossless.queues.congr rfl) rfl
      idleOut := h.idleOut
      ready := fun q hq hne hready => by
        by_cases hqp : q = p
        · exact absurd (hqp ▸ hready) hr
        · exact h.ready q ((hlive q hqp).symm.trans hq) hne hready
      pids := fun pid' q hq => h.pids pid' q (htable pid' q hq).1 }

/-- A creation: the new process is put in a queue at once. -/
theorem create (h : QueuesReady s) (isShell : Bool) (args : CreateArgs) (rsp : Nat) :
    QueuesReady (s.apply (.create isShell args rsp)) := by
  have hs := h.sched.create isShell args rsp
  simp only [SchedState.apply]
  unfold createReady at hs ⊢
  split
  · exact h
  · next hpid =>
    rw [if_neg hpid] at hs
    rcases memAlloc_cases s.k .process with hm | ⟨p, hfree, -, hm⟩
    · rw [hm] at hs ⊢
      exact ⟨hs, h.lossless.congr h.lossless.queues rfl, h.idleOut, h.ready, h.pids⟩
    · rw [hm] at hs ⊢
      dsimp only at hs ⊢
      set process : Process := { newProcess (allocatePid s.k) args with isShell := isShell, rsp := rsp }
      set k1 := (processRegister ((s.k.grant p .process).modProc p (fun _ => process)) p).2 with hk1
      have hkernel := processRegister_kernel ((s.k.grant p .process).modProc p (fun _ => process)) p
      rw [← hk1] at hkernel
      have hqueues : k1.readyQueues = s.k.readyQueues := by rw [hkernel]; rfl
      have hproc : k1.proc = Function.update s.k.proc p process := by rw [hkernel]; rfl
      have hlive : k1.live = Function.update s.k.live p (some .process) := by rw [hkernel]; rfl
      have hl : Lossless k1 := h.lossless.congr (h.lossless.queues.congr hqueues) (by rw [hkernel]; rfl)
      have hqueued : ∀ q, Queued k1 q ↔ Queued s.k q := fun q => by
        unfold Queued entries
        rw [hqueues]
      -- the block was free before, so it is neither idle nor any registered process
      have hidle : Boot.idle ≠ p := by
        rintro rfl
        exact absurd (h.sched.idleLive.symm.trans hfree) (by simp)
      have hlive' := live_of_outer (outer_of_outside (schedulerAddReady_outside k1 p))
      refine ⟨hs, ?_, ?_, ?_, ?_⟩
      · exact hl.congr (schedulerAddReady_hasQueues hl.queues p)
          (answers_of_outside (schedulerAddReady_outside k1 p))
      · intro hq
        rcases queued_schedulerAddReady hq with hq | hq
        · exact h.idleOut ((hqueued _).mp hq)
        · exact hidle hq
      · intro q hq hne hready
        by_cases hqp : q = p
        · subst hqp
          exact queued_schedulerAddReady_self hl q
        · rw [hlive', hlive, Function.update_of_ne hqp] at hq
          rw [(schedulerAddReady_between k1 p).state q, stateBut, if_neg hqp, hproc,
            Function.update_of_ne hqp] at hready
          exact queued_schedulerAddReady_of_queued hl p ((hqueued q).mpr (h.ready q hq hne hready))
      · intro pid q hq
        rw [processLookup_of_outer (outer_of_outside (schedulerAddReady_outside k1 p))] at hq
        refine (pid_of_outside (schedulerAddReady_outside k1 p) q).trans ?_
        rcases processRegister_lookup hq with hold | ⟨-, rfl, rfl⟩
        · have hqp : q ≠ p := by
            rintro rfl
            exact absurd ((h.sched.tableLive pid q hold).symm.trans hfree) (by simp)
          rw [hproc, Function.update_of_ne hqp]
          exact h.pids pid q hold
        · rw [hproc]
          rfl

/-- `current->remaining_quantum = 0`. -/
theorem endQuantum (h : QueuesReady s) (c : Addr) :
    QueuesReady { s with k := s.k.modProc c Process.endQuantum } where
  sched := h.sched.between (modProc_between s.k c _ rfl rfl (fun _ => False))
    (outer_of_outside (modProc_outside _ _ _ rfl)) (h.sched.placed.modProc_same c _ rfl rfl)
    fun _ hf => hf.elim
  lossless := h.lossless.modProc c _
  idleOut := h.idleOut
  ready p hp hne hready := by
    rw [(modProc_between s.k c Process.endQuantum rfl rfl (fun _ => False)).state p] at hready
    exact h.ready p hp hne hready
  pids pid p hp := (SamePids.modProc s.k c rfl p).trans (h.pids pid p hp)

/-- A process that is `READY` after a tick could be given the processor before it. -/
theorem runnable_of_ready (h : QueuesReady s) {rsp : Nat} {p : Addr} (hlive : s.k.live p = some .process)
    (hne : p ≠ Boot.idle) (hr : ((scheduleTick s.k rsp).2.proc p).state = .ready) :
    Runnable s.k p ∧ (scheduleTick s.k rsp).2.current ≠ some p := by
  have hidle : s.k.idle ≠ some p := fun hp => hne (Option.some.inj (hp.symm.trans h.sched.idle))
  have hleft : leftState s.k p = .ready → Runnable s.k p := fun hl =>
    (leftState_ready hl hidle).imp (h.ready p hlive hne) fun hc => ⟨hc.1, hidle, hc.2⟩
  cases scheduleTick_cases s.k rsp with
  | keep c keeps _ current state _ _ =>
      rw [state p] at hr
      refine ⟨.inl (h.ready p hlive hne hr), fun hp => ?_⟩
      cases current.symm.trans hp
      exact absurd (keeps.2.2.1.symm.trans hr) (by decide)
  | dispatch n _ _ _ _ current state _ _ =>
      rw [state p] at hr
      split at hr
      · cases hr
      · next hpn => exact ⟨hleft hr, fun hp => hpn (Option.some.inj (current.symm.trans hp)).symm⟩
  | idle d _ _ _ current state _ _ =>
      rw [state p] at hr
      split at hr
      · cases hr
      · next hpd => exact ⟨hleft hr, fun hp => hpd (Option.some.inj (current.symm.trans hp)).symm⟩
  | nobody noIdle _ _ _ _ _ => exact absurd (h.sched.idle.symm.trans noIdle) (by simp)

theorem idle_not_queued (h : QueuesReady s) : ∀ p, s.k.idle = some p → ¬ Queued s.k p := by
  intro p hp
  cases h.sched.idle.symm.trans hp
  exact h.idleOut

/-- **Step lemma** for a tick. -/
theorem tick (h : QueuesReady s) (rsp : Nat) : QueuesReady (s.apply (.tick rsp)) where
  sched := h.sched.tick rsp
  lossless := scheduleTick_lossless h.lossless rsp
  idleOut hq := by
    have hq' : Queued s.k Boot.idle ∨ s.k.current = some Boot.idle ∧ s.k.idle ≠ some Boot.idle ∧
        (s.k.proc Boot.idle).state = .running := by
      cases scheduleTick_cases s.k rsp with
      | keep _ _ _ _ _ _ queued => exact .inl (queued _ hq)
      | dispatch _ _ _ _ _ _ _ _ queued => exact queued _ hq
      | idle _ _ _ _ _ _ _ queued => exact queued _ hq
      | nobody noIdle _ _ _ _ queued => exact queued _ hq
    rcases hq' with hq' | ⟨-, hne, -⟩
    · exact h.idleOut hq'
    · exact hne h.sched.idle
  ready p hp hne hready := by
    have hlive := (live_of_outer (outer_of_outside (scheduleTick_outside s.k rsp))) ▸ hp
    obtain ⟨hrun, hcur⟩ := h.runnable_of_ready hlive hne hready
    exact (scheduleTick_runnable h.lossless h.sched.placed h.idle_not_queued rsp hrun).resolve_right hcur
  pids pid p hp := by
    have hout := scheduleTick_outside s.k rsp
    rw [show (s.apply (.tick rsp)).k = (scheduleTick s.k rsp).2 from rfl,
      processLookup_of_outer (outer_of_outside hout)] at hp
    exact (pid_of_outside hout p).trans (h.pids pid p hp)

/-- **Step lemma.** -/
theorem call (h : QueuesReady s) {c : SchedCall} (hc : s.Harmless c) : QueuesReady (s.call c) := by
  cases c with
  | create isShell args rsp => exact h.create isShell args rsp
  | block pid => exact h.onPid pid _ fun p _ hlive => h.block hlive
  | unblock pid =>
      refine h.onPid pid _ fun p hp hlive => h.unblock hlive ?_
      rintro rfl
      exact hc _ hp h.sched.idle
  | kill pid => exact h.onPid pid _ fun p _ hlive => h.exit hlive
  | reap pid => exact h.onPid pid _ fun p hp _ => h.reap hp (hc p hp)
  | setPriority pid priority => exact h.setPriority pid priority
  | yield =>
      simp only [SchedState.call]
      cases s.k.current with
      | none => exact h
      | some c => exact h.endQuantum c
  | tick rsp => exact h.tick rsp

theorem boot {memAnswers : Nat → Option Addr} (hmem : ∀ n, (memAnswers n).isSome) :
    QueuesReady (SchedState.boot memAnswers) where
  sched := .boot memAnswers
  lossless := ⟨fun _ => Option.some_ne_none _, hmem⟩
  idleOut := by
    rintro ⟨i, hi⟩
    change Boot.idle ∈ entries (Boot.kernel memAnswers) i at hi
    rw [entries_boot] at hi
    split at hi
    · exact absurd (List.mem_singleton.mp hi) (by decide)
    · cases hi
  ready p hp hne _ := by
    refine ⟨0, ?_⟩
    have hp' : p = Boot.init := by
      simp only [SchedState.boot, Boot.kernel] at hp
      split at hp
      · next h => exact h.resolve_left hne
      · repeat' split at hp
        all_goals cases hp
    rw [hp']
    exact List.mem_singleton_self _
  pids pid p hp := by
    obtain ⟨hfirst, -, hslot⟩ := processLookup_eq_some.mp hp
    simp only [SchedState.boot, Boot.kernel, PROCESS_FIRST_PID] at hfirst hslot
    split at hslot
    · next h0 =>
      cases hslot
      show 1 = pid
      omega
    · split at hslot
      · next h1 =>
        cases hslot
        show 2 = pid
        omega
      · cases hslot

/-- **Run lemma.** -/
theorem run {memAnswers : Nat → Option Addr} (hmem : ∀ n, (memAnswers n).isSome) {calls : List SchedCall}
    (h : GuardedRun SchedState.step SchedState.Harmless (SchedState.boot memAnswers) calls s) :
    QueuesReady s := by
  refine h.invariant QueuesReady (fun s c s' hs hc hstep => ?_) (boot hmem)
  cases hstep
  exact hs.call hc

end QueuesReady

/-! ## The tick selects correctly -/

namespace QueuesReady

variable {s : SchedState}

/-- The process the loop picks is the one to run. -/
theorem selected (h : QueuesReady s) {rsp : Nat} (hsw : (tickRunning (countTick s.k) rsp).1 = true)
    {i : Nat} {n : Addr} (hn : firstReady (beforePick s.k rsp) i = some n)
    (hfirst : ∀ j < i, firstReady (beforePick s.k rsp) j = none) :
    Selected (beforePick s.k rsp) (scheduleTick s.k rsp).2 n := by
  obtain ⟨hplaced, hready⟩ := beforePick_ready h.sched.placed h.idle_not_queued rsp hsw
  set b := beforePick s.k rsp with hb
  have hqueues : HasQueues b := schedulerAgeReady_hasQueues
    (tickRunning_hasQueues (h.lossless.queues.countTick) rsp)
  rw [firstReady_eq_head? hready] at hn
  obtain ⟨rest, he⟩ := List.head?_eq_some_iff.mp hn
  have hmem : n ∈ entries b i := he ▸ List.mem_cons_self
  obtain ⟨hr, hidle⟩ := hready n ⟨i, hmem⟩
  have hi : i < SCHEDULER_PRIORITY_LEVELS := by
    rw [(hplaced.entry i n hmem hidle).2]
    exact priorityIndex_lt _
  -- every entry is READY and not idle, so a level without a first choice is empty
  have hempty : ∀ j ∈ List.range i, j < SCHEDULER_PRIORITY_LEVELS ∧ entries b j = [] := by
    intro j hj
    have hji := List.mem_range.mp hj
    have hnone := hfirst j hji
    rw [firstReady_eq_head? hready] at hnone
    exact ⟨hji.trans hi, List.head?_eq_none_iff.mp hnone⟩
  obtain ⟨later, hlevels⟩ := levels_split hi
  have hpick := pickNext_head hqueues hi he hr hidle later (List.range i) hempty
  rw [← hlevels] at hpick
  have htick : (scheduleTick s.k rsp).2 = dispatch (b.setReady i (some rest)) n := by
    rw [scheduleTick_eq, if_pos hsw, ← hb, hpick]
  have hentries : ∀ j, entries (scheduleTick s.k rsp).2 j = if j = i then rest else entries b j := by
    intro j
    rw [htick, entries_dispatch, entries_setReady]
    rfl
  refine ⟨by rw [htick, current_dispatch], ?_, ?_, ?_⟩
  · rw [htick, dispatch_state, if_pos rfl]
  · rintro ⟨j, hj⟩
    rw [hentries] at hj
    split at hj
    · have honce := hplaced.once i n hidle
      rw [he, List.count_cons_self] at honce
      have := List.count_pos_iff.mpr hj
      omega
    · next hji =>
      have hjn := (hplaced.entry j n hj hidle).2
      exact hji (hjn.trans (hplaced.entry i n hmem hidle).2.symm)
  · intro j p hpn _ hp
    rw [hentries]
    split
    · next hji =>
      rw [hji, he] at hp
      exact (List.mem_cons.mp hp).resolve_left hpn
    · exact hp

/-- **Selection.** -/
theorem selects (h : QueuesReady s) (rsp : Nat) : SelectsCorrectly s.k rsp where
  selected hsw _ _ hn hfirst := h.selected hsw hn hfirst
  kept p hidle hq := scheduleTick_runnable h.lossless h.sched.placed h.idle_not_queued rsp (.inl hq)
  preempted c hc hidle hr hq := by
    have hrun : Runnable s.k c := .inr ⟨hc, hidle, hr⟩
    have hsw : (tickRunning (countTick s.k) rsp).1 = true := by
      by_contra hne
      obtain ⟨c', hkeep, -⟩ := tickRunning_keep (Bool.not_eq_true _ ▸ hne)
      cases hkeep.1.symm.trans hc
      exact absurd (hq ▸ hkeep.2.2.2) (Nat.lt_irrefl 0)
    exact ⟨queued_beforePick h.lossless rsp hsw hrun,
      scheduleTick_runnable h.lossless h.sched.placed h.idle_not_queued rsp hrun⟩
  idleLast d hd hcur pid p hp hne hr := by
    have hout := outer_of_outside (scheduleTick_outside s.k rsp)
    rw [processLookup_of_outer hout] at hp
    have hrun := (h.runnable_of_ready (h.sched.tableLive pid p hp)
      (fun he => hne (he.trans (Option.some.inj (h.sched.idle.symm.trans hd)))) hr).1
    cases scheduleTick_cases s.k rsp with
    | keep c keeps _ current _ _ _ =>
        cases current.symm.trans hcur
        exact keeps.2.1 hd
    | dispatch n notIdle _ _ _ current _ _ _ =>
        cases current.symm.trans hcur
        exact notIdle hd
    | idle d' _ nothing _ _ _ _ _ =>
        exact nobody_runnable h.lossless h.sched.placed h.idle_not_queued rsp nothing p hrun
    | nobody noIdle _ _ _ _ _ => exact absurd (hd.symm.trans noIdle) (by simp)

end QueuesReady

/-- **`schedule_tick` selects correctly** after any calls of which none wakes a blocked idle or frees a
    `READY` process, while the allocator has memory for the queues. -/
theorem schedule_tick_selects {memAnswers : Nat → Option Addr} (hmem : ∀ n, (memAnswers n).isSome)
    {calls : List SchedCall} {s : SchedState}
    (h : GuardedRun SchedState.step SchedState.Harmless (SchedState.boot memAnswers) calls s) (rsp : Nat) :
    SelectsCorrectly s.k rsp := (QueuesReady.run hmem h).selects rsp

/-! ## Runs -/

/-- The state after boot and these calls. -/
def SchedState.afterCalls (calls : List SchedCall) : SchedState :=
  calls.foldl SchedState.call (SchedState.boot freshBlocks)

theorem SchedState.run_calls {guard : SchedState → SchedCall → Prop} (calls : List SchedCall) :
    ∀ s : SchedState, (∀ t, ∀ c ∈ calls, guard t c) →
      GuardedRun SchedState.step guard s calls (calls.foldl SchedState.call s) := by
  induction calls with
  | nil => exact fun s _ => .nil s
  | cons c calls ih =>
      intro s hguard
      exact .cons (hguard s c List.mem_cons_self) rfl
        (ih (s.call c) fun t c hc => hguard t c (.tail _ hc))

/-- Init creates a process, to which the processor goes at the second tick. -/
theorem schedule_tick_selects_created : ∃ s : SchedState,
    GuardedRun SchedState.step SchedState.Harmless (SchedState.boot freshBlocks)
      [.tick 0, .create false { entryPoint := 0x400000 } 0, .yield] s ∧
    Selected (beforePick s.k 0) (scheduleTick s.k 0).2 (KERNEL_BASE + 100) := by
  set calls : List SchedCall := [.tick 0, .create false { entryPoint := 0x400000 } 0, .yield] with hcalls
  have hrun : GuardedRun SchedState.step SchedState.Harmless (SchedState.boot freshBlocks) calls
      (SchedState.afterCalls calls) := by
    refine SchedState.run_calls calls _ fun t c hc => ?_
    simp only [hcalls, List.mem_cons, List.not_mem_nil, or_false] at hc
    rcases hc with rfl | rfl | rfl <;> exact trivial
  refine ⟨_, hrun, (schedule_tick_selects (fun _ => rfl) hrun 0).selected ?_ 0 _ ?_ ?_⟩
  · decide +kernel
  · decide +kernel
  · exact fun j hj => absurd hj (Nat.not_lt_zero j)

/-- The shell creates a process, blocks `init`, blocks and wakes idle and makes the lowest level that of the new
    process, which then waits behind idle. When the shell is blocked the tick drops idle from the last level,
    looks no further and runs idle. -/
theorem ready_process_behind_idle : ¬ ∀ (memAnswers : Nat → Option Addr) (calls : List SchedCall)
    (s : SchedState) (rsp : Nat), (∀ n, (memAnswers n).isSome) →
    GuardedRun SchedState.step (fun _ _ => True) (SchedState.boot memAnswers) calls s →
      SelectsCorrectly s.k rsp := by
  intro hall
  set calls : List SchedCall := [.tick 0, .create true { entryPoint := 0x400000 } 0, .yield, .tick 0,
    .create false { entryPoint := 0x400000 } 0, .block 2, .block 1, .unblock 1, .setPriority 4 5, .block 3]
  have hselects := hall freshBlocks calls (SchedState.afterCalls calls) 0 (fun _ => rfl)
    (SchedState.run_calls calls _ fun _ _ _ => trivial)
  have hfacts : (SchedState.afterCalls calls).k.idle = some Boot.idle ∧
      (scheduleTick (SchedState.afterCalls calls).k 0).2.current = some Boot.idle ∧
      processLookup (scheduleTick (SchedState.afterCalls calls).k 0).2 4 = some (KERNEL_BASE + 104) ∧
      ((scheduleTick (SchedState.afterCalls calls).k 0).2.proc (KERNEL_BASE + 104)).state = .ready := by
    decide +kernel
  obtain ⟨hidle, hcurrent, hlookup, hready⟩ := hfacts
  have hlast := hselects.idleLast Boot.idle hidle hcurrent 4 (KERNEL_BASE + 104) hlookup
  exact absurd hready (hlast (by decide))

end TpSo
