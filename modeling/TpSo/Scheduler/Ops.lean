import TpSo.Process.Effects
import TpSo.Process.Table
import TpSo.Kernel.Machine

set_option autoImplicit false

/-! # The scheduler under arbitrary sequences of operations

The scheduler seen on its own: from boot, its operations and those of `process.c` that move
processes between its queues are applied in any order, with any arguments, while the allocator
answers as it likes. The state carries, besides the kernel, the stack pointer each process was last
interrupted at, which is what its `context.rsp` is meant to be. -/

namespace TpSo

/-- The kernel, and for each process the stack pointer it has to be resumed from. -/
structure SchedState where
  k : Kernel
  saved : Addr → Nat

/-- One operation. An operation on a process that is not allocated does not happen. -/
inductive SchedOp
  /-- `createProcess` with the stack pointer `stackInit` prepared, then `scheduler_add_ready`. -/
  | create (isShell : Bool) (args : CreateArgs) (rsp : Nat)
  | addReady (p : Addr)
  | removeReady (p : Addr)
  | block (p : Addr)
  | unblock (p : Addr)
  /-- The state change of `process_exit`. -/
  | exit (p : Addr)
  | setPriority (pid priority : Nat)
  /-- `process_yield`, interrupted at this stack pointer by its `int 0x20`. -/
  | yield (rsp : Nat)
  | tick (rsp : Nat)

/-- The stack pointer each process has to be resumed from, once the current one is interrupted. -/
def savedAfter (s : SchedState) (rsp : Nat) (p : Addr) : Nat :=
  if s.k.current = some p then rsp else s.saved p

/-- `createProcess` as far as the scheduler is concerned. -/
def createReady (s : SchedState) (isShell : Bool) (args : CreateArgs) (rsp : Nat) : SchedState :=
  if allocatePid s.k = 0 then s
  else
    match s.k.memAlloc .process with
    | (none, k) => { s with k := k }
    | (some p, k) =>
      let k := k.modProc p (fun _ =>
        { newProcess (allocatePid s.k) args with isShell := isShell, rsp := rsp })
      { k := schedulerAddReady (processRegister k p).2 p, saved := Function.update s.saved p rsp }

/-- Apply a kernel function that is only ever called on an allocated process. -/
def SchedState.onProcess (s : SchedState) (p : Addr) (f : Kernel → Kernel) : SchedState :=
  if s.k.live p = some .process then { s with k := f s.k } else s

/-- Apply an operation. -/
def SchedState.apply (s : SchedState) : SchedOp → SchedState
  | .create isShell args rsp => createReady s isShell args rsp
  | .addReady p => s.onProcess p (schedulerAddReady · p)
  | .removeReady p => s.onProcess p (schedulerRemoveReady · p)
  | .block p => s.onProcess p (fun k => (processBlock k p).2)
  | .unblock p => s.onProcess p (fun k => (processUnblock k p).2)
  | .exit p => s.onProcess p (fun k => (exitFirstHalf k p).2)
  | .setPriority pid priority => { s with k := (schedulerSetProcessPriority s.k pid priority).2 }
  | .yield rsp =>
    match s.k.current with
    | none => s
    | some c =>
      { k := (scheduleTick (s.k.modProc c Process.endQuantum) rsp).2
        saved := savedAfter s rsp }
  | .tick rsp => { k := (scheduleTick s.k rsp).2, saved := savedAfter s rsp }

/-- The state after boot. -/
def SchedState.boot (memAnswers : Nat → Option Addr) : SchedState where
  k := Boot.kernel memAnswers
  saved p := ((Boot.kernel memAnswers).proc p).rsp

/-- The state after boot and a sequence of operations. -/
def SchedState.after (memAnswers : Nat → Option Addr) (ops : List SchedOp) : SchedState :=
  ops.foldl SchedState.apply (SchedState.boot memAnswers)

/-! ## The invariant -/

/-- What every sequence of operations keeps. -/
structure SchedInv (s : SchedState) : Prop where
  placed : Placed s.k
  queuedLive : ∀ p, Queued s.k p → s.k.live p = some .process
  currentLive : ∀ p, s.k.current = some p → s.k.live p = some .process
  idle : s.k.idle = some Boot.idle
  idleLive : s.k.live Boot.idle = some .process
  /-- Everyone but idle has its stack pointer in its `context.rsp`. -/
  saved : ∀ p, s.k.idle ≠ some p → (s.k.proc p).rsp = s.saved p
  /-- Registered processes are allocated. -/
  tableLive : ∀ pid p, processLookup s.k pid = some p → s.k.live p = some .process

namespace SchedInv

variable {s : SchedState}

/-- **Step lemma** for the operations that do not switch. -/
theorem between (h : SchedInv s) {k' : Kernel} {state : Addr → ProcessState} {added : Addr → Prop}
    (hb : Between s.k k' state added) (hout : k'.outer = s.k.outer) (hpl : Placed k')
    (hadd : ∀ p, added p → s.k.live p = some .process) : SchedInv { s with k := k' } where
  placed := hpl
  queuedLive p hp := live_of_outer hout ▸ (hb.queued p hp).elim (h.queuedLive p) (hadd p)
  currentLive p hp := live_of_outer hout ▸ h.currentLive p (hb.current ▸ hp)
  idle := (idle_of_outer hout).trans h.idle
  idleLive := live_of_outer hout ▸ h.idleLive
  saved p hp := (hb.rsp p).trans (h.saved p (idle_of_outer hout ▸ hp))
  tableLive pid p hp :=
    live_of_outer hout ▸ h.tableLive pid p ((processLookup_of_outer hout pid).symm.trans hp)

/-- **Step lemma** for a tick. -/
theorem tick (h : SchedInv s) (rsp : Nat) :
    SchedInv { k := (scheduleTick s.k rsp).2, saved := savedAfter s rsp } := by
  have hout := scheduleTick_outside s.k rsp
  have hidle : (scheduleTick s.k rsp).2.idle = s.k.idle := idle_of_outside hout
  have hlive := live_of_outer (outer_of_outside hout)
  have hleft : ∀ p, Queued s.k p ∨ s.k.current = some p ∧ s.k.idle ≠ some p ∧
      (s.k.proc p).state = .running → s.k.live p = some .process := fun p hp =>
    hp.elim (h.queuedLive p) fun hp => h.currentLive p hp.1
  have hsaved : ∀ p, s.k.idle ≠ some p → leftRsp s.k rsp p = savedAfter s rsp p := fun p hp => by
    unfold leftRsp savedAfter
    rw [h.saved p hp]
  have hrest : (∀ p, Queued (scheduleTick s.k rsp).2 p → s.k.live p = some .process) ∧
      (∀ p, (scheduleTick s.k rsp).2.current = some p → s.k.live p = some .process) ∧
      ∀ p, s.k.idle ≠ some p → ((scheduleTick s.k rsp).2.proc p).rsp = savedAfter s rsp p := by
    cases scheduleTick_cases s.k rsp with
    | keep c keeps _ current _ saved queued =>
        refine ⟨fun p hp => h.queuedLive p (queued p hp), fun p hp => ?_, fun p hp => ?_⟩
        · cases current.symm.trans hp
          exact h.currentLive c keeps.1
        · rw [saved, hsaved p hp]
    | dispatch n _ ready _ _ current _ saved queued =>
        refine ⟨fun p hp => hleft p (queued p hp), fun p hp => ?_, fun p hp => ?_⟩
        · cases current.symm.trans hp
          exact ready.elim (fun hr => h.queuedLive n hr.1) fun hr => h.currentLive n hr.1
        · rw [saved, hsaved p hp]
    | idle d isIdle _ _ current _ saved queued =>
        refine ⟨fun p hp => hleft p (queued p hp), fun p hp => ?_, fun p hp => ?_⟩
        · cases current.symm.trans hp
          cases h.idle.symm.trans isIdle
          exact h.idleLive
        · rw [saved, if_neg fun hpd : p = d => hp (hpd ▸ isIdle), hsaved p hp]
    | nobody noIdle _ _ _ _ _ => exact absurd (h.idle.symm.trans noIdle) (by simp)
  exact {
    placed := scheduleTick_placed h.placed rsp
    queuedLive := fun p hp => hlive ▸ hrest.1 p hp
    currentLive := fun p hp => hlive ▸ hrest.2.1 p hp
    idle := hidle.trans h.idle
    idleLive := hlive ▸ h.idleLive
    saved := fun p hp => hrest.2.2 p (hidle ▸ hp)
    tableLive := fun pid p hp => hlive ▸ h.tableLive pid p
      ((processLookup_of_outer (outer_of_outside hout) pid).symm.trans hp) }

end SchedInv

/-! ## Creation -/

/-- A new process object in the process table. -/
theorem SchedInv.register {s : SchedState} (h : SchedInv s) {p : Addr} (hfree : s.k.live p = none)
    (process : Process) (hs : process.state ≠ .running) :
    SchedInv
      { k := (processRegister ((s.k.grant p .process).modProc p (fun _ => process)) p).2
        saved := Function.update s.saved p process.rsp } := by
  set k1 := s.k.grant p .process
  have hnot : ∀ q, s.k.live q = some .process → q ≠ p := by
    rintro q hq rfl
    exact absurd (hfree.symm.trans hq) (by simp)
  have hgrow : ∀ q, s.k.live q = some .process → k1.live q = some .process := fun q hq =>
    (Function.update_of_ne (hnot q hq) _ _).trans hq
  have hpl : Placed (k1.modProc p (fun _ => process)) :=
    Placed.modProc (k := k1) (h.placed.congr rfl rfl rfl fun _ => rfl) p _
      (fun _ i hi => hnot p (h.queuedLive p ⟨i, hi⟩) rfl) (fun hr => absurd hr hs)
  rw [processRegister_kernel (k1.modProc p (fun _ => process)) p]
  refine ⟨hpl.congr rfl rfl rfl fun _ => rfl, fun q hq => hgrow q (h.queuedLive q hq),
    fun q hq => hgrow q (h.currentLive q hq), h.idle, hgrow _ h.idleLive, fun q hq => ?_,
    fun pid q hq => ?_⟩
  · change ((Function.update s.k.proc p process) q).rsp = Function.update s.saved p process.rsp q
    rw [Function.update_apply, Function.update_apply]
    split
    · rfl
    · exact h.saved q hq
  · rw [← processRegister_kernel (k1.modProc p (fun _ => process)) p] at hq
    rcases (processRegister_lookup hq).imp_right fun h => h.2.1 with hq | rfl
    · exact hgrow q (h.tableLive pid q hq)
    · exact Function.update_self ..

/-- **Step lemma** for a creation. -/
theorem SchedInv.create {s : SchedState} (h : SchedInv s) (isShell : Bool) (args : CreateArgs)
    (rsp : Nat) : SchedInv (createReady s isShell args rsp) := by
  unfold createReady
  split
  · exact h
  · rcases memAlloc_cases s.k .process with hm | ⟨p, hfree, -, hm⟩
    · rw [hm]
      exact { h with
        placed := h.placed.congr rfl rfl rfl fun _ => rfl }
    · rw [hm]
      dsimp only
      have hinv := h.register hfree
        { newProcess (allocatePid s.k) args with isShell := isShell, rsp := rsp }
        (fun hr => ProcessState.noConfusion hr)
      refine hinv.between (schedulerAddReady_between _ p)
        (outer_of_outside (schedulerAddReady_outside _ p)) (schedulerAddReady_placed hinv.placed p) ?_
      rintro q rfl
      dsimp only
      rw [processRegister_kernel]
      exact Function.update_self ..

/-! ## All operations -/

theorem schedulerRemoveReady_between (k : Kernel) (p : Addr) :
    Between k (schedulerRemoveReady k p) (fun q => (k.proc q).state) (fun _ => False) where
  state q := by rw [(schedulerRemoveReady_same k p).proc]
  rsp q := by rw [(schedulerRemoveReady_same k p).proc]
  current := (schedulerRemoveReady_same k p).current
  queued _ := fun ⟨i, hi⟩ => .inl ⟨i, (entries_schedulerRemoveReady_sublist k p i).subset hi⟩

theorem SchedInv.onProcess {s : SchedState} (h : SchedInv s) (p : Addr) (f : Kernel → Kernel)
    (hf : s.k.live p = some .process → SchedInv { s with k := f s.k }) :
    SchedInv (s.onProcess p f) := by
  unfold SchedState.onProcess
  split
  · next hp => exact hf hp
  · exact h

/-- **Step lemma.** Every operation keeps the invariant. -/
theorem SchedInv.apply {s : SchedState} (h : SchedInv s) (op : SchedOp) : SchedInv (s.apply op) := by
  cases op with
  | create isShell args rsp => exact h.create isShell args rsp
  | addReady p =>
      refine h.onProcess p (schedulerAddReady · p) fun hp => ?_
      exact h.between (schedulerAddReady_between _ p)
        (outer_of_outside (schedulerAddReady_outside _ p)) (schedulerAddReady_placed h.placed p)
        (by rintro q rfl; exact hp)
  | removeReady p =>
      refine h.onProcess p (schedulerRemoveReady · p) fun _ => ?_
      exact h.between (schedulerRemoveReady_between _ p)
        (outer_of_outside (schedulerRemoveReady_same _ p).outside)
        (schedulerRemoveReady_placed h.placed p) fun _ hf => hf.elim
  | block p =>
      refine h.onProcess p (fun k => (processBlock k p).2) fun _ => ?_
      exact h.between (processBlock_between _ p) (outer_of_outside (processBlock_outside _ p))
        (processBlock_placed h.placed p) fun _ hf => hf.elim
  | unblock p =>
      refine h.onProcess p (fun k => (processUnblock k p).2) fun hp => ?_
      exact h.between (processUnblock_between _ p) (outer_of_outside (processUnblock_outside _ p))
        (processUnblock_placed h.placed p) (by rintro q ⟨rfl, -⟩; exact hp)
  | exit p =>
      refine h.onProcess p (fun k => (exitFirstHalf k p).2) fun _ => ?_
      exact h.between (exitFirstHalf_between _ p) (exitFirstHalf_outer _ p)
        (exitFirstHalf_placed h.placed p) fun _ hf => hf.elim
  | setPriority pid priority =>
      have hb := schedulerSetProcessPriority_between s.k pid priority
      exact h.between hb.1 (outer_of_outside hb.2)
        (schedulerSetProcessPriority_placed h.placed pid priority)
        fun q hq => h.tableLive pid q hq.1
  | yield rsp =>
      simp only [SchedState.apply]
      cases hc : s.k.current with
      | none => exact h
      | some c =>
          have hy : SchedInv { s with k := s.k.modProc c Process.endQuantum } :=
            h.between (modProc_between s.k c _ rfl rfl (fun _ => False))
              (outer_of_outside (modProc_outside _ _ _ rfl)) (h.placed.modProc_same c _ rfl rfl)
              fun _ hf => hf.elim
          exact hy.tick rsp
  | tick rsp => exact h.tick rsp

theorem entries_boot (memAnswers : Nat → Option Addr) (i : Nat) :
    entries (Boot.kernel memAnswers) i = if i = 0 then [Boot.init] else [] := rfl

theorem processLookup_boot {memAnswers : Nat → Option Addr} {pid : Nat} {p : Addr}
    (h : processLookup (Boot.kernel memAnswers) pid = some p) : p = Boot.idle ∨ p = Boot.init := by
  have h := (processLookup_eq_some.mp h).2.2
  simp only [Boot.kernel] at h
  split at h
  · exact .inl (Option.some.inj h).symm
  · split at h
    · exact .inr (Option.some.inj h).symm
    · exact absurd h (by simp)

theorem SchedInv.boot (memAnswers : Nat → Option Addr) : SchedInv (SchedState.boot memAnswers) where
  placed := by
    refine ⟨fun i p hm _ => ?_, fun i p _ => ?_, fun p hr => ?_⟩
    · change p ∈ entries (Boot.kernel memAnswers) i at hm
      rw [entries_boot] at hm
      split at hm
      · next hi =>
        rw [List.mem_singleton.mp hm, hi]
        exact ⟨rfl, rfl⟩
      · exact absurd hm (by simp)
    · change List.count p (entries (Boot.kernel memAnswers) i) ≤ 1
      rw [entries_boot]
      split
      · exact List.count_le_length
      · exact Nat.zero_le 1
    · change ((Boot.kernel memAnswers).proc p).state = _ at hr
      simp only [Boot.kernel] at hr
      split at hr
      · exact ProcessState.noConfusion hr
      · split at hr <;> exact ProcessState.noConfusion hr
  queuedLive := by
    rintro p ⟨i, hi⟩
    change p ∈ entries (Boot.kernel memAnswers) i at hi
    rw [entries_boot] at hi
    split at hi
    · rw [List.mem_singleton.mp hi]
      rfl
    · exact absurd hi (by simp)
  currentLive p hp := absurd hp (by simp [SchedState.boot, Boot.kernel])
  idle := rfl
  idleLive := rfl
  saved _ _ := rfl
  tableLive pid p hp := by
    rcases processLookup_boot hp with rfl | rfl <;> rfl

/-- **Run lemma.** The invariant holds after every sequence of operations. -/
theorem SchedInv.after (memAnswers : Nat → Option Addr) (ops : List SchedOp) :
    SchedInv (SchedState.after memAnswers ops) :=
  List.foldlRecOn ops _ (SchedInv.boot memAnswers) fun _ h op _ => h.apply op

/-! ## Placement -/

/-- Where the scheduler's processes are: an entry of a ready queue other than idle is `READY`, is in
    that queue once and in no other, and the queue is that of its priority; the process that runs is
    the current one. -/
structure WellPlaced (k : Kernel) : Prop where
  entry : ∀ i p, p ∈ entries k i → k.idle ≠ some p →
    (k.proc p).state = .ready ∧ (entries k i).count p = 1 ∧ (∀ j, p ∈ entries k j → j = i) ∧
      i = priorityIndex (k.proc p).priority
  running : ∀ p, (k.proc p).state = .running → k.current = some p

/-- **Placement.** After every sequence of operations, whatever the allocator answered, the processes
    are well placed, and a tick leaves the process table naming the current process as the running
    one. -/
theorem wellPlaced_after (memAnswers : Nat → Option Addr) (ops : List SchedOp) :
    WellPlaced (SchedState.after memAnswers ops).k ∧
      ∀ rsp, RunningPidAgrees (scheduleTick (SchedState.after memAnswers ops).k rsp).2 := by
  have h := (SchedInv.after memAnswers ops).placed
  refine ⟨⟨fun i p hm hne => ?_, h.running⟩, fun rsp => scheduleTick_runningPid _ rsp⟩
  have hentry := h.entry i p hm hne
  refine ⟨hentry.1, ?_, fun j hj => ?_, hentry.2⟩
  · exact Nat.le_antisymm (h.once i p hne) (List.count_pos_iff.mpr hm)
  · exact (h.entry j p hj hne).2.trans hentry.2.symm

end TpSo
