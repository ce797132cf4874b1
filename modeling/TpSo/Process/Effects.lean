import TpSo.Scheduler.Tick

set_option autoImplicit false

/-! # What the state-changing operations change

For each operation that enqueues, blocks, wakes or ends a process, and for the change of a priority:
which states it writes, which process it may add to a ready queue, and that it neither switches nor
touches a saved stack pointer. -/

namespace TpSo

/-! ## Steps between two switches -/

/-- An operation that leaves the processor and the saved stack pointers alone, writes the states in
    `state`, and adds to the ready queues at most the processes in `added`. -/
structure Between (k k' : Kernel) (state : Addr → ProcessState) (added : Addr → Prop) : Prop where
  state : ∀ p, (k'.proc p).state = state p
  rsp : ∀ p, (k'.proc p).rsp = (k.proc p).rsp
  current : k'.current = k.current
  queued : ∀ p, Queued k' p → Queued k p ∨ added p

/-- The states of `k`, but for one process. -/
def stateBut (k : Kernel) (p : Addr) (state : ProcessState) (q : Addr) : ProcessState :=
  if q = p then state else (k.proc q).state

theorem Between.refl (k : Kernel) (added : Addr → Prop) :
    Between k k (fun q => (k.proc q).state) added :=
  ⟨fun _ => rfl, fun _ => rfl, rfl, fun _ h => .inl h⟩

theorem schedulerAddReady_between (k : Kernel) (p : Addr) :
    Between k (schedulerAddReady k p) (stateBut k p .ready) (fun q => q = p) where
  state q := by
    rw [schedulerAddReady_proc, Function.update_apply, stateBut]
    split <;> rfl
  rsp q := by
    rw [schedulerAddReady_proc, Function.update_apply]
    split
    · next h => rw [h]; rfl
    · rfl
  current := schedulerAddReady_current k p
  queued _ := queued_schedulerAddReady

theorem queued_leaveReady {k : Kernel} {p q : Addr} (h : Queued (leaveReady k p) q) : Queued k q := by
  obtain ⟨i, hi⟩ := h
  unfold leaveReady at hi
  split at hi
  · exact ⟨i, (entries_schedulerRemoveReady_sublist k p i).subset hi⟩
  · exact ⟨i, hi⟩

/-- Leaving the ready queues for another state. -/
theorem leave_between (k : Kernel) (p : Addr) (state : ProcessState) :
    Between k ((leaveReady k p).setState p state) (stateBut k p state) (fun _ => False) where
  state q := by
    rw [setState_proc_state, (leaveReady_same k p).proc]
    rfl
  rsp q := by rw [setState_proc_rsp, (leaveReady_same k p).proc]
  current := (leaveReady_same k p).current
  queued _ h := .inl (queued_leaveReady h)

theorem leave_outside (k : Kernel) (p : Addr) (state : ProcessState) :
    ((leaveReady k p).setState p state).outside = k.outside :=
  (setState_outside _ _ _).trans (leaveReady_same k p).outside

theorem processBlock_between (k : Kernel) (p : Addr) :
    Between k (processBlock k p).2 (stateBut k p .blocked) (fun _ => False) := by
  rw [processBlock_eq]
  split
  · next h =>
    refine { Between.refl k _ with state := fun q => ?_ }
    unfold stateBut
    split
    · next hq => rw [hq, h]
    · rfl
  · exact leave_between k p .blocked

theorem processBlock_blocked (k : Kernel) (p : Addr) :
    ((processBlock k p).2.proc p).state = .blocked := by
  rw [(processBlock_between k p).state, stateBut, if_pos rfl]

theorem processBlock_outside (k : Kernel) (p : Addr) : (processBlock k p).2.outside = k.outside := by
  rw [processBlock_eq]
  split
  · rfl
  · exact leave_outside k p .blocked

/-- `process_unblock` wakes a `BLOCKED` process and leaves any other alone. -/
def unblockedState (k : Kernel) (p q : Addr) : ProcessState :=
  if q = p ∧ (k.proc p).state = .blocked then .ready else (k.proc q).state

theorem processUnblock_between (k : Kernel) (p : Addr) :
    Between k (processUnblock k p).2 (unblockedState k p)
      (fun q => q = p ∧ (k.proc p).state = .blocked) := by
  unfold processUnblock
  split
  · next h =>
    refine { Between.refl k _ with state := fun q => ?_ }
    rw [unblockedState, if_neg fun h' => h h'.2]
  · next h =>
    have hb := not_not.mp h
    have hadd := schedulerAddReady_between k p
    refine { hadd with state := fun q => ?_, queued := fun q hq => ?_ }
    · rw [hadd.state q, stateBut, unblockedState]
      by_cases hq : q = p
      · rw [if_pos hq, if_pos ⟨hq, hb⟩]
      · rw [if_neg hq, if_neg fun h' => hq h'.1]
    · exact (hadd.queued q hq).imp_right fun h' => ⟨h', hb⟩

theorem processUnblock_outside (k : Kernel) (p : Addr) :
    (processUnblock k p).2.outside = k.outside := by
  unfold processUnblock
  split
  · rfl
  · exact schedulerAddReady_outside k p

theorem passForeground_eq (k : Kernel) (p : Addr) :
    passForeground k p = { k with foregroundPid := (passForeground k p).foregroundPid } := by
  unfold passForeground
  split <;> rfl

/-- The first half of `process_exit` ends one process. -/
theorem exitFirstHalf_between (k : Kernel) (p : Addr) :
    Between k (exitFirstHalf k p).2 (stateBut k p .terminated) (fun _ => False) := by
  rw [exitFirstHalf_eq, passForeground_eq]
  have hleave := leave_between k p .terminated
  have hfam := adoptOrphanChildren_family ((leaveReady k p).setState p .terminated) p
  refine ⟨fun q => ?_, fun q => ?_, ?_, fun q ⟨i, hi⟩ => ?_⟩
  · exact (hfam.state q).trans (hleave.state q)
  · refine Eq.trans ?_ (hleave.rsp q)
    change ((adoptOrphanChildren _ p).proc q).rsp = _
    rw [hfam.proc q]
  · refine Eq.trans ?_ hleave.current
    change (adoptOrphanChildren _ p).current = _
    rw [hfam.kernel]
  · refine hleave.queued q ⟨i, ?_⟩
    change q ∈ entries (adoptOrphanChildren _ p) i at hi
    rw [hfam.kernel] at hi
    exact hi

theorem exitFirstHalf_outer (k : Kernel) (p : Addr) : (exitFirstHalf k p).2.outer = k.outer := by
  rw [exitFirstHalf_eq, passForeground_eq]
  exact (adoptOrphanChildren_family _ p).outer.trans (outer_of_outside (leave_outside k p _))

/-! ## `scheduler_set_process_priority` -/

/-- Writing neither the state nor the stack pointer of a process. -/
theorem modProc_between (k : Kernel) (p : Addr) (f : Process → Process)
    (hs : (f (k.proc p)).state = (k.proc p).state) (hr : (f (k.proc p)).rsp = (k.proc p).rsp)
    (added : Addr → Prop) : Between k (k.modProc p f) (fun q => (k.proc q).state) added where
  state q := by
    by_cases h : q = p
    · subst h
      simp only [Kernel.modProc, Function.update_self, hs]
    · simp only [Kernel.modProc, Function.update_of_ne h]
  rsp q := by
    by_cases h : q = p
    · subst h
      simp only [Kernel.modProc, Function.update_self, hr]
    · simp only [Kernel.modProc, Function.update_of_ne h]
  current := rfl
  queued _ h := .inl h

/-- Enqueueing a process. -/
theorem pushReady_between (k : Kernel) (priority : Nat) (p : Addr) :
    Between k (pushReady k priority p) (fun q => (k.proc q).state) (fun q => q = p) where
  state q := by rw [(pushReady_same _ _ _).proc]
  rsp q := by rw [(pushReady_same _ _ _).proc]
  current := (pushReady_same _ _ _).current
  queued _ := queued_pushReady

/-- One operation that keeps the states, then another. -/
theorem Between.trans {k k' k'' : Kernel} {added : Addr → Prop}
    (h : Between k k' (fun q => (k.proc q).state) added)
    (h' : Between k' k'' (fun q => (k'.proc q).state) added) :
    Between k k'' (fun q => (k.proc q).state) added where
  state p := (h'.state p).trans (h.state p)
  rsp p := (h'.rsp p).trans (h.rsp p)
  current := h'.current.trans h.current
  queued p hp := (h'.queued p hp).elim (h.queued p) .inr

theorem storePriority_between (k : Kernel) (p : Addr) (priority oldPriority : Nat) :
    Between k (storePriority k p priority oldPriority) (fun q => (k.proc q).state)
      (fun q => q = p ∧ (k.proc p).state = .ready) := by
  unfold storePriority
  have hstate : ((k.modProc p (priorityFields priority)).proc p).state = (k.proc p).state := by
    simp only [Kernel.modProc, Function.update_self]
    rfl
  set k1 := k.modProc p (priorityFields priority)
  set k2 := enqueueMoved k1 p oldPriority with hk2
  have hmove : Between k1 k2 (fun q => (k1.proc q).state)
      (fun q => q = p ∧ (k.proc p).state = .ready) := by
    rw [hk2]
    unfold enqueueMoved
    split
    · next h =>
      exact { pushReady_between _ _ p with
        queued := fun q hq => (queued_pushReady hq).imp_right fun hqp => ⟨hqp, hstate ▸ h.1⟩ }
    · exact .refl _ _
  refine (modProc_between k p (priorityFields priority) rfl rfl _).trans (hmove.trans ?_)
  unfold refreshQuantum
  split
  · exact modProc_between _ p _ rfl rfl _
  · exact .refl _ _

theorem storePriority_outside (k : Kernel) (p : Addr) (priority oldPriority : Nat) :
    (storePriority k p priority oldPriority).outside = k.outside := by
  have h1 : (k.modProc p (priorityFields priority)).outside = k.outside := modProc_outside _ _ _ rfl
  have h2 : (enqueueMoved (k.modProc p (priorityFields priority)) p oldPriority).outside =
      k.outside := by
    unfold enqueueMoved
    split
    · rw [(pushReady_same _ _ _).outside, h1]
    · exact h1
  unfold storePriority refreshQuantum
  split
  · exact (modProc_outside _ _ _ rfl).trans h2
  · exact h2

/-- `scheduler_set_process_priority` changes no state; it may put back a `READY` process that a
    failed allocation had dropped from its queue. -/
theorem schedulerSetProcessPriority_between (k : Kernel) (pid priority : Nat) :
    Between k (schedulerSetProcessPriority k pid priority).2 (fun q => (k.proc q).state)
      (fun q => processLookup k pid = some q ∧ (k.proc q).state = .ready) ∧
    (schedulerSetProcessPriority k pid priority).2.outside = k.outside := by
  unfold schedulerSetProcessPriority
  split
  · exact ⟨.refl k _, rfl⟩
  · split
    · exact ⟨.refl k _, rfl⟩
    · rename_i p hp
      split
      · exact ⟨.refl k _, rfl⟩
      · split
        · exact ⟨.refl k _, rfl⟩
        · split
          · exact ⟨.refl k _, rfl⟩
          · dsimp only
            split
            · have hsame := queueForPriority_same k (k.proc p).priority
              refine ⟨⟨fun q => ?_, fun q => ?_, hsame.current, fun q ⟨i, hi⟩ => .inl ⟨i, ?_⟩⟩,
                hsame.outside⟩
              · exact congrArg (fun f : Addr → Process => (f q).state) hsame.proc
              · exact congrArg (fun f : Addr → Process => (f q).rsp) hsame.proc
              · rw [← entries_queueForPriority k (k.proc p).priority i]
                exact hi
            · next k' hk' =>
              have hmoved : SameButQueues k k' ∧ ∀ i, (entries k' i).Sublist (entries k i) := by
                split at hk'
                · exact ⟨(purgeLevel_spec hk').1, (purgeLevel_spec hk').2.1⟩
                · cases hk'
                  exact ⟨.refl k, fun i => List.Sublist.refl _⟩
              obtain ⟨hsame, hsub⟩ := hmoved
              have hstore := storePriority_between k' p priority (k.proc p).priority
              refine ⟨⟨fun q => ?_, fun q => ?_, hstore.current.trans hsame.current, fun q hq => ?_⟩,
                (storePriority_outside _ _ _ _).trans hsame.outside⟩
              · rw [hstore.state q, hsame.proc]
              · rw [hstore.rsp q, hsame.proc]
              · rcases hstore.queued q hq with ⟨i, hi⟩ | ⟨rfl, hr⟩
                · exact .inl ⟨i, (hsub i).subset hi⟩
                · exact .inr ⟨hp, hsame.proc ▸ hr⟩

end TpSo
