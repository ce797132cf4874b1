import TpSo.Process.Effects

set_option autoImplicit false

/-! # Enqueuing when memory runs out

`scheduler_add_ready` and `sem_wait` ignore the result of their `queue_push`. This module says
exactly when the process they put away can be found again. After boot every level has its ready
queue, so one answer of the allocator decides. -/

namespace TpSo

/-! ## The ready queues exist -/

theorem queueRemoveAll_ne_none {q : Queue Addr} (hq : q ≠ none) (p : Addr) :
    queueRemoveAll q p ≠ none := by
  unfold queueRemoveAll
  simpa using hq

theorem queuePush_ne_none {k : Kernel} {q : Queue Addr} (hq : q ≠ none) (p : Addr) :
    (queuePush k q p).2.1 ≠ none := by
  rcases queuePush_queue k q p with h | ⟨xs, -, h⟩
  · rwa [h]
  · simp [h]

theorem queuePop_ne_none {q : Queue Addr} (hq : q ≠ none) : (queuePop q).2 ≠ none := by
  rcases queuePop_cases q with ⟨-, h, -⟩ | ⟨x, xs, -, h⟩
  · rwa [h]
  · simp [h]

/-- Every level has its queue object. -/
def HasQueues (k : Kernel) : Prop := ∀ i, k.readyQueues i ≠ none

namespace HasQueues

variable {k k' : Kernel}

theorem congr (h : HasQueues k) (hq : k'.readyQueues = k.readyQueues) : HasQueues k' := by
  intro i
  rw [hq]
  exact h i

theorem modProc (h : HasQueues k) (p : Addr) (f : Process → Process) : HasQueues (k.modProc p f) := h

theorem countTick (h : HasQueues k) : HasQueues (countTick k) := h

theorem setReady (h : HasQueues k) (i : Nat) {q : Queue Addr} (hq : q ≠ none) :
    HasQueues (k.setReady i q) := by
  intro j
  unfold Kernel.setReady
  by_cases hj : j = i
  · subst hj
    simpa using hq
  · simpa [Function.update_of_ne hj] using h j

theorem some_entries (h : HasQueues k) (i : Nat) : k.readyQueues i = some (entries k i) := by
  obtain ⟨xs, hxs⟩ := Option.ne_none_iff_exists'.mp (h i)
  rw [entries, hxs, Option.getD_some]

/-- No queue has to be created. -/
theorem queueForPriority (h : HasQueues k) (priority : Nat) :
    queueForPriority k priority = k := by
  unfold TpSo.queueForPriority
  rw [h.some_entries]

end HasQueues

theorem pushReady_hasQueues {k : Kernel} (h : HasQueues k) (priority : Nat) (p : Addr) :
    HasQueues (pushReady k priority p) := by
  unfold pushReady
  rw [h.queueForPriority]
  have hpush : HasQueues (queuePush k (k.readyQueues (priorityIndex priority)) p).2.2 := by
    refine h.congr ?_
    rw [queuePush_kernel]
  exact hpush.setReady _ (queuePush_ne_none (h _) p)

theorem leaveReady_hasQueues {k : Kernel} (h : HasQueues k) (p : Addr) :
    HasQueues (leaveReady k p) := by
  unfold leaveReady
  split
  · unfold schedulerRemoveReady
    split
    · exact h
    · exact fun i => queueRemoveAll_ne_none (h i) p
  · exact h

theorem schedulerAddReady_hasQueues {k : Kernel} (h : HasQueues k) (p : Addr) :
    HasQueues (schedulerAddReady k p) := by
  rw [schedulerAddReady_eq]
  refine pushReady_hasQueues ?_ _ p
  exact (leaveReady_hasQueues h p).congr rfl

theorem processBlock_hasQueues {k : Kernel} (h : HasQueues k) (p : Addr) :
    HasQueues (processBlock k p).2 := by
  rw [processBlock_eq]
  split
  · exact h
  · exact (leaveReady_hasQueues h p).congr rfl

theorem processUnblock_hasQueues {k : Kernel} (h : HasQueues k) (p : Addr) :
    HasQueues (processUnblock k p).2 := by
  unfold processUnblock
  split
  · exact h
  · exact schedulerAddReady_hasQueues h p

theorem exitFirstHalf_hasQueues {k : Kernel} (h : HasQueues k) (p : Addr) :
    HasQueues (exitFirstHalf k p).2 := by
  rw [exitFirstHalf_eq]
  have hleft : HasQueues ((leaveReady k p).setState p .terminated) :=
    (leaveReady_hasQueues h p).congr rfl
  refine hleft.congr ?_
  unfold passForeground
  have hf := (adoptOrphanChildren_family ((leaveReady k p).setState p .terminated) p).kernel
  split <;> rw [hf]

theorem transfer_isSome {k : Kernel} {q : Queue Addr} (hq : q ≠ none) (xs : List Addr) :
    (transfer k q xs).1 ≠ none := by
  induction xs generalizing k q with
  | nil => exact hq
  | cons x rest ih => exact ih (queuePush_ne_none hq x)

theorem purgeLevel_hasQueues {k k' : Kernel} (h : HasQueues k) {p : Addr} {oldPriority : Nat}
    (hk : purgeLevel k p oldPriority = some k') : HasQueues k' := by
  unfold purgeLevel at hk
  simp only [h.queueForPriority] at hk
  split at hk
  · cases hk
  · cases hk
    refine HasQueues.setReady ?_ _ (transfer_isSome ?_ _)
    · refine h.congr ?_
      rw [transfer_kernel, transfer_kernel]
      rfl
    · simpa using h _

theorem storePriority_hasQueues {k : Kernel} (h : HasQueues k) (p : Addr)
    (priority oldPriority : Nat) : HasQueues (storePriority k p priority oldPriority) := by
  have hmove : HasQueues (enqueueMoved (k.modProc p (priorityFields priority)) p oldPriority) := by
    unfold enqueueMoved
    split
    · exact pushReady_hasQueues (h.modProc p _) _ p
    · exact h.modProc p _
  unfold storePriority refreshQuantum
  split
  · exact hmove.modProc p _
  · exact hmove

theorem schedulerSetProcessPriority_hasQueues {k : Kernel} (h : HasQueues k) (pid priority : Nat) :
    HasQueues (schedulerSetProcessPriority k pid priority).2 := by
  unfold schedulerSetProcessPriority
  split
  · exact h
  · split
    · exact h
    · next p _ =>
      repeat (split; exact h)
      dsimp only
      split
      · rw [h.queueForPriority]
        exact h.congr rfl
      · next k' hk =>
        refine storePriority_hasQueues ?_ p priority _
        split at hk
        · exact purgeLevel_hasQueues h hk
        · cases hk
          exact h

/-! ## A tick -/

theorem ageLevel_hasQueues (priority items : Nat) :
    ∀ {k : Kernel}, HasQueues k → HasQueues (ageLevel k priority items) := by
  induction items with
  | zero => exact fun h => h
  | succ items ih =>
      intro k h
      unfold ageLevel
      have hpop := queuePop_ne_none (h (priorityIndex priority))
      split
      · exact h
      · next p q hq =>
        rw [hq] at hpop
        have hk := h.setReady (priorityIndex priority) hpop
        dsimp only
        split
        · have haged : HasQueues (agePromote (k.setReady (priorityIndex priority) q) p) :=
            hk.modProc p _
          exact ih (pushReady_hasQueues haged _ p)
        · have hpush : HasQueues (queuePush (k.setReady (priorityIndex priority) q)
              ((k.setReady (priorityIndex priority) q).readyQueues (priorityIndex priority)) p).2.2 := by
            refine hk.congr ?_
            rw [queuePush_kernel]
          exact ih (hpush.setReady _ (queuePush_ne_none (hk _) p))

theorem schedulerAgeReady_hasQueues {k : Kernel} (h : HasQueues k) :
    HasQueues (schedulerAgeReady k) := by
  unfold schedulerAgeReady
  refine List.foldlRecOn _ _ h fun k h priority _ => ?_
  refine ageLevel_hasQueues _ _ ?_
  rwa [h.queueForPriority]

theorem pickNext_hasQueues (levels : List Nat) :
    ∀ {k : Kernel}, HasQueues k → HasQueues (pickNext k levels).2 := by
  induction levels with
  | nil => exact fun h => h
  | cons priority rest ih =>
      intro k h
      unfold pickNext
      rw [h.queueForPriority]
      have hk := h.setReady (priorityIndex priority) (queuePop_ne_none (h (priorityIndex priority)))
      dsimp only
      split
      · exact ih hk
      · split
        · split
          · exact ih (hk.congr rfl)
          · exact hk
        · exact ih hk

theorem tickRunning_hasQueues {k : Kernel} (h : HasQueues k) (rsp : Nat) :
    HasQueues (tickRunning k rsp).2 := by
  cases hc : k.current with
  | none => simpa only [tickRunning, hc] using h
  | some c =>
      rw [tickRunning_eq hc]
      have hsaved : HasQueues (saveRsp k c rsp) := h.congr rfl
      split
      · exact hsaved.congr rfl
      · split
        · exact hsaved.congr rfl
        · split
          · exact hsaved.congr rfl
          · exact (schedulerAddReady_hasQueues hsaved c).congr rfl

theorem processSetRunning_readyQueues (k : Kernel) (p : Option Addr) :
    (processSetRunning k p).readyQueues = k.readyQueues := by
  cases p <;> rfl

theorem dispatch_hasQueues {k : Kernel} (h : HasQueues k) (n : Addr) : HasQueues (dispatch k n) := h

theorem dispatchIdle_hasQueues {k : Kernel} (h : HasQueues k) (rsp : Nat) :
    HasQueues (dispatchIdle k rsp).2 := by
  unfold dispatchIdle
  split <;> exact h

theorem scheduleTick_hasQueues {k : Kernel} (h : HasQueues k) (rsp : Nat) :
    HasQueues (scheduleTick k rsp).2 := by
  have hleft : HasQueues (tickRunning (countTick k) rsp).2 := tickRunning_hasQueues h.countTick rsp
  have hpick : HasQueues (pickNext (beforePick k rsp) levels).2 :=
    pickNext_hasQueues levels (schedulerAgeReady_hasQueues hleft)
  rw [scheduleTick_eq]
  split
  · split
    · next n _ => exact dispatch_hasQueues hpick n
    · exact dispatchIdle_hasQueues hpick rsp
  · exact hleft.congr (processSetRunning_readyQueues _ _)

/-! ## Who can be found again -/

/-- `queue_push` on a queue that exists: the node decides. -/
theorem mem_queuePush_iff {k : Kernel} {q : Queue Addr} {p : Addr} :
    p ∈ (queuePush k q p).2.1.getD [] ↔ q ≠ none ∧ k.allocOk = true ∨ p ∈ q.getD [] := by
  cases q with
  | none => simp [queuePush]
  | some xs =>
      cases hok : k.allocOk with
      | true => simp [queuePush_ok k xs p hok]
      | false => simp [queuePush_fail k xs p hok]

theorem queued_pushReady_iff {k : Kernel} (h : HasQueues k) (priority : Nat) (p : Addr) :
    Queued (pushReady k priority p) p ↔ k.allocOk = true ∨ Queued k p := by
  have hent : ∀ i, entries (pushReady k priority p) i = if i = priorityIndex priority then
      (queuePush k (k.readyQueues i) p).2.1.getD [] else entries k i := by
    intro i
    unfold pushReady
    rw [h.queueForPriority, entries_setReady]
    split
    · next hi => rw [hi]
    · rw [entries, queuePush_kernel]
      rfl
  constructor
  · rintro ⟨i, hi⟩
    rw [hent i] at hi
    split at hi
    · exact (mem_queuePush_iff.mp hi).imp (fun h => h.2) fun h => ⟨i, h⟩
    · exact .inr ⟨i, hi⟩
  · rintro (hok | ⟨i, hi⟩)
    · refine ⟨priorityIndex priority, ?_⟩
      rw [hent, if_pos rfl, mem_queuePush_iff]
      exact .inl ⟨h _, hok⟩
    · refine ⟨i, ?_⟩
      rw [hent]
      split
      · exact mem_queuePush_iff.mpr (.inr hi)
      · exact hi

/-- A process leaves its ready queue only if it is `READY` and not idle. -/
theorem queued_leaveReady_iff {k : Kernel} {p : Addr} :
    Queued (leaveReady k p) p ↔ Queued k p ∧ ((k.proc p).state ≠ .ready ∨ k.idle = some p) := by
  unfold leaveReady
  by_cases hs : (k.proc p).state = .ready
  · rw [if_pos hs]
    by_cases hi : k.idle = some p
    · rw [schedulerRemoveReady, if_pos hi.symm]
      exact ⟨fun hq => ⟨hq, .inr hi⟩, fun hq => hq.1⟩
    · refine ⟨fun ⟨i, hq⟩ => absurd hq (schedulerRemoveReady_not_mem hi i), ?_⟩
      rintro ⟨-, hn | hn⟩
      · exact absurd hs hn
      · exact absurd hn hi
  · rw [if_neg hs]
    exact ⟨fun hq => ⟨hq, .inl hs⟩, fun hq => hq.1⟩

/-- **`scheduler_add_ready`** leaves the process in a ready queue exactly if the node could be
    allocated, or the process was in one and stayed there. -/
theorem queued_schedulerAddReady_iff {k : Kernel} (h : HasQueues k) (p : Addr) :
    Queued (schedulerAddReady k p) p ↔
      k.allocOk = true ∨ Queued k p ∧ ((k.proc p).state ≠ .ready ∨ k.idle = some p) := by
  have hok : (leaveReady k p).allocOk = k.allocOk := by
    unfold leaveReady
    split
    · unfold schedulerRemoveReady
      split <;> rfl
    · rfl
  have hleft := (leaveReady_hasQueues h p).modProc p (readyFields (leaveReady k p) p)
  rw [schedulerAddReady_eq, queued_pushReady_iff hleft, ← queued_leaveReady_iff, ← hok]
  exact Iff.rfl

end TpSo
