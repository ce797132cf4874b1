import TpSo.Library.Progress
import TpSo.Scheduler.Levels
import TpSo.Scheduler.Selection
import TpSo.Scheduler.SetPriority

set_option autoImplicit false

/-! # A process that waits while others act

What a call says about a process it is not made for: the process keeps its level and the time it is
waiting since, and on no level somebody gets in front of it. The quantum left to the current process
is part of this, since the waiting process waits for it too. -/

namespace TpSo

/-- The ticks the interrupted process goes on for before `schedule_tick` chooses another one. -/
def quantumLeft (k : Kernel) : Nat :=
  match k.current with
  | none => 0
  | some c =>
    if k.idle ≠ some c ∧ (k.proc c).state = .running then (k.proc c).remainingQuantum else 0

/-- Between `k` and `k'` nothing has happened to `p` but that others left the queues or came in behind
    it. -/
structure Unmoved (p : Addr) (k k' : Kernel) : Prop where
  priority : (k'.proc p).priority = (k.proc p).priority
  since : (k'.proc p).readySinceTick = (k.proc p).readySinceTick
  ticks : k'.totalTicks = k.totalTicks
  place : ∀ i, KeepsPlace p (entries k i) (entries k' i)
  left : quantumLeft k' ≤ quantumLeft k

/-- Who is current keeps its quantum or stops running. -/
theorem quantumLeft_le {k k' : Kernel} (hc : k'.current = k.current) (hi : k'.idle = k.idle)
    (h : ∀ c, k.current = some c → (k'.proc c).state = .running →
      (k.proc c).state = .running ∧ (k'.proc c).remainingQuantum ≤ (k.proc c).remainingQuantum) :
    quantumLeft k' ≤ quantumLeft k := by
  unfold quantumLeft
  rw [hc, hi]
  cases hcur : k.current with
  | none => exact le_rfl
  | some c =>
      dsimp only
      split
      · next hrun =>
        obtain ⟨hrunning, hle⟩ := h c hcur hrun.2
        rw [if_pos ⟨hrun.1, hrunning⟩]
        exact hle
      · exact Nat.zero_le _

namespace Unmoved

variable {p : Addr} {k k' k'' : Kernel}

theorem refl (p : Addr) (k : Kernel) : Unmoved p k k :=
  ⟨rfl, rfl, rfl, fun _ => .refl p _, le_rfl⟩

theorem trans (h : Unmoved p k k') (h' : Unmoved p k' k'') : Unmoved p k k'' where
  priority := h'.priority.trans h.priority
  since := h'.since.trans h.since
  ticks := h'.ticks.trans h.ticks
  place i := (h.place i).trans (h'.place i)
  left := h'.left.trans h.left

/-- Only the queues change. -/
theorem of_same (h : SameButQueues k k') (hp : ∀ i, KeepsPlace p (entries k i) (entries k' i)) :
    Unmoved p k k' where
  priority := by rw [h.proc]
  since := by rw [h.proc]
  ticks := h.totalTicks
  place := hp
  left := by
    refine quantumLeft_le h.current h.idle fun c _ hr => ?_
    rw [h.proc] at hr ⊢
    exact ⟨hr, le_rfl⟩

/-- A write to another process, which does not make it run or prolong its quantum. -/
theorem modProc {q : Addr} (hqp : p ≠ q) (f : Process → Process)
    (hf : (f (k.proc q)).state = .running → k.current = some q →
      (k.proc q).state = .running ∧ (f (k.proc q)).remainingQuantum ≤ (k.proc q).remainingQuantum) :
    Unmoved p k (k.modProc q f) where
  priority := congrArg Process.priority (Function.update_of_ne hqp ..)
  since := congrArg Process.readySinceTick (Function.update_of_ne hqp ..)
  ticks := rfl
  place i := .refl p _
  left := by
    refine quantumLeft_le rfl rfl fun c hc hr => ?_
    by_cases hcq : c = q
    · subst hcq
      simp only [Kernel.modProc, Function.update_self] at hr ⊢
      exact hf hr hc
    · simp only [Kernel.modProc, Function.update_of_ne hcq] at hr ⊢
      exact ⟨hr, le_rfl⟩

theorem setState {q : Addr} (hqp : p ≠ q) {state : ProcessState} (hs : state ≠ .running) :
    Unmoved p k (k.setState q state) :=
  .modProc hqp _ fun hr => absurd hr hs

/-! ## Queue operations -/

theorem pushReady (k : Kernel) (priority : Nat) (p q : Addr) :
    Unmoved p k (pushReady k priority q) := by
  refine .of_same (pushReady_same k priority q) fun i => ?_
  rcases entries_pushReady k priority q with he | he
  · rw [he i]
    exact .refl p _
  · rw [he i]
    split
    · exact .append p _ _
    · exact .refl p _

theorem leaveReady (k : Kernel) {q : Addr} (hqp : p ≠ q) : Unmoved p k (leaveReady k q) := by
  refine .of_same (leaveReady_same k q) fun i => ?_
  unfold TpSo.leaveReady
  split
  · by_cases hidle : k.idle = some q
    · rw [schedulerRemoveReady, if_pos hidle.symm]
      exact .refl p _
    · rw [entries_schedulerRemoveReady hidle i]
      exact .filter_ne hqp _
  · exact .refl p _

theorem leave (k : Kernel) {q : Addr} (hqp : p ≠ q) {state : ProcessState} (hs : state ≠ .running) :
    Unmoved p k ((TpSo.leaveReady k q).setState q state) :=
  (leaveReady k hqp).trans (.setState hqp hs)

theorem schedulerAddReady (k : Kernel) {q : Addr} (hqp : p ≠ q) :
    Unmoved p k (schedulerAddReady k q) := by
  rw [schedulerAddReady_eq]
  refine (leaveReady k hqp).trans (.trans ?_ (pushReady _ _ p q))
  exact .modProc hqp _ fun hr => ProcessState.noConfusion hr

/-! ## Calls for somebody else -/

theorem processBlock (k : Kernel) {q : Addr} (hqp : p ≠ q) : Unmoved p k (processBlock k q).2 := by
  rw [processBlock_eq]
  split
  · exact refl p k
  · exact leave k hqp (by decide)

theorem processUnblock (k : Kernel) {q : Addr} (hqp : p ≠ q) :
    Unmoved p k (processUnblock k q).2 := by
  unfold TpSo.processUnblock
  split
  · exact refl p k
  · exact schedulerAddReady k hqp

theorem family (h : FamilyOnly k k') : Unmoved p k k' where
  priority := by rw [h.proc p]
  since := by rw [h.proc p]
  ticks := by rw [h.kernel]
  place i := by
    rw [h.kernel]
    exact .refl p _
  left := by
    refine quantumLeft_le (by rw [h.kernel]) (by rw [h.kernel]) fun c _ hr => ?_
    rw [h.proc c] at hr ⊢
    exact ⟨hr, le_rfl⟩

theorem exitFirstHalf (k : Kernel) {q : Addr} (hqp : p ≠ q) :
    Unmoved p k (exitFirstHalf k q).2 := by
  rw [exitFirstHalf_eq, passForeground_eq]
  have hleft : Unmoved p k ((TpSo.leaveReady k q).setState q .terminated) := leave k hqp (by decide)
  have hadopted := hleft.trans (family (adoptOrphanChildren_family _ q))
  exact ⟨hadopted.priority, hadopted.since, hadopted.ticks, hadopted.place, hadopted.left⟩

/-- **`scheduler_set_process_priority`**, called neither for the process that waits nor for the one
    that runs. -/
theorem schedulerSetProcessPriority (hl : Lossless k) (hpl : Placed k) (pid priority : Nat)
    (hp : processLookup k pid ≠ some p) (hc : ∀ c, k.current = some c → processLookup k pid ≠ some c) :
    Unmoved p k (schedulerSetProcessPriority k pid priority).2 := by
  -- what an accepted call does, whether or not it moves its target
  have hset : ∀ {k' : Kernel} {q : Addr}, q ≠ p → k.current ≠ some q →
      PrioritySet k k' q priority → Unmoved p k k' := by
    intro k' q hqp hcur hset
    refine ⟨?_, ?_, ?_, fun i => ?_, ?_⟩
    · rw [hset.processes p hqp.symm]
    · rw [hset.processes p hqp.symm]
    · rw [hset.rest]
    · by_cases hmove : changesLevel k q priority
      · rw [hset.moved hmove i]
        exact (KeepsPlace.filter_ne hqp.symm _).trans (.append p _ _)
      · rw [hset.stayed hmove i]
        exact .refl p _
    · refine quantumLeft_le (by rw [hset.rest]) (by rw [hset.rest]) fun c hcc hr => ?_
      have hcq : c ≠ q := fun he => hcur (he ▸ hcc)
      rw [hset.processes c hcq] at hr ⊢
      exact ⟨hr, le_rfl⟩
  unfold TpSo.schedulerSetProcessPriority
  split
  · exact refl p k
  · next hle =>
    split
    · exact refl p k
    · next q hq =>
      have hqp : q ≠ p := fun he => hp (he ▸ hq)
      have hcur : k.current ≠ some q := fun he => hc q he hq
      split
      · exact refl p k
      · split
        · exact refl p k
        · next hidle =>
          split
          · exact refl p k
          · dsimp only
            by_cases hmove : changesLevel k q priority
            · rw [if_pos (show (k.proc q).state = .ready ∧ priority ≠ (k.proc q).priority from hmove),
                purgeLevel_of_memory hl.queues q (k.proc q).priority rfl fun j _ => hl.memory _,
                if_pos hl.allocOk]
              refine hset hqp hcur ?_
              exact prioritySet_moved hl.queues hpl (fun hi => hidle hi.symm) (Nat.le_of_not_lt hle)
                hmove (hl.memory _)
            · rw [if_neg (show ¬ ((k.proc q).state = .ready ∧ priority ≠ (k.proc q).priority) from hmove)]
              exact hset hqp hcur (prioritySet_stayed hl.queues hmove)

end Unmoved

end TpSo
