import TpSo.Process.Family

set_option autoImplicit false

/-! # Where the scheduler keeps each process

The placement invariant of the ready queues, and that every operation of the scheduler and of
`process_block`, `process_unblock` and `process_exit` keeps it, whatever the allocator answers. -/

namespace TpSo

/-- The idle process is exempt: it is blocked, unblocked and enqueued like any other, but dispatched
    without regard to the queues. -/
structure Placed (k : Kernel) : Prop where
  /-- An entry is `READY` and sits in the queue of its own priority. -/
  entry : ∀ i p, p ∈ entries k i → k.idle ≠ some p →
    (k.proc p).state = .ready ∧ i = priorityIndex (k.proc p).priority
  /-- No entry occurs twice. -/
  once : ∀ i p, k.idle ≠ some p → (entries k i).count p ≤ 1
  /-- The process that runs is the current one. -/
  running : ∀ p, (k.proc p).state = .running → k.current = some p

namespace Placed

variable {k k' : Kernel}

/-- A process that is not `READY` is in no queue. -/
theorem not_mem (h : Placed k) {p : Addr} (hi : k.idle ≠ some p) (hs : (k.proc p).state ≠ .ready)
    (i : Nat) : p ∉ entries k i :=
  fun hm => hs (h.entry i p hm hi).1

/-- Dropping entries keeps the invariant. -/
theorem shrink (h : Placed k) (hp : k'.proc = k.proc) (hi : k'.idle = k.idle)
    (hc : k'.current = k.current) (hq : ∀ i, (entries k' i).Sublist (entries k i)) : Placed k' where
  entry i p hm hne := by
    rw [hp]
    exact h.entry i p ((hq i).subset hm) (hi ▸ hne)
  once i p hne := Nat.le_trans ((hq i).count_le p) (h.once i p (hi ▸ hne))
  running p hr := by
    rw [hc]
    exact h.running p (hp ▸ hr)

/-- The same processes in the same queues. -/
theorem congr (h : Placed k) (hp : k'.proc = k.proc) (hi : k'.idle = k.idle)
    (hc : k'.current = k.current) (hq : ∀ i, entries k' i = entries k i) : Placed k' :=
  h.shrink hp hi hc fun i => hq i ▸ List.Sublist.refl _

/-- Writing to a process that is in no queue keeps the invariant, unless it starts to run. -/
theorem modProc (h : Placed k) (p : Addr) (f : Process → Process)
    (hq : k.idle ≠ some p → ∀ i, p ∉ entries k i)
    (hr : (f (k.proc p)).state = .running → k.current = some p) : Placed (k.modProc p f) where
  entry i q hm hne := by
    have hqp : q ≠ p := by
      rintro rfl
      exact hq hne i hm
    simp only [Kernel.modProc, Function.update_of_ne hqp]
    exact h.entry i q hm hne
  once i q hne := h.once i q hne
  running q hq := by
    by_cases hqp : q = p
    · subst hqp
      simp only [Kernel.modProc, Function.update_self] at hq
      exact hr hq
    · simp only [Kernel.modProc, Function.update_of_ne hqp] at hq
      exact h.running q hq

/-- A process that is in no queue may become anything but `RUNNING`. -/
theorem setState (h : Placed k) (p : Addr) {state : ProcessState}
    (hq : k.idle ≠ some p → ∀ i, p ∉ entries k i) (hr : state ≠ .running) :
    Placed (k.setState p state) :=
  h.modProc p _ hq fun hs => absurd hs hr

/-- Writing fields that placement does not depend on. -/
theorem modProc_same (h : Placed k) (p : Addr) (f : Process → Process)
    (hs : (f (k.proc p)).state = (k.proc p).state)
    (hr : (f (k.proc p)).priority = (k.proc p).priority) : Placed (k.modProc p f) where
  entry i q hm hne := by
    have h' := h.entry i q hm hne
    by_cases hqp : q = p
    · subst hqp
      simp only [Kernel.modProc, Function.update_self, hs, hr]
      exact h'
    · simp only [Kernel.modProc, Function.update_of_ne hqp]
      exact h'
  once i q hne := h.once i q hne
  running q hq := by
    refine h.running q ?_
    by_cases hqp : q = p
    · subst hqp
      simpa only [Kernel.modProc, Function.update_self, hs] using hq
    · simpa only [Kernel.modProc, Function.update_of_ne hqp] using hq

/-- Enqueueing a `READY` process that is in no queue keeps the invariant. -/
theorem push (h : Placed k) (priority : Nat) (p : Addr)
    (hp : k.idle ≠ some p → (k.proc p).state = .ready ∧
      priorityIndex priority = priorityIndex (k.proc p).priority ∧ ∀ i, p ∉ entries k i) :
    Placed (pushReady k priority p) := by
  have hsame := pushReady_same k priority p
  rcases entries_pushReady k priority p with hq | hq
  · exact h.congr hsame.proc hsame.idle hsame.current hq
  · refine ⟨fun i q hm hne => ?_, fun i q hne => ?_, fun q hr => ?_⟩
    · rw [hsame.idle] at hne
      rw [hsame.proc]
      rw [hq i] at hm
      split at hm
      · next hi =>
        rcases List.mem_append.mp hm with hm | hm
        · exact h.entry i q hm hne
        · rw [List.mem_singleton.mp hm] at hne ⊢
          exact ⟨(hp hne).1, hi.trans (hp hne).2.1⟩
      · exact h.entry i q hm hne
    · rw [hsame.idle] at hne
      rw [hq i]
      split
      · rw [List.count_append]
        by_cases hqp : q = p
        · subst hqp
          rw [List.count_eq_zero.mpr ((hp hne).2.2 i), List.count_singleton_self]
        · rw [List.count_eq_zero.mpr (fun hm => hqp (List.mem_singleton.mp hm)), Nat.add_zero]
          exact h.once i q hne
      · exact h.once i q hne
    · rw [hsame.current]
      exact h.running q (hsame.proc ▸ hr)

end Placed

/-! ## Aging -/

/-- The state of each process, without the fields that aging writes. -/
theorem agePromote_state (k : Kernel) (p q : Addr) :
    ((agePromote k p).proc q).state = (k.proc q).state := by
  by_cases h : q = p
  · subst h
    simp only [agePromote, Kernel.modProc, Function.update_self]
  · simp only [agePromote, Kernel.modProc, Function.update_of_ne h]

/-- Taking the head of a queue off. -/
theorem entries_pop {k : Kernel} {i : Nat} {p : Addr} {rest : List Addr}
    (h : k.readyQueues i = some (p :: rest)) (j : Nat) :
    (entries (k.setReady i (some rest)) j).Sublist (entries k j) := by
  rw [entries_setReady]
  split
  · next hj => rw [hj, entries, h]; exact List.sublist_cons_self p rest
  · exact List.Sublist.refl _

/-- A head that was taken off is in no queue. -/
theorem Placed.pop_not_mem {k : Kernel} (h : Placed k) {i : Nat} {p : Addr} {rest : List Addr}
    (hq : k.readyQueues i = some (p :: rest)) (hi : k.idle ≠ some p) (j : Nat) :
    p ∉ entries (k.setReady i (some rest)) j := by
  have hent : entries k i = p :: rest := by rw [entries, hq]; rfl
  have hmem : p ∈ entries k i := by rw [hent]; exact List.mem_cons_self
  rw [entries_setReady]
  split
  · have hcount := h.once i p hi
    rw [hent, List.count_cons_self] at hcount
    exact List.count_eq_zero.mp (Nat.le_zero.mp (Nat.le_of_succ_le_succ hcount))
  · next hj =>
    intro hm
    exact hj ((h.entry j p hm hi).2.trans (h.entry i p hmem hi).2.symm)

/-- Putting the head of a queue back at its end. -/
theorem Placed.rotate {k : Kernel} (h : Placed k) {i : Nat} {p : Addr} {rest : List Addr}
    (hq : k.readyQueues i = some (p :: rest)) :
    Placed ((queuePush (k.setReady i (some rest)) (some rest) p).2.2.setReady i
      (queuePush (k.setReady i (some rest)) (some rest) p).2.1) := by
  have hent : entries k i = p :: rest := by rw [entries, hq]; rfl
  have hset : ∀ j, j ≠ i → entries (k.setReady i (some rest)) j = entries k j := fun j hj => by
    rw [entries_setReady, if_neg hj]
  have hk := queuePush_kernel (k.setReady i (some rest)) (some rest) p
  rcases entries_queuePush (k.setReady i (some rest)) i rest p with hr | hr
  · refine h.shrink (by rw [hk]; rfl) (by rw [hk]; rfl) (by rw [hk]; rfl) fun j => ?_
    rw [hr j]
    split
    · next hj => rw [hj, hent]; exact List.sublist_cons_self p rest
    · next hj => exact hset j hj ▸ List.Sublist.refl _
  · refine ⟨fun j q hm hne => ?_, fun j q hne => ?_, fun q => ?_⟩
    · rw [hk] at hne ⊢
      refine h.entry j q ?_ hne
      rw [hr j] at hm
      split at hm
      · next hj =>
        rw [hj, hent]
        exact List.mem_append.mp hm |>.elim (List.mem_cons_of_mem _)
          fun hm => List.mem_singleton.mp hm ▸ List.mem_cons_self
      · next hj => rwa [hset j hj] at hm
    · rw [hk] at hne
      rw [hr j]
      split
      · next hj =>
        have hc := h.once i q hne
        rw [hent, List.count_cons] at hc
        rw [List.count_append, List.count_cons, List.count_nil]
        omega
      · next hj => rw [hset j hj]; exact h.once j q hne
    · rw [hk]
      exact h.running q

/-- **Aging keeps the placement.** Each turn of the loop takes one process off the level; a promoted
    one goes to the queue of its new priority, any other back to where it was. -/
theorem ageLevel_placed (priority : Nat) :
    ∀ (items : Nat) (k : Kernel), Placed k → Placed (ageLevel k priority items) := by
  intro items
  induction items with
  | zero => exact fun k h => h
  | succ items ih =>
      intro k h
      unfold ageLevel
      rcases queuePop_cases (k.readyQueues (priorityIndex priority)) with ⟨hp, -, -⟩ | ⟨p, rest, hq, hp⟩
      · rw [show queuePop (k.readyQueues (priorityIndex priority)) = (none, _) from Prod.ext hp rfl]
        exact h
      · rw [hp]
        dsimp only
        split
        · next hage =>
          refine ih _ (Placed.push ?_ _ p ?_)
          · -- the promoted process is in no queue, so its new priority disturbs nothing
            have hpop : Placed (k.setReady (priorityIndex priority) (some rest)) :=
              h.shrink rfl rfl rfl (entries_pop hq)
            exact hpop.modProc p _ (fun hi => h.pop_not_mem hq hi) fun hr => h.running p hr
          · intro hi
            refine ⟨(agePromote_state _ p p).trans hage.1, rfl, fun i => ?_⟩
            exact h.pop_not_mem hq hi i
        · rw [show (k.setReady (priorityIndex priority) (some rest)).readyQueues
            (priorityIndex priority) = some rest from Function.update_self ..]
          exact ih _ (h.rotate hq)

/-- One pass of `scheduler_age_ready` keeps the placement. -/
theorem schedulerAgeReady_placed {k : Kernel} (h : Placed k) : Placed (schedulerAgeReady k) := by
  unfold schedulerAgeReady
  refine List.foldlRecOn [1, 2, 3, 4, 5] _ h fun k hk priority _ => ?_
  have hsame := queueForPriority_same k priority
  exact ageLevel_placed _ _ _ (hk.congr hsame.proc hsame.idle hsame.current
    (entries_queueForPriority k priority))

/-! ## `scheduler_remove_ready` and `scheduler_add_ready` -/

/-- `scheduler_remove_ready` takes the process out of every queue. -/
theorem entries_schedulerRemoveReady {k : Kernel} {p : Addr} (hi : k.idle ≠ some p) (i : Nat) :
    entries (schedulerRemoveReady k p) i = (entries k i).filter (fun q => decide (q ≠ p)) := by
  unfold schedulerRemoveReady
  rw [if_neg (fun h => hi h.symm)]
  simp only [entries, queueRemoveAll]
  cases k.readyQueues i <;> rfl

theorem schedulerRemoveReady_same (k : Kernel) (p : Addr) :
    SameButQueues k (schedulerRemoveReady k p) := by
  unfold schedulerRemoveReady
  split <;> rfl

theorem schedulerRemoveReady_not_mem {k : Kernel} {p : Addr} (hi : k.idle ≠ some p) (i : Nat) :
    p ∉ entries (schedulerRemoveReady k p) i := by
  rw [entries_schedulerRemoveReady hi]
  simp

theorem entries_schedulerRemoveReady_sublist (k : Kernel) (p : Addr) (i : Nat) :
    (entries (schedulerRemoveReady k p) i).Sublist (entries k i) := by
  by_cases hi : k.idle = some p
  · rw [show schedulerRemoveReady k p = k from if_pos hi.symm]
  · rw [entries_schedulerRemoveReady hi]
    exact List.filter_sublist

theorem schedulerRemoveReady_placed {k : Kernel} (h : Placed k) (p : Addr) :
    Placed (schedulerRemoveReady k p) :=
  have hsame := schedulerRemoveReady_same k p
  h.shrink hsame.proc hsame.idle hsame.current (entries_schedulerRemoveReady_sublist k p)

/-- The test with which `scheduler_add_ready`, `process_block` and `process_exit` begin: a `READY`
    process leaves its queue. -/
def leaveReady (k : Kernel) (p : Addr) : Kernel :=
  if (k.proc p).state = .ready then schedulerRemoveReady k p else k

theorem leaveReady_same (k : Kernel) (p : Addr) : SameButQueues k (leaveReady k p) := by
  unfold leaveReady
  split
  · exact schedulerRemoveReady_same k p
  · exact SameButQueues.refl k

theorem leaveReady_placed {k : Kernel} (h : Placed k) (p : Addr) : Placed (leaveReady k p) := by
  unfold leaveReady
  split
  · exact schedulerRemoveReady_placed h p
  · exact h

/-- After that test no process other than idle is in a queue, whatever its state was. -/
theorem Placed.leaveReady_not_mem {k : Kernel} (h : Placed k) {p : Addr} (hi : k.idle ≠ some p)
    (i : Nat) : p ∉ entries (leaveReady k p) i := by
  unfold leaveReady
  split
  · exact schedulerRemoveReady_not_mem hi i
  · next hs => exact h.not_mem hi hs i

/-- `scheduler_add_ready` in terms of its three parts. -/
theorem schedulerAddReady_eq (k : Kernel) (p : Addr) :
    schedulerAddReady k p =
      pushReady ((leaveReady k p).modProc p (readyFields (leaveReady k p) p))
        (((leaveReady k p).modProc p (readyFields (leaveReady k p) p)).proc p).priority p := rfl

theorem schedulerAddReady_placed {k : Kernel} (h : Placed k) (p : Addr) :
    Placed (schedulerAddReady k p) := by
  rw [schedulerAddReady_eq]
  have hsame := leaveReady_same k p
  refine Placed.push ?_ _ p ?_
  · exact (leaveReady_placed h p).modProc p _
      (fun hi => h.leaveReady_not_mem (hsame.idle ▸ hi)) (fun hr => ProcessState.noConfusion hr)
  · intro hi
    refine ⟨?_, rfl, fun i => h.leaveReady_not_mem (hsame.idle ▸ hi) i⟩
    simp only [Kernel.modProc, Function.update_self, readyFields]

/-! ## `process_block`, `process_unblock` and `process_exit` -/

/-- Leaving the ready queues for a state other than `RUNNING` keeps the placement. -/
theorem Placed.leave {k : Kernel} (h : Placed k) (p : Addr) (state : ProcessState)
    (hr : state ≠ .running) : Placed ((leaveReady k p).setState p state) :=
  (leaveReady_placed h p).setState p
    (fun hi => h.leaveReady_not_mem ((leaveReady_same k p).idle ▸ hi)) hr

theorem processBlock_eq (k : Kernel) (p : Addr) :
    processBlock k p =
      if (k.proc p).state = .blocked then (false, k)
      else (true, (leaveReady k p).setState p .blocked) := rfl

theorem processBlock_placed {k : Kernel} (h : Placed k) (p : Addr) :
    Placed (processBlock k p).2 := by
  rw [processBlock_eq]
  split
  · exact h
  · exact h.leave p _ (by decide)

theorem processUnblock_placed {k : Kernel} (h : Placed k) (p : Addr) :
    Placed (processUnblock k p).2 := by
  unfold processUnblock
  split
  · exact h
  · exact schedulerAddReady_placed h p

/-- Placement does not depend on the family tree. -/
theorem FamilyOnly.placed {k k' : Kernel} (h : FamilyOnly k k') (hpl : Placed k) : Placed k' := by
  have hq : ∀ i, entries k' i = entries k i := fun i => by rw [h.kernel]; rfl
  have hidle : k'.idle = k.idle := by rw [h.kernel]
  have hcur : k'.current = k.current := by rw [h.kernel]
  refine ⟨fun i p hm hne => ?_, fun i p hne => ?_, fun p hr => ?_⟩
  · rw [h.proc p]
    exact hpl.entry i p (hq i ▸ hm) (hidle ▸ hne)
  · rw [hq i]
    exact hpl.once i p (hidle ▸ hne)
  · rw [hcur]
    exact hpl.running p (h.state p ▸ hr)

/-- The first half of `process_exit` in terms of its parts. -/
theorem exitFirstHalf_eq (k : Kernel) (p : Addr) :
    (exitFirstHalf k p).2 =
      passForeground (adoptOrphanChildren ((leaveReady k p).setState p .terminated) p) p := rfl

theorem exitFirstHalf_placed {k : Kernel} (h : Placed k) (p : Addr) :
    Placed (exitFirstHalf k p).2 := by
  rw [exitFirstHalf_eq]
  have h' := (adoptOrphanChildren_family _ p).placed (h.leave p .terminated (by decide))
  unfold passForeground
  split
  · exact h'.congr rfl rfl rfl fun _ => rfl
  · exact h'

/-! ## `scheduler_set_process_priority` -/

/-- `transfer` only allocates. -/
theorem transfer_kernel (entries : List Addr) :
    ∀ (k : Kernel) (q : Queue Addr), (transfer k q entries).2 =
      { k with memCalls := (transfer k q entries).2.memCalls } := by
  induction entries with
  | nil => exact fun k q => rfl
  | cons entry rest ih =>
      intro k q
      unfold transfer
      rw [ih, queuePush_kernel]

/-- What arrives in the queue is part of what was to be moved, in order. -/
theorem transfer_queue (entries : List Addr) :
    ∀ (k : Kernel) (q : Queue Addr),
      ((transfer k q entries).1.getD []).Sublist (q.getD [] ++ entries) := by
  induction entries with
  | nil => exact fun k q => by simp [transfer]
  | cons entry rest ih =>
      intro k q
      unfold transfer
      refine (ih _ _).trans ?_
      rcases queuePush_queue k q entry with h | ⟨xs, hxs, h⟩
      · rw [h]
        exact (List.sublist_cons_self entry rest).append_left _
      · rw [h, hxs]
        simp

/-- The purge leaves the process in no queue, and moves nothing else between queues. -/
theorem purgeLevel_spec {k k' : Kernel} {p : Addr} {oldPriority : Nat}
    (h : purgeLevel k p oldPriority = some k') :
    SameButQueues k k' ∧ (∀ i, (entries k' i).Sublist (entries k i)) ∧
      p ∉ entries k' (priorityIndex oldPriority) := by
  unfold purgeLevel at h
  dsimp only at h
  split at h
  · exact absurd h (by simp)
  · rename_i hbuf
    set k1 := queueForPriority k oldPriority with hk1
    set buffer := queueCreate Addr k1 with hbuffer
    set kept := ((k1.readyQueues (priorityIndex oldPriority)).getD []).filter
      (fun e => decide (e ≠ p)) with hkept
    set toBuffer := transfer buffer.2 buffer.1 kept with htoBuffer
    set back := transfer toBuffer.2 ((k1.readyQueues (priorityIndex oldPriority)).map (fun _ => []))
      (toBuffer.1.getD []) with hback
    have hk' : k' = back.2.setReady (priorityIndex oldPriority) back.1 := (Option.some.inj h).symm
    have hentries : entries k1 (priorityIndex oldPriority) =
        (k1.readyQueues (priorityIndex oldPriority)).getD [] := rfl
    -- both transfers lose entries when an allocation fails, so this is no equality
    have hsub : (back.1.getD []).Sublist kept := by
      have h1 := transfer_queue (toBuffer.1.getD []) toBuffer.2
        ((k1.readyQueues (priorityIndex oldPriority)).map (fun _ => []))
      have h2 := transfer_queue kept buffer.2 buffer.1
      have hnil : ((k1.readyQueues (priorityIndex oldPriority)).map
          (fun _ => ([] : List Addr))).getD [] = [] := by
        cases k1.readyQueues (priorityIndex oldPriority) <;> rfl
      have hnil' : buffer.1.getD [] = [] := by
        rw [hbuffer, queueCreate]
        split <;> rfl
      rw [hnil, List.nil_append] at h1
      rw [hnil', List.nil_append] at h2
      exact h1.trans h2
    have hsame : SameButQueues k1 back.2 := by
      have hb := transfer_kernel (toBuffer.1.getD []) toBuffer.2
        ((k1.readyQueues (priorityIndex oldPriority)).map (fun _ => []))
      have ht := transfer_kernel kept buffer.2 buffer.1
      rw [← htoBuffer] at ht
      rw [← hback, ht] at hb
      rw [hb]
      rfl
    have hq : ∀ i, entries back.2 i = entries k i := fun i => by
      have hb := transfer_kernel (toBuffer.1.getD []) toBuffer.2
        ((k1.readyQueues (priorityIndex oldPriority)).map (fun _ => []))
      have ht := transfer_kernel kept buffer.2 buffer.1
      rw [← htoBuffer] at ht
      rw [← hback, ht] at hb
      rw [hb]
      exact entries_queueForPriority k oldPriority i
    have hlevel : kept = (entries k (priorityIndex oldPriority)).filter (fun e => decide (e ≠ p)) := by
      rw [hkept, ← hentries, hk1, entries_queueForPriority]
    refine ⟨?_, fun i => ?_, ?_⟩
    · rw [hk']
      exact ((queueForPriority_same k oldPriority).trans hsame).trans (SameButQueues.setReady _ _ _)
    · rw [hk', entries_setReady]
      split
      · next hi =>
        rw [hi]
        exact hsub.trans (hlevel ▸ List.filter_sublist)
      · rw [hq i]
    · rw [hk', entries_setReady, if_pos rfl]
      intro hm
      have := hsub.subset hm
      rw [hkept] at this
      simp at this

/-- No priority is below the highest one, so the shells' floor never bites. -/
theorem shellFloor_eq (p : Process) (priority : Nat) : shellFloor p priority = priority := by
  unfold shellFloor
  exact if_neg fun h => Nat.not_lt_zero _ h.2

/-- Storing a priority keeps the placement: the process is in no queue, or its priority stays. -/
theorem storePriority_placed {k : Kernel} (h : Placed k) {p : Addr} {priority oldPriority : Nat}
    (hi : k.idle ≠ some p)
    (hq : (k.proc p).state = .ready → priority ≠ oldPriority → ∀ i, p ∉ entries k i)
    (hold : oldPriority = (k.proc p).priority) :
    Placed (storePriority k p priority oldPriority) := by
  unfold storePriority
  have hp : ((k.modProc p (priorityFields priority)).proc p).priority = priority := by
    simp only [Kernel.modProc, Function.update_self]
    exact shellFloor_eq _ _
  have hstate : ((k.modProc p (priorityFields priority)).proc p).state = (k.proc p).state := by
    simp only [Kernel.modProc, Function.update_self]
    rfl
  have hstored : Placed (k.modProc p (priorityFields priority)) := by
    by_cases hs : (k.proc p).state = .ready
    · by_cases hne : priority = oldPriority
      · exact h.modProc_same p _ rfl ((shellFloor_eq _ _).trans (hne.trans hold))
      · exact h.modProc p _ (fun _ => hq hs hne) (fun hr => h.running p hr)
    · exact h.modProc p _ (fun _ => h.not_mem hi hs) (fun hr => h.running p hr)
  have hqueued : Placed (enqueueMoved (k.modProc p (priorityFields priority)) p oldPriority) := by
    unfold enqueueMoved
    split
    · next hc => exact hstored.push _ p fun _ => ⟨hc.1, rfl, hq (hstate ▸ hc.1) (hp ▸ hc.2)⟩
    · exact hstored
  unfold refreshQuantum
  split
  · exact hqueued.modProc_same p _ rfl rfl
  · exact hqueued

theorem schedulerSetProcessPriority_placed {k : Kernel} (h : Placed k) (pid priority : Nat) :
    Placed (schedulerSetProcessPriority k pid priority).2 := by
  unfold schedulerSetProcessPriority
  split
  · exact h
  · split
    · exact h
    · rename_i p _
      split
      · exact h
      · split
        · exact h
        · next hi =>
          have hi : k.idle ≠ some p := fun h => hi h.symm
          split
          · exact h
          · dsimp only
            split
            · have hsame := queueForPriority_same k (k.proc p).priority
              exact h.congr (by rw [queueCreate, Kernel.allocNext]; exact hsame.proc)
                hsame.idle hsame.current (entries_queueForPriority k _)
            · next k' hk' =>
              split at hk'
              · obtain ⟨hsame, hsub, hnot⟩ := purgeLevel_spec hk'
                have h' := h.shrink hsame.proc hsame.idle hsame.current hsub
                refine storePriority_placed h' (hsame.idle ▸ hi) (fun _ _ i hm => ?_)
                  (by rw [hsame.proc])
                have hpl := h'.entry i p hm (hsame.idle ▸ hi)
                rw [hsame.proc] at hpl
                exact hnot (hpl.2 ▸ hm)
              · next hc =>
                cases hk'
                exact storePriority_placed h hi (fun hs hne => absurd ⟨hs, hne⟩ hc) rfl

end TpSo
