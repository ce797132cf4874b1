import TpSo.Scheduler.Placement

set_option autoImplicit false

/-! # What a tick does

`scheduleTick` taken apart once: the interrupted process is left, the ready queues are aged, a
process is picked, and it or idle takes over. `scheduleTick_cases` lists the outcomes with all they
say about states, saved stack pointers and the current process; later proofs start from it. -/

namespace TpSo

/-- The process is in some ready queue. -/
def Queued (k : Kernel) (p : Addr) : Prop := ∃ i, p ∈ entries k i

/-! ## Aging and picking -/

/-- What `scheduler_age_ready` may change: the order of the queues, the priority of their entries
    and the tick they are ready since. -/
structure Aged (k k' : Kernel) : Prop where
  kernel : k' = { k with proc := k'.proc, readyQueues := k'.readyQueues, memCalls := k'.memCalls }
  proc : ∀ p, k'.proc p =
    { k.proc p with
      priority := (k'.proc p).priority, readySinceTick := (k'.proc p).readySinceTick }
  queued : ∀ p, Queued k' p → Queued k p

namespace Aged

variable {k k' k'' : Kernel}

theorem refl (k : Kernel) : Aged k k := ⟨rfl, fun _ => rfl, fun _ h => h⟩

theorem trans (h : Aged k k') (h' : Aged k' k'') : Aged k k'' where
  kernel := by rw [h'.kernel, h.kernel]
  proc p := by rw [h'.proc p, h.proc p]
  queued p hp := h.queued p (h'.queued p hp)

/-- Moving entries between queues is a special case. -/
theorem of_same (h : SameButQueues k k') (hq : ∀ p, Queued k' p → Queued k p) : Aged k k' where
  kernel := by
    rw [h.proc]
    exact h
  proc p := by rw [h.proc]
  queued := hq

theorem current (h : Aged k k') : k'.current = k.current := by rw [h.kernel]
theorem idle (h : Aged k k') : k'.idle = k.idle := by rw [h.kernel]
theorem state (h : Aged k k') (p : Addr) : (k'.proc p).state = (k.proc p).state := by rw [h.proc p]
theorem rsp (h : Aged k k') (p : Addr) : (k'.proc p).rsp = (k.proc p).rsp := by rw [h.proc p]

theorem outside (h : Aged k k') : k'.outside = k.outside := by
  rw [h.kernel]
  simp only [Kernel.outside, Kernel.mk.injEq, and_true]
  funext p
  rw [h.proc p]
  rfl

end Aged

theorem agePromote_aged (k : Kernel) (p : Addr) : Aged k (agePromote k p) where
  kernel := rfl
  proc q := by
    by_cases h : q = p
    · subst h
      simp only [agePromote, Kernel.modProc, Function.update_self]
    · simp only [agePromote, Kernel.modProc, Function.update_of_ne h]
  queued _ h := h

/-- Every entry of a queue was there before, or is the one pushed. -/
theorem queued_pushReady {k : Kernel} {priority : Nat} {p q : Addr}
    (h : Queued (pushReady k priority p) q) : Queued k q ∨ q = p := by
  obtain ⟨i, hm⟩ := h
  rcases entries_pushReady k priority p with hq | hq
  · exact .inl ⟨i, hq i ▸ hm⟩
  · rw [hq i] at hm
    split at hm
    · rcases List.mem_append.mp hm with hm | hm
      · exact .inl ⟨i, hm⟩
      · exact .inr (List.mem_singleton.mp hm)
    · exact .inl ⟨i, hm⟩

/-- The rest of a queue whose head was taken off. -/
theorem pop_aged {k : Kernel} {i : Nat} {p : Addr} {rest : List Addr}
    (h : k.readyQueues i = some (p :: rest)) : Aged k (k.setReady i (some rest)) :=
  .of_same (SameButQueues.setReady _ _ _) fun _ ⟨j, hj⟩ => ⟨j, (entries_pop h j).subset hj⟩

theorem queued_head {k : Kernel} {i : Nat} {p : Addr} {rest : List Addr}
    (h : k.readyQueues i = some (p :: rest)) : Queued k p :=
  ⟨i, by rw [entries, h]; exact List.mem_cons_self⟩

theorem ageLevel_aged (priority : Nat) :
    ∀ (items : Nat) (k : Kernel), Aged k (ageLevel k priority items) := by
  intro items
  -- on the entries still to look at; each is promoted or goes back behind the others
  induction items with
  | zero => exact fun k => .refl k
  | succ items ih =>
      intro k
      unfold ageLevel
      rcases queuePop_cases (k.readyQueues (priorityIndex priority)) with ⟨hp, -, -⟩ | ⟨p, rest, hq, hp⟩
      · rw [show queuePop (k.readyQueues (priorityIndex priority)) = (none, _) from Prod.ext hp rfl]
        exact .refl k
      · rw [hp]
        dsimp only
        have hpop := pop_aged hq
        split
        · refine Aged.trans ?_ (ih _)
          have hpromoted := hpop.trans (agePromote_aged _ p)
          refine ⟨?_, fun q => ?_, fun q hm => ?_⟩
          · rw [pushReady_same _ _ _, hpromoted.kernel]
          · rw [(pushReady_same _ _ _).proc]
            exact hpromoted.proc q
          · rcases queued_pushReady hm with hm | rfl
            · exact hpromoted.queued q hm
            · exact queued_head hq
        · refine Aged.trans ?_ (ih _)
          rw [show (k.setReady (priorityIndex priority) (some rest)).readyQueues
            (priorityIndex priority) = some rest from Function.update_self ..]
          have hk := queuePush_kernel (k.setReady (priorityIndex priority) (some rest)) (some rest) p
          refine .of_same (by rw [hk]; rfl) fun q hq => ?_
          obtain ⟨j, hj⟩ := hq
          rcases entries_queuePush (k.setReady (priorityIndex priority) (some rest))
            (priorityIndex priority) rest p with hr | hr
          · rw [hr j] at hj
            split at hj
            · next hji => exact hpop.queued q ⟨j, by rw [entries_setReady, if_pos hji]; exact hj⟩
            · exact hpop.queued q ⟨j, hj⟩
          · rw [hr j] at hj
            split at hj
            · next hji =>
              rcases List.mem_append.mp hj with hj | hj
              · exact hpop.queued q ⟨j, by rw [entries_setReady, if_pos hji]; exact hj⟩
              · rw [List.mem_singleton.mp hj]
                exact queued_head hq
            · exact hpop.queued q ⟨j, hj⟩

theorem queueForPriority_aged (k : Kernel) (priority : Nat) :
    Aged k (queueForPriority k priority) :=
  .of_same (queueForPriority_same k priority) fun _ ⟨i, hi⟩ =>
    ⟨i, entries_queueForPriority k priority i ▸ hi⟩

theorem schedulerAgeReady_aged (k : Kernel) : Aged k (schedulerAgeReady k) := by
  unfold schedulerAgeReady
  refine List.foldlRecOn [1, 2, 3, 4, 5] _ (Aged.refl k) fun _ hk priority _ => ?_
  exact (hk.trans (queueForPriority_aged _ priority)).trans (ageLevel_aged _ _ _)

/-- A write that changes nothing. -/
theorem setState_self {k : Kernel} {p : Addr} {state : ProcessState}
    (h : (k.proc p).state = state) : k.setState p state = k := by
  subst h
  unfold Kernel.setState Kernel.modProc
  rw [Function.update_eq_self]

/-- The selection loop only takes entries out; what it picks is `READY`, is not idle and was in a
    queue. -/
theorem pickNext_spec (levels : List Nat) :
    ∀ k : Kernel, SameButQueues k (pickNext k levels).2 ∧
      (∀ i, (entries (pickNext k levels).2 i).Sublist (entries k i)) ∧
      ∀ next, (pickNext k levels).1 = some next →
        (k.proc next).state = .ready ∧ k.idle ≠ some next ∧ Queued k next ∧
        (Placed k → ∀ i, next ∉ entries (pickNext k levels).2 i) := by
  -- on the levels still to look at; each one pops a head, which is picked or dropped
  induction levels with
  | nil =>
      exact fun k => ⟨.refl k, fun i => List.Sublist.refl _, fun next h => absurd h (by simp [pickNext])⟩
  | cons priority rest ih =>
      intro k
      have hlevel := queueForPriority_same k priority
      have hent := entries_queueForPriority k priority
      unfold pickNext
      dsimp only
      rcases queuePop_cases ((queueForPriority k priority).readyQueues (priorityIndex priority)) with
        ⟨hp, hp', -⟩ | ⟨p, xs, hq, hp⟩
      · rw [show queuePop ((queueForPriority k priority).readyQueues (priorityIndex priority)) =
          (none, (queueForPriority k priority).readyQueues (priorityIndex priority)) from
            Prod.ext hp hp']
        dsimp only
        set k1 := (queueForPriority k priority).setReady (priorityIndex priority)
          ((queueForPriority k priority).readyQueues (priorityIndex priority)) with hk1
        have he1 : ∀ i, entries k1 i = entries k i := fun i => by
          rw [hk1, entries_setReady, ← hent i]
          split
          · next hi => rw [hi]; rfl
          · rfl
        have hs1 : SameButQueues k k1 := hlevel.trans (SameButQueues.setReady _ _ _)
        obtain ⟨hsame, hsub, hpick⟩ := ih k1
        refine ⟨hs1.trans hsame, fun i => he1 i ▸ hsub i, fun next hn => ?_⟩
        obtain ⟨hs, hi, ⟨j, hj⟩, hnot⟩ := hpick next hn
        exact ⟨hs1.proc ▸ hs, hs1.idle ▸ hi, ⟨j, he1 j ▸ hj⟩,
          fun hpl => hnot (hpl.congr hs1.proc hs1.idle hs1.current he1)⟩
      · rw [hp]
        dsimp only
        set k1 := (queueForPriority k priority).setReady (priorityIndex priority) (some xs) with hk1
        have hs1 : SameButQueues k k1 := hlevel.trans (SameButQueues.setReady _ _ _)
        have hsub1 : ∀ i, (entries k1 i).Sublist (entries k i) := fun i => hent i ▸ entries_pop hq i
        -- the head was not READY, or was idle: it is gone from its queue and the loop goes on
        have hrest : ∀ k2 : Kernel, k2 = k1 →
            SameButQueues k (pickNext k2 rest).2 ∧
            (∀ i, (entries (pickNext k2 rest).2 i).Sublist (entries k i)) ∧
            ∀ next, (pickNext k2 rest).1 = some next →
              (k.proc next).state = .ready ∧ k.idle ≠ some next ∧ Queued k next ∧
              (Placed k → ∀ i, next ∉ entries (pickNext k2 rest).2 i) := by
          rintro k2 rfl
          obtain ⟨hsame, hsub, hpick⟩ := ih k1
          refine ⟨hs1.trans hsame, fun i => (hsub i).trans (hsub1 i), fun next hn => ?_⟩
          obtain ⟨hs, hi, ⟨j, hj⟩, hnot⟩ := hpick next hn
          exact ⟨hs1.proc ▸ hs, hs1.idle ▸ hi, ⟨j, (hsub1 j).subset hj⟩,
            fun hpl => hnot (hpl.shrink hs1.proc hs1.idle hs1.current hsub1)⟩
        split
        · next hready =>
          split
          · exact hrest _ (setState_self hready)
          · next hidle =>
            refine ⟨hs1, hsub1, fun next hn => ?_⟩
            cases hn
            have hi : k.idle ≠ some p := fun h => hidle (hs1.idle ▸ h).symm
            refine ⟨hs1.proc ▸ hready, hi, ?_, fun hpl => ?_⟩
            · obtain ⟨j, hj⟩ := queued_head hq
              exact ⟨j, hent j ▸ hj⟩
            · have hpl' : Placed (queueForPriority k priority) :=
                hpl.congr hlevel.proc hlevel.idle hlevel.current hent
              exact hpl'.pop_not_mem hq (hlevel.idle ▸ hi)
        · exact hrest k1 rfl

/-! ## `scheduler_add_ready` -/

/-- `scheduler_add_ready` writes to one process. -/
theorem schedulerAddReady_proc (k : Kernel) (p : Addr) :
    (schedulerAddReady k p).proc = Function.update k.proc p (readyFields k p (k.proc p)) := by
  have hsame := leaveReady_same k p
  rw [schedulerAddReady_eq, (pushReady_same _ _ _).proc]
  unfold Kernel.modProc
  dsimp only
  rw [hsame.proc]
  unfold readyFields
  rw [hsame.idle, hsame.totalTicks]

theorem schedulerAddReady_current (k : Kernel) (p : Addr) :
    (schedulerAddReady k p).current = k.current := by
  rw [schedulerAddReady_eq, (pushReady_same _ _ _).current]
  exact (leaveReady_same k p).current

theorem schedulerAddReady_outside (k : Kernel) (p : Addr) :
    (schedulerAddReady k p).outside = k.outside := by
  rw [schedulerAddReady_eq, (pushReady_same _ _ _).outside, modProc_outside _ _ _ rfl]
  exact (leaveReady_same k p).outside

theorem queued_schedulerAddReady {k : Kernel} {p q : Addr} (h : Queued (schedulerAddReady k p) q) :
    Queued k q ∨ q = p := by
  rw [schedulerAddReady_eq] at h
  rcases queued_pushReady h with ⟨i, hi⟩ | h
  · refine .inl ⟨i, ?_⟩
    rw [entries_modProc, leaveReady] at hi
    split at hi
    · exact (entries_schedulerRemoveReady_sublist k p i).subset hi
    · exact hi
  · exact .inr h

theorem readyFields_state (k : Kernel) (p : Addr) (process : Process) :
    (readyFields k p process).state = .ready := rfl

/-! ## Leaving the interrupted process -/

/-- The state a process has once the tick has dealt with the interrupted one. -/
def leftState (k : Kernel) (p : Addr) : ProcessState :=
  if k.current = some p ∧ (k.idle = some p ∨ (k.proc p).state = .running) then .ready
  else (k.proc p).state

/-- The saved stack pointer of a process once the tick has stored the interrupted one. -/
def leftRsp (k : Kernel) (rsp : Nat) (p : Addr) : Nat :=
  if k.current = some p then rsp else (k.proc p).rsp

/-- The tick keeps the interrupted process: it still has quantum. -/
def keepsRunning (k : Kernel) (c : Addr) : Prop :=
  k.current = some c ∧ k.idle ≠ some c ∧ (k.proc c).state = .running ∧
    (k.proc c).remainingQuantum > 0

/-- Nobody runs once the current process has left that state. -/
theorem Placed.clearCurrent {k : Kernel} (h : Placed k) {c : Addr} (hc : k.current = some c)
    (hs : (k.proc c).state ≠ .running) : Placed (processSetRunning { k with current := none } none)
    where
  entry := h.entry
  once := h.once
  running p hr := by
    have hp : k.current = some p := h.running p hr
    rw [hc] at hp
    cases hp
    exact absurd hr hs

/-- What the first half of a tick leaves. -/
structure Left (k k' : Kernel) (rsp : Nat) : Prop where
  switch : ∀ c, ¬ keepsRunning k c
  outside : k'.outside = k.outside
  state : ∀ p, (k'.proc p).state = leftState k p
  rsp : ∀ p, (k'.proc p).rsp = leftRsp k rsp p
  current : k'.current = none ∨ k'.current = k.current ∧ k.current = k.idle
  queued : ∀ p, Queued k' p →
    Queued k p ∨ k.current = some p ∧ k.idle ≠ some p ∧ (k.proc p).state = .running
  placed : Placed k → Placed k'

theorem setState_proc_state (k : Kernel) (p q : Addr) (state : ProcessState) :
    ((k.setState p state).proc q).state = if q = p then state else (k.proc q).state := by
  unfold Kernel.setState Kernel.modProc
  dsimp only
  rw [Function.update_apply]
  split <;> rfl

theorem setState_proc_rsp (k : Kernel) (p q : Addr) (state : ProcessState) :
    ((k.setState p state).proc q).rsp = (k.proc q).rsp := by
  unfold Kernel.setState Kernel.modProc
  dsimp only
  rw [Function.update_apply]
  split
  · next h => rw [h]
  · rfl

theorem setState_outside (k : Kernel) (p : Addr) (state : ProcessState) :
    (k.setState p state).outside = k.outside := modProc_outside _ _ _ rfl

/-- Store the interrupted stack pointer in the current process. -/
def saveRsp (k : Kernel) (c : Addr) (rsp : Nat) : Kernel :=
  k.modProc c (fun p => { p with rsp := rsp })

theorem saveRsp_state (k : Kernel) (c : Addr) (rsp : Nat) (p : Addr) :
    ((saveRsp k c rsp).proc p).state = (k.proc p).state := by
  unfold saveRsp Kernel.modProc
  dsimp only
  rw [Function.update_apply]
  split
  · next h => rw [h]
  · rfl

theorem saveRsp_rsp {k : Kernel} {c : Addr} (hc : k.current = some c) (rsp : Nat) (p : Addr) :
    ((saveRsp k c rsp).proc p).rsp = leftRsp k rsp p := by
  unfold saveRsp Kernel.modProc leftRsp
  dsimp only
  rw [Function.update_apply, hc]
  by_cases h : p = c
  · rw [if_pos h, if_pos (h ▸ rfl)]
  · rw [if_neg h, if_neg (fun h' => h (Option.some.inj h').symm)]

theorem saveRsp_outside (k : Kernel) (c : Addr) (rsp : Nat) :
    (saveRsp k c rsp).outside = k.outside := modProc_outside _ _ _ rfl

theorem saveRsp_placed {k : Kernel} (h : Placed k) (c : Addr) (rsp : Nat) :
    Placed (saveRsp k c rsp) :=
  h.modProc_same c _ rfl rfl

/-- `tickRunning` with a current process. -/
theorem tickRunning_eq {k : Kernel} {c : Addr} (hc : k.current = some c) (rsp : Nat) :
    tickRunning k rsp =
      if some c = k.idle then (true, (saveRsp k c rsp).setState c .ready)
      else if ((saveRsp k c rsp).proc c).state ≠ .running then
        (true, processSetRunning { saveRsp k c rsp with current := none } none)
      else if ((saveRsp k c rsp).proc c).remainingQuantum > 0 then
        (false, (saveRsp k c rsp).modProc c chargeTick)
      else
        (true, processSetRunning
          { schedulerAddReady (saveRsp k c rsp) c with current := none } none) := by
  unfold tickRunning
  rw [hc]
  rfl

/-- Leaving the processor changes no queue. -/
theorem queued_leaveCurrent (k : Kernel) (p : Addr) :
    Queued (processSetRunning { k with current := none } none) p ↔ Queued k p := .rfl

/-- **The first half of a tick**, when another process must be chosen. -/
theorem tickRunning_left {k : Kernel} {rsp : Nat} (h : (tickRunning k rsp).1 = true) :
    Left k (tickRunning k rsp).2 rsp := by
  -- the branches of `schedule_tick` that leave the processor free: nobody runs, the idle process
  -- runs, the running process is not RUNNING any more, its quantum is over
  cases hc : k.current with
  | none =>
      have hk : (tickRunning k rsp).2 = k := by rw [tickRunning, hc]
      rw [hk]
      exact {
        switch := fun c hk => Option.some_ne_none _ (hk.1.symm.trans hc)
        outside := rfl
        state := fun p => (if_neg fun h => Option.some_ne_none _ (h.1.symm.trans hc)).symm
        rsp := fun p => (if_neg fun h => Option.some_ne_none _ (h.symm.trans hc)).symm
        current := .inl hc
        queued := fun p hp => .inl hp
        placed := id }
  | some c =>
      rw [tickRunning_eq hc] at h ⊢
      by_cases hidle : some c = k.idle
      · rw [if_pos hidle] at h ⊢
        exact {
          switch := fun c' hk => hk.2.1 (hidle.symm.trans (hc.symm.trans hk.1))
          outside := (setState_outside _ _ _).trans (saveRsp_outside k c rsp)
          state := fun p => by
            rw [setState_proc_state, saveRsp_state, leftState, hc]
            by_cases hp : p = c
            · rw [if_pos hp, if_pos ⟨hp ▸ rfl, .inl (hp ▸ hidle.symm)⟩]
            · rw [if_neg hp, if_neg fun h' => hp (Option.some.inj h'.1).symm]
          rsp := fun p => by rw [setState_proc_rsp, saveRsp_rsp hc]
          current := .inr ⟨rfl, hc.trans hidle⟩
          queued := fun p hp => .inl hp
          placed := fun hpl => (saveRsp_placed hpl c rsp).setState c
            (fun hne => absurd hidle.symm hne) (by decide) }
      · have hidle' : k.idle ≠ some c := fun h' => hidle h'.symm
        have hcur : ∀ p, k.current = some p → p = c := fun p hp =>
          (Option.some.inj (hc.symm.trans hp)).symm
        rw [if_neg hidle] at h ⊢
        by_cases hs : ((saveRsp k c rsp).proc c).state ≠ .running
        · rw [if_pos hs] at h ⊢
          exact {
            switch := fun c' hk => hs ((saveRsp_state k c rsp c).trans (hcur c' hk.1 ▸ hk.2.2.1))
            outside := saveRsp_outside k c rsp
            state := fun p => by
              rw [leftState, if_neg]
              · exact saveRsp_state k c rsp p
              · rintro ⟨hp, hp'⟩
                rw [hcur p hp] at hp'
                exact hp'.elim hidle' fun hr => hs ((saveRsp_state k c rsp c).trans hr)
            rsp := fun p => saveRsp_rsp hc rsp p
            current := .inl rfl
            queued := fun p hp => .inl hp
            placed := fun hpl => (saveRsp_placed hpl c rsp).clearCurrent hc hs }
        · rw [if_neg hs] at h ⊢
          have hrun : (k.proc c).state = .running :=
            (saveRsp_state k c rsp c).symm.trans (not_not.mp hs)
          by_cases hq : ((saveRsp k c rsp).proc c).remainingQuantum > 0
          · rw [if_pos hq] at h
            exact absurd h (by simp)
          · rw [if_neg hq]
            have hproc := schedulerAddReady_proc (saveRsp k c rsp) c
            exact {
              switch := fun c' hk => hq (by
                simp only [saveRsp, Kernel.modProc, Function.update_self]
                exact hcur c' hk.1 ▸ hk.2.2.2)
              outside := (schedulerAddReady_outside _ c).trans (saveRsp_outside k c rsp)
              state := fun p => by
                change ((schedulerAddReady (saveRsp k c rsp) c).proc p).state = _
                rw [hproc, Function.update_apply, leftState, hc]
                by_cases hp : p = c
                · subst hp
                  rw [if_pos rfl, if_pos ⟨rfl, .inr hrun⟩]
                  rfl
                · rw [if_neg hp, if_neg fun h' => hp (Option.some.inj h'.1).symm]
                  exact saveRsp_state k c rsp p
              rsp := fun p => by
                change ((schedulerAddReady (saveRsp k c rsp) c).proc p).rsp = _
                rw [← saveRsp_rsp hc, hproc, Function.update_apply]
                split
                · next hp => rw [hp]; rfl
                · rfl
              current := .inl rfl
              queued := fun p hp => by
                rcases queued_schedulerAddReady ((queued_leaveCurrent _ p).mp hp) with hp | rfl
                · exact .inl hp
                · exact .inr ⟨hc, hidle', hrun⟩
              placed := fun hpl =>
                (schedulerAddReady_placed (saveRsp_placed hpl c rsp) c).clearCurrent
                  ((schedulerAddReady_current _ c).trans hc) (by
                    rw [hproc, Function.update_self, readyFields_state]
                    decide) }

/-- The interrupted process keeps the processor. -/
theorem tickRunning_keep {k : Kernel} {rsp : Nat} (h : (tickRunning k rsp).1 = false) :
    ∃ c, keepsRunning k c ∧ (tickRunning k rsp).2.outside = k.outside ∧
      (∀ p, ((tickRunning k rsp).2.proc p).state = (k.proc p).state) ∧
      (∀ p, ((tickRunning k rsp).2.proc p).rsp = leftRsp k rsp p) ∧
      (tickRunning k rsp).2.current = some c ∧
      (∀ i, entries (tickRunning k rsp).2 i = entries k i) ∧
      (Placed k → Placed (tickRunning k rsp).2) := by
  cases hc : k.current with
  | none => rw [tickRunning, hc] at h; exact absurd h (by simp)
  | some c =>
      rw [tickRunning_eq hc] at h ⊢
      by_cases hidle : some c = k.idle
      · rw [if_pos hidle] at h
        exact absurd h (by simp)
      · rw [if_neg hidle] at h ⊢
        by_cases hs : ((saveRsp k c rsp).proc c).state ≠ .running
        · rw [if_pos hs] at h
          exact absurd h (by simp)
        · rw [if_neg hs] at h ⊢
          by_cases hq : ((saveRsp k c rsp).proc c).remainingQuantum > 0
          · rw [if_pos hq]
            refine ⟨c, ⟨hc, fun h' => hidle h'.symm, ?_, ?_⟩, ?_, fun p => ?_, fun p => ?_, hc,
              fun i => rfl, fun hpl => ?_⟩
            · exact (saveRsp_state k c rsp c).symm.trans (not_not.mp hs)
            · simpa only [saveRsp, Kernel.modProc, Function.update_self] using hq
            · exact (modProc_outside _ c chargeTick rfl).trans (saveRsp_outside k c rsp)
            · rw [← saveRsp_state k c rsp p]
              unfold Kernel.modProc
              dsimp only
              rw [Function.update_apply]
              split
              · next hp => rw [hp]; rfl
              · rfl
            · rw [← saveRsp_rsp hc]
              unfold Kernel.modProc
              dsimp only
              rw [Function.update_apply]
              split
              · next hp => rw [hp]; rfl
              · rfl
            · exact (saveRsp_placed hpl c rsp).modProc_same c chargeTick rfl rfl
          · rw [if_neg hq] at h
            exact absurd h (by simp)

/-! ## The whole tick -/

/-- The kernel the selection loop of `schedule_tick` starts from: the interrupted process left, the
    ready queues aged. -/
def beforePick (k : Kernel) (rsp : Nat) : Kernel :=
  schedulerAgeReady (tickRunning (countTick k) rsp).2

/-- The level offers nobody: its queue is empty, or has at its head idle or a process that is not
    `READY`. -/
def OffersNobody (k : Kernel) (i : Nat) : Prop :=
  ∀ p, (entries k i).head? = some p → k.idle = some p ∨ (k.proc p).state ≠ .ready

/-- Nothing to run: the interrupted process cannot go on, and no ready queue, as
    `scheduler_age_ready` leaves them, offers anybody. -/
def NothingToRun (k : Kernel) (rsp : Nat) : Prop :=
  (∀ c, ¬ keepsRunning k c) ∧ ∀ i ∈ levels, OffersNobody (beforePick k rsp) i

/-- The levels are their own indices. -/
theorem priorityIndex_lt (priority : Nat) : priorityIndex priority < SCHEDULER_PRIORITY_LEVELS := by
  unfold priorityIndex
  split <;> simp only [SCHEDULER_MIN_PRIORITY, SCHEDULER_MAX_PRIORITY, SCHEDULER_PRIORITY_LEVELS] at * <;>
    omega

theorem priorityIndex_of_lt {i : Nat} (h : i < SCHEDULER_PRIORITY_LEVELS) : priorityIndex i = i := by
  unfold priorityIndex
  rw [if_neg (by simp only [SCHEDULER_MIN_PRIORITY]; simp only [SCHEDULER_PRIORITY_LEVELS] at h; omega)]
  rfl

theorem head?_entries_of_pop {k : Kernel} {i : Nat} :
    (queuePop (k.readyQueues i)).1 = (entries k i).head? := by
  unfold entries
  rcases k.readyQueues i with _ | _ | _ <;> rfl

theorem OffersNobody.congr {k k' : Kernel} (h : SameButQueues k k') {i : Nat}
    (hq : entries k' i = entries k i) : OffersNobody k' i ↔ OffersNobody k i := by
  unfold OffersNobody
  rw [hq, h.idle, h.proc]

/-- **The selection loop fails** exactly when no level it looks at offers anybody. -/
theorem pickNext_eq_none_iff (levels : List Nat) (hl : levels.Nodup)
    (hlt : ∀ i ∈ levels, i < SCHEDULER_PRIORITY_LEVELS) :
    ∀ k : Kernel, (pickNext k levels).1 = none ↔ ∀ i ∈ levels, OffersNobody k i := by
  induction levels with
  | nil => exact fun k => by simp [pickNext]
  | cons i rest ih =>
      intro k
      have hi : priorityIndex i = i := priorityIndex_of_lt (hlt i List.mem_cons_self)
      have hnot : i ∉ rest := (List.nodup_cons.mp hl).1
      have ih := ih (List.nodup_cons.mp hl).2 fun j hj => hlt j (List.mem_cons_of_mem _ hj)
      -- the rest of the loop sees the other levels as they were
      have hrest : ∀ q, (pickNext ((queueForPriority k i).setReady i q) rest).1 = none ↔
          ∀ j ∈ rest, OffersNobody k j := by
        intro q
        rw [ih]
        refine forall₂_congr fun j hj => OffersNobody.congr
          ((queueForPriority_same k i).trans (SameButQueues.setReady _ _ _)) ?_
        rw [entries_setReady, if_neg fun hji : j = i => hnot (hji ▸ hj), entries_queueForPriority]
      have hhead : (queuePop ((queueForPriority k i).readyQueues i)).1 = (entries k i).head? := by
        rw [head?_entries_of_pop, entries_queueForPriority]
      have hproc : ((queueForPriority k i).setReady i
          (queuePop ((queueForPriority k i).readyQueues i)).2).proc = k.proc :=
        (queueForPriority_same k i).proc
      have hidle : ((queueForPriority k i).setReady i
          (queuePop ((queueForPriority k i).readyQueues i)).2).idle = k.idle :=
        (queueForPriority_same k i).idle
      rw [List.forall_mem_cons]
      unfold pickNext
      simp only [hi, hhead, hproc, hidle]
      cases hp : (entries k i).head? with
      | none =>
          rw [hrest]
          exact ⟨fun h => ⟨fun p h' => absurd (hp.symm.trans h') (by simp), h⟩, And.right⟩
      | some p =>
          have hoffers : OffersNobody k i ↔ k.idle = some p ∨ (k.proc p).state ≠ .ready :=
            ⟨fun h => h p hp, fun h q hq => by cases hp.symm.trans hq; exact h⟩
          rw [hoffers]
          by_cases hready : (k.proc p).state = .ready
          · simp only [hready, if_true]
            by_cases hpi : some p = k.idle
            · rw [if_pos hpi, setState_self (by rw [hproc, hready]), hrest]
              exact ⟨fun h => ⟨.inl hpi.symm, h⟩, And.right⟩
            · rw [if_neg hpi]
              exact ⟨fun h => absurd h (by simp), fun h =>
                (h.1.elim (fun h' => hpi h'.symm) fun h' => h' rfl).elim⟩
          · simp only [hready, if_false, hrest]
            exact ⟨fun h => ⟨.inr hready, h⟩, And.right⟩

/-- The outcomes of a tick, each with the processor's new owner, the stack pointer it resumes from
    and the states and stack pointers of all processes. -/
inductive TickCase (k : Kernel) (rsp r : Nat) (k' : Kernel) : Prop
  | keep (c : Addr) (keeps : keepsRunning k c) (resume : r = rsp) (current : k'.current = some c)
      (state : ∀ p, (k'.proc p).state = (k.proc p).state)
      (saved : ∀ p, (k'.proc p).rsp = leftRsp k rsp p)
      (queued : ∀ p, Queued k' p → Queued k p)
  | dispatch (n : Addr) (notIdle : k.idle ≠ some n)
      (ready : Queued k n ∧ (k.proc n).state = .ready ∨
        k.current = some n ∧ (k.proc n).state = .running)
      (busy : ¬ NothingToRun k rsp) (resume : r = leftRsp k rsp n) (current : k'.current = some n)
      (state : ∀ p, (k'.proc p).state = if p = n then .running else leftState k p)
      (saved : ∀ p, (k'.proc p).rsp = leftRsp k rsp p)
      (queued : ∀ p, Queued k' p →
        Queued k p ∨ k.current = some p ∧ k.idle ≠ some p ∧ (k.proc p).state = .running)
  | idle (d : Addr) (isIdle : k.idle = some d) (nothing : NothingToRun k rsp) (resume : r = rsp)
      (current : k'.current = some d)
      (state : ∀ p, (k'.proc p).state = if p = d then .running else leftState k p)
      (saved : ∀ p, (k'.proc p).rsp = if p = d then rsp else leftRsp k rsp p)
      (queued : ∀ p, Queued k' p →
        Queued k p ∨ k.current = some p ∧ k.idle ≠ some p ∧ (k.proc p).state = .running)
  | nobody (noIdle : k.idle = none) (resume : r = rsp) (current : k'.current = none)
      (state : ∀ p, (k'.proc p).state = leftState k p)
      (saved : ∀ p, (k'.proc p).rsp = leftRsp k rsp p)
      (queued : ∀ p, Queued k' p →
        Queued k p ∨ k.current = some p ∧ k.idle ≠ some p ∧ (k.proc p).state = .running)

/-- The pid the process table calls running is that of the current process, or -1. -/
def RunningPidAgrees (k : Kernel) : Prop :=
  k.runningPid = match k.current with
    | some c => ((k.proc c).pid : Int)
    | none => -1

theorem processSetRunning_agrees (k : Kernel) : RunningPidAgrees (processSetRunning k k.current) := by
  unfold RunningPidAgrees processSetRunning
  cases hc : k.current with
  | none => simp only
  | some c => simp only

/-- `schedule_tick` after its first half. -/
theorem scheduleTick_eq (k : Kernel) (rsp : Nat) :
    scheduleTick k rsp =
      if (tickRunning (countTick k) rsp).1 then
        match (pickNext (beforePick k rsp) levels).1 with
        | some next =>
          (((pickNext (beforePick k rsp) levels).2.proc next).rsp,
            dispatch (pickNext (beforePick k rsp) levels).2 next)
        | none => dispatchIdle (pickNext (beforePick k rsp) levels).2 rsp
      else
        (rsp, processSetRunning
          (tickRunning (countTick k) rsp).2
          (tickRunning (countTick k) rsp).2.current) := by
  rfl

/-- Nobody runs while the next process is being picked. -/
theorem Left.not_running {k k' : Kernel} {rsp : Nat} (h : Left k k' rsp) (hpl : Placed k) (p : Addr) :
    (k'.proc p).state ≠ .running := by
  rw [h.state p, leftState]
  split
  · decide
  · next hn => exact fun hr => hn ⟨hpl.running p hr, .inr hr⟩

/-- Handing the processor to a `READY` process that was taken out of its queue. -/
theorem dispatch_placed {k : Kernel} (h : Placed k) {n : Addr}
    (hrun : ∀ p, (k.proc p).state ≠ .running) (hn : ∀ i, n ∉ entries k i) :
    Placed (dispatch k n) where
  entry i p hm hne := by
    have hp : p ≠ n := by
      rintro rfl
      exact hn i hm
    have h' := h.entry i p hm hne
    change ((Function.update k.proc n _) p).state = _ ∧ i = priorityIndex
      ((Function.update k.proc n _) p).priority
    rwa [Function.update_of_ne hp]
  once := h.once
  running p hr := by
    by_cases hp : p = n
    · rw [hp]; rfl
    · change ((Function.update k.proc n _) p).state = _ at hr
      rw [Function.update_of_ne hp] at hr
      exact absurd hr (hrun p)

theorem takeOver_placed {k : Kernel} (h : Placed k) {d : Addr} (hd : k.idle = some d)
    (hrun : ∀ p, (k.proc p).state ≠ .running) (rsp : Nat) : Placed (takeOver k d rsp) where
  entry i p hm hne := by
    have hp : p ≠ d := fun hp => hne (hp ▸ hd)
    have h' := h.entry i p hm hne
    change ((Function.update k.proc d _) p).state = _ ∧ i = priorityIndex
      ((Function.update k.proc d _) p).priority
    rwa [Function.update_of_ne hp]
  once := h.once
  running p hr := by
    by_cases hp : p = d
    · rw [hp]; rfl
    · change ((Function.update k.proc d _) p).state = _ at hr
      rw [Function.update_of_ne hp] at hr
      exact absurd hr (hrun p)

theorem dispatchIdle_some {k : Kernel} {d : Addr} (hd : k.idle = some d) (rsp : Nat) :
    dispatchIdle k rsp = (rsp, takeOver k d rsp) := by
  unfold dispatchIdle
  rw [hd]
  refine Prod.ext ?_ rfl
  change ((Function.update k.proc d _) d).rsp = rsp
  rw [Function.update_self]

theorem dispatchIdle_none {k : Kernel} (hd : k.idle = none) (rsp : Nat) :
    dispatchIdle k rsp = (rsp, processSetRunning k none) := by
  unfold dispatchIdle
  rw [hd]

theorem dispatchIdle_placed {k : Kernel} (h : Placed k)
    (hrun : ∀ p, (k.proc p).state ≠ .running) (rsp : Nat) : Placed (dispatchIdle k rsp).2 := by
  cases hd : k.idle with
  | none =>
      rw [dispatchIdle_none hd]
      exact h.congr rfl rfl rfl fun _ => rfl
  | some d =>
      rw [dispatchIdle_some hd]
      exact takeOver_placed h hd hrun rsp

/-- What the selection loop starts from differs from what the first half left only by aging. -/
theorem beforePick_aged (k : Kernel) (rsp : Nat) :
    Aged (tickRunning (countTick k) rsp).2 (beforePick k rsp) :=
  schedulerAgeReady_aged _

theorem dispatch_state (k : Kernel) (n p : Addr) :
    ((dispatch k n).proc p).state = if p = n then .running else (k.proc p).state := by
  change ((Function.update k.proc n _) p).state = _
  rw [Function.update_apply]
  split <;> rfl

theorem dispatch_rsp (k : Kernel) (n p : Addr) : ((dispatch k n).proc p).rsp = (k.proc p).rsp := by
  change ((Function.update k.proc n _) p).rsp = _
  rw [Function.update_apply]
  split
  · next h => rw [h]
  · rfl

theorem takeOver_state (k : Kernel) (d : Addr) (rsp : Nat) (p : Addr) :
    ((takeOver k d rsp).proc p).state = if p = d then .running else (k.proc p).state := by
  change ((Function.update k.proc d _) p).state = _
  rw [Function.update_apply]
  split <;> rfl

theorem takeOver_rsp (k : Kernel) (d : Addr) (rsp : Nat) (p : Addr) :
    ((takeOver k d rsp).proc p).rsp = if p = d then rsp else (k.proc p).rsp := by
  change ((Function.update k.proc d _) p).rsp = _
  rw [Function.update_apply]
  split <;> rfl

/-- A process other than idle that the first half of a tick left `READY`. -/
theorem leftState_ready {k : Kernel} {p : Addr} (h : leftState k p = .ready) (hi : k.idle ≠ some p) :
    (k.proc p).state = .ready ∨ k.current = some p ∧ (k.proc p).state = .running := by
  unfold leftState at h
  split at h
  · next hc => exact .inr ⟨hc.1, hc.2.resolve_left hi⟩
  · exact .inl h

/-- Without an idle process nobody is current when the selection starts. -/
theorem beforePick_current {k : Kernel} {rsp : Nat} (h : (tickRunning (countTick k) rsp).1 = true)
    (hd : k.idle = none) : (beforePick k rsp).current = none := by
  rw [(beforePick_aged k rsp).current]
  rcases (tickRunning_left h).current with h | ⟨h, h'⟩
  · exact h
  · exact h.trans (h'.trans hd)

/-- **What a tick does.** -/
theorem scheduleTick_cases (k : Kernel) (rsp : Nat) :
    TickCase k rsp (scheduleTick k rsp).1 (scheduleTick k rsp).2 := by
  have haged := beforePick_aged k rsp
  rw [scheduleTick_eq]
  cases hflag : (tickRunning (countTick k) rsp).1 with
  | false =>
      obtain ⟨c, hkeep, -, hstate, hsaved, hcur, hq, -⟩ := tickRunning_keep hflag
      rw [if_neg (by decide)]
      refine .keep c hkeep rfl ?_ (fun p => ?_) (fun p => ?_) (fun p ⟨i, hi⟩ => ⟨i, ?_⟩)
      · rw [hcur]; exact hcur
      · rw [hcur]; exact hstate p
      · rw [hcur]; exact hsaved p
      · rw [hcur] at hi; exact hq i ▸ hi
  | true =>
      rw [if_pos rfl]
      have hleft := tickRunning_left hflag
      have hswitch : ∀ c, ¬ keepsRunning k c := hleft.switch
      have hstate : ∀ p, ((beforePick k rsp).proc p).state = leftState k p := fun p =>
        (haged.state p).trans (hleft.state p)
      have hrsp : ∀ p, ((beforePick k rsp).proc p).rsp = leftRsp k rsp p := fun p =>
        (haged.rsp p).trans (hleft.rsp p)
      have hidle : (beforePick k rsp).idle = k.idle := haged.idle.trans (idle_of_outside hleft.outside)
      obtain ⟨hsame, hsub, hpick⟩ := pickNext_spec levels (beforePick k rsp)
      have hqueued : ∀ p, Queued (pickNext (beforePick k rsp) levels).2 p →
          Queued k p ∨ k.current = some p ∧ k.idle ≠ some p ∧ (k.proc p).state = .running :=
        fun p ⟨i, hi⟩ => hleft.queued p (haged.queued p ⟨i, (hsub i).subset hi⟩)
      have hnone := pickNext_eq_none_iff levels (by decide) (by decide) (beforePick k rsp)
      generalize (pickNext (beforePick k rsp) levels).2 = k' at hsame hqueued
      have hproc : k'.proc = (beforePick k rsp).proc := hsame.proc
      cases hnext : (pickNext (beforePick k rsp) levels).1 with
      -- it was queued and READY, or it is the process that has just been put back
      | some n =>
          obtain ⟨hready, hni, hq, -⟩ := hpick n hnext
          have hbusy : ¬ NothingToRun k rsp := fun h =>
            absurd (hnext.symm.trans (hnone.mpr h.2)) (by simp)
          refine .dispatch n (hidle ▸ hni) ?_ hbusy ?_ rfl (fun p => ?_) (fun p => ?_) hqueued
          · rcases leftState_ready ((hstate n).symm.trans hready) (hidle ▸ hni) with hn | hn
            · rcases hleft.queued n (haged.queued n hq) with hq | ⟨hc, -, hr⟩
              · exact .inl ⟨hq, hn⟩
              · exact .inr ⟨hc, hr⟩
            · exact .inr hn
          · rw [← hrsp n, ← hproc]
          · rw [dispatch_state, hproc, hstate]
          · rw [dispatch_rsp, hproc, hrsp]
      -- no level holds a READY process: the idle process runs, if there is one
      | none =>
          cases hd : k.idle with
          | some d =>
              rw [dispatchIdle_some (hsame.idle.trans (hidle.trans hd))]
              refine .idle d hd ⟨hswitch, hnone.mp hnext⟩ rfl rfl (fun p => ?_) (fun p => ?_) hqueued
              · rw [takeOver_state, hproc, hstate]
              · rw [takeOver_rsp, hproc, hrsp]
          | none =>
              have hd' : k'.idle = none := hsame.idle.trans (hidle.trans hd)
              have hcur : k'.current = none := hsame.current.trans (beforePick_current hflag hd)
              rw [dispatchIdle_none hd']
              refine .nobody hd rfl hcur (fun p => ?_) (fun p => ?_) hqueued
              · exact (congrArg (fun f : Addr → Process => (f p).state) hproc).trans (hstate p)
              · exact (congrArg (fun f : Addr → Process => (f p).rsp) hproc).trans (hrsp p)

theorem processSetRunning_outside (k : Kernel) (p : Option Addr) :
    (processSetRunning k p).outside = k.outside := by
  cases p <;> rfl

theorem dispatch_outside (k : Kernel) (n : Addr) : (dispatch k n).outside = k.outside := by
  refine outside_congr rfl fun p => ?_
  change ((Function.update k.proc n _) p).outside = _
  rw [Function.update_apply]
  split
  · next h => rw [h]; rfl
  · rfl

theorem dispatchIdle_outside (k : Kernel) (rsp : Nat) :
    (dispatchIdle k rsp).2.outside = k.outside := by
  cases hd : k.idle with
  | none => rw [dispatchIdle_none hd]; rfl
  | some d =>
      rw [dispatchIdle_some hd]
      refine outside_congr rfl fun p => ?_
      change ((Function.update k.proc d _) p).outside = _
      rw [Function.update_apply]
      split
      · next h => rw [h]; rfl
      · rfl

/-- A tick touches nothing outside the scheduler. -/
theorem scheduleTick_outside (k : Kernel) (rsp : Nat) : (scheduleTick k rsp).2.outside = k.outside := by
  rw [scheduleTick_eq]
  cases hflag : (tickRunning (countTick k) rsp).1 with
  | false =>
      obtain ⟨c, -, hout, -⟩ := tickRunning_keep hflag
      rw [if_neg (by decide), processSetRunning_outside, hout]
      rfl
  | true =>
      rw [if_pos rfl]
      have hout : (beforePick k rsp).outside = k.outside :=
        (beforePick_aged k rsp).outside.trans (tickRunning_left hflag).outside
      have hsame := (pickNext_spec levels (beforePick k rsp)).1
      rw [← hout, ← hsame.outside]
      split
      · exact dispatch_outside _ _
      · exact dispatchIdle_outside _ _

/-- **A tick keeps the placement.** -/
theorem scheduleTick_placed {k : Kernel} (h : Placed k) (rsp : Nat) :
    Placed (scheduleTick k rsp).2 := by
  rw [scheduleTick_eq]
  have h0 : Placed (countTick k) := h.congr rfl rfl rfl fun _ => rfl
  cases hflag : (tickRunning (countTick k) rsp).1 with
  | false =>
      obtain ⟨c, -, -, -, -, -, -, hpl⟩ := tickRunning_keep hflag
      rw [if_neg (by decide)]
      dsimp only
      generalize (tickRunning (countTick k) rsp).2.current = c
      cases c <;> exact (hpl h0).congr rfl rfl rfl fun _ => rfl
  | true =>
      rw [if_pos rfl]
      have hleft := tickRunning_left hflag
      have haged : Aged _ (beforePick k rsp) := beforePick_aged k rsp
      have hpl : Placed (beforePick k rsp) := schedulerAgeReady_placed (hleft.placed h0)
      have hrun : ∀ p, ((beforePick k rsp).proc p).state ≠ .running := fun p => by
        rw [haged.state p]
        exact hleft.not_running h0 p
      obtain ⟨hsame, hsub, hpick⟩ := pickNext_spec levels (beforePick k rsp)
      have hpl' := hpl.shrink hsame.proc hsame.idle hsame.current hsub
      have hrun' : ∀ p, ((pickNext (beforePick k rsp) levels).2.proc p).state ≠ .running := fun p => by
        rw [hsame.proc]
        exact hrun p
      split
      · next n hn => exact dispatch_placed hpl' hrun' ((hpick n hn).2.2.2 hpl)
      · exact dispatchIdle_placed hpl' hrun' rsp

/-- After a tick the process table agrees with the scheduler about who runs. -/
theorem scheduleTick_runningPid (k : Kernel) (rsp : Nat) :
    RunningPidAgrees (scheduleTick k rsp).2 := by
  rw [scheduleTick_eq]
  cases hflag : (tickRunning (countTick k) rsp).1 with
  | false =>
      rw [if_neg (by decide)]
      exact processSetRunning_agrees _
  | true =>
      rw [if_pos rfl]
      have hidle : (beforePick k rsp).idle = k.idle :=
        (beforePick_aged k rsp).idle.trans (idle_of_outside (tickRunning_left hflag).outside)
      have hsame := (pickNext_spec levels (beforePick k rsp)).1
      split
      · rfl
      · cases hd : k.idle with
        | some d => rw [dispatchIdle_some (hsame.idle.trans (hidle.trans hd))]; rfl
        | none =>
            have hcur := hsame.current.trans (beforePick_current hflag hd)
            rw [dispatchIdle_none (hsame.idle.trans (hidle.trans hd)), ← hcur]
            exact processSetRunning_agrees _

end TpSo
