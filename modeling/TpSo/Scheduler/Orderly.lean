import TpSo.Scheduler.Aging
import TpSo.Scheduler.Bystanders

set_option autoImplicit false

/-! # What holds of the queues after any calls

To the invariant that `schedule_tick` selects by, three things are added that bound a wait: the levels
of the entries are levels, whoever can run is in the process table, of which there is a fixed number of
slots, and the times are those of a `uint64_t` clock. -/

namespace TpSo

/-! ## The clock -/

/-- The tick counter and the times taken from it are `uint64_t` values. -/
structure Stamped (k : Kernel) : Prop where
  ticks : k.totalTicks < 2 ^ 64
  since : ∀ p, (k.proc p).readySinceTick < 2 ^ 64

namespace Stamped

variable {k k' : Kernel}

theorem same (h : Stamped k) (hs : SameButQueues k k') : Stamped k' where
  ticks := by
    rw [hs.totalTicks]
    exact h.ticks
  since p := by
    rw [hs.proc]
    exact h.since p

theorem modProc (h : Stamped k) (p : Addr) (f : Process → Process)
    (hf : (f (k.proc p)).readySinceTick < 2 ^ 64) : Stamped (k.modProc p f) where
  ticks := h.ticks
  since q := by
    by_cases hq : q = p
    · subst hq
      simp only [Kernel.modProc, Function.update_self]
      exact hf
    · simp only [Kernel.modProc, Function.update_of_ne hq]
      exact h.since q

theorem schedulerAddReady (h : Stamped k) (p : Addr) : Stamped (schedulerAddReady k p) := by
  have hleft := h.same (leaveReady_same k p)
  rw [schedulerAddReady_eq]
  exact (hleft.modProc p _ hleft.ticks).same (pushReady_same _ _ p)

theorem ageLevel (priority items : Nat) :
    ∀ {k : Kernel}, Stamped k → Stamped (ageLevel k priority items) := by
  induction items with
  | zero => exact fun h => h
  | succ items ih =>
      intro k h
      unfold TpSo.ageLevel
      split
      · exact h
      · next p q _ =>
        have hpopped : Stamped (k.setReady (priorityIndex priority) q) := ⟨h.ticks, h.since⟩
        dsimp only
        split
        · have hpromoted : Stamped (agePromote (k.setReady (priorityIndex priority) q) p) :=
            hpopped.modProc p _ hpopped.ticks
          exact ih (hpromoted.same (pushReady_same _ _ p))
        · apply ih
          rw [queuePush_kernel]
          exact ⟨h.ticks, h.since⟩

theorem schedulerAgeReady (h : Stamped k) : Stamped (schedulerAgeReady k) := by
  unfold TpSo.schedulerAgeReady
  refine List.foldlRecOn (motive := Stamped) [1, 2, 3, 4, 5] _ h fun k hk priority _ => ?_
  exact ageLevel _ _ (hk.same (queueForPriority_same k priority))

theorem tickRunning (h : Stamped k) (rsp : Nat) : Stamped (tickRunning k rsp).2 := by
  cases hc : k.current with
  | none => simpa only [TpSo.tickRunning, hc] using h
  | some c =>
      have hsaved : Stamped (saveRsp k c rsp) := h.modProc c _ (h.since c)
      rw [tickRunning_eq hc]
      split
      · exact hsaved.modProc c (fun p => { p with state := .ready }) (hsaved.since c)
      · split
        · exact ⟨hsaved.ticks, hsaved.since⟩
        · split
          · exact hsaved.modProc c chargeTick (hsaved.since c)
          · have hadded := hsaved.schedulerAddReady c
            exact ⟨hadded.ticks, hadded.since⟩

theorem dispatch (h : Stamped k) (n : Addr) : Stamped (dispatch k n) where
  ticks := h.ticks
  since p := by
    change ((Function.update k.proc n _) p).readySinceTick < _
    rw [Function.update_apply]
    split
    · exact h.since n
    · exact h.since p

theorem takeOver (h : Stamped k) (d : Addr) (rsp : Nat) : Stamped (takeOver k d rsp) where
  ticks := h.ticks
  since p := by
    change ((Function.update k.proc d _) p).readySinceTick < _
    rw [Function.update_apply]
    split
    · exact h.since d
    · exact h.since p

/-- The clock wraps around, and whoever takes a time from it takes the new one. -/
theorem scheduleTick (h : Stamped k) (rsp : Nat) : Stamped (scheduleTick k rsp).2 := by
  have hcount : Stamped (countTick k) := ⟨Nat.mod_lt _ (Nat.two_pow_pos 64), h.since⟩
  have hleft := hcount.tickRunning rsp
  rw [scheduleTick_eq]
  split
  · have hpicked : Stamped (pickNext (beforePick k rsp) levels).2 :=
      hleft.schedulerAgeReady.same (pickNext_spec levels _).1
    split
    · next n _ => exact hpicked.dispatch n
    · unfold TpSo.dispatchIdle
      split
      · exact ⟨hpicked.ticks, hpicked.since⟩
      · next d _ => exact hpicked.takeOver d rsp
  · generalize (TpSo.tickRunning (countTick k) rsp).2.current = c
    cases c <;> exact ⟨hleft.ticks, hleft.since⟩

theorem leave (h : Stamped k) (p : Addr) (state : ProcessState) :
    Stamped ((leaveReady k p).setState p state) :=
  (h.same (leaveReady_same k p)).modProc p _ ((h.same (leaveReady_same k p)).since p)

theorem processBlock (h : Stamped k) (p : Addr) : Stamped (processBlock k p).2 := by
  rw [processBlock_eq]
  split
  · exact h
  · exact h.leave p .blocked

theorem processUnblock (h : Stamped k) (p : Addr) : Stamped (processUnblock k p).2 := by
  unfold TpSo.processUnblock
  split
  · exact h
  · exact h.schedulerAddReady p

theorem exitFirstHalf (h : Stamped k) (p : Addr) : Stamped (exitFirstHalf k p).2 := by
  have hleft := h.leave p .terminated
  have hfam := adoptOrphanChildren_family ((leaveReady k p).setState p .terminated) p
  rw [exitFirstHalf_eq, passForeground_eq]
  refine ⟨?_, fun q => ?_⟩
  · show (adoptOrphanChildren _ p).totalTicks < _
    rw [hfam.kernel]
    exact hleft.ticks
  · show ((adoptOrphanChildren _ p).proc q).readySinceTick < _
    rw [hfam.proc q]
    exact hleft.since q

theorem schedulerSetProcessPriority (h : Stamped k) (pid priority : Nat) :
    Stamped (schedulerSetProcessPriority k pid priority).2 := by
  have hstore : ∀ {k' : Kernel} (p : Addr) (old : Nat), SameButQueues k k' →
      Stamped (storePriority k' p priority old) := by
    intro k' p old hsame
    have hk' := h.same hsame
    obtain ⟨proc, queues, calls, hrest⟩ := storePriority_rest k' p priority old
    refine ⟨?_, fun q => ?_⟩
    · rw [hrest]
      exact hk'.ticks
    · rw [storePriority_proc]
      split
      · exact hk'.since p
      · exact hk'.since q
  unfold TpSo.schedulerSetProcessPriority
  split
  · exact h
  · split
    · exact h
    · next p _ =>
      repeat (split; exact h)
      dsimp only
      split
      · have hqueue := h.same (queueForPriority_same k (k.proc p).priority)
        exact ⟨hqueue.ticks, hqueue.since⟩
      · next k' hpurged =>
        refine hstore p _ ?_
        split at hpurged
        · exact (purgeLevel_spec hpurged).1
        · cases hpurged
          exact .refl k

end Stamped

/-! ## Who can run -/

/-- An operation that does not switch adds those it enqueues to the processes that can run. -/
theorem Between.runnable {k k' : Kernel} {state : Addr → ProcessState} {added : Addr → Prop}
    (h : Between k k' state added) (hi : k'.idle = k.idle)
    (hs : ∀ p, state p = .running → (k.proc p).state = .running) {p : Addr} (hp : Runnable k' p) :
    Runnable k p ∨ added p := by
  rcases hp with hq | ⟨hc, hidle, hr⟩
  · exact (h.queued p hq).imp_left .inl
  · rw [h.current] at hc
    rw [hi] at hidle
    rw [h.state p] at hr
    exact .inl (.inr ⟨hc, hidle, hs p hr⟩)

theorem stateBut_running {k : Kernel} {p q : Addr} {state : ProcessState} (hs : state ≠ .running)
    (h : stateBut k p state q = .running) : (k.proc q).state = .running := by
  unfold stateBut at h
  split at h
  · exact absurd h hs
  · exact h

theorem entries_dispatchIdle (k : Kernel) (rsp i : Nat) :
    entries (dispatchIdle k rsp).2 i = entries k i := by
  unfold dispatchIdle
  split <;> rfl

/-- A tick enqueues nobody but a running process whose quantum is used up. -/
theorem queued_scheduleTick {k : Kernel} {rsp : Nat} {p : Addr} (h : Queued (scheduleTick k rsp).2 p) :
    Queued k p ∨ k.current = some p ∧ k.idle ≠ some p ∧ (k.proc p).state = .running ∧
      (k.proc p).remainingQuantum = 0 := by
  cases hsw : (tickRunning (countTick k) rsp).1 with
  | false =>
      obtain ⟨c, -, -, -, -, hcur, hq, -⟩ := tickRunning_keep hsw
      rw [scheduleTick_eq, hsw, if_neg Bool.false_ne_true, hcur] at h
      obtain ⟨i, hi⟩ := h
      exact .inl ⟨i, hq i ▸ hi⟩
  | true =>
      have hleft := tickRunning_left hsw
      rw [scheduleTick_eq, hsw, if_pos rfl] at h
      have hbefore : Queued (beforePick k rsp) p := by
        obtain ⟨-, hsub, -⟩ := pickNext_spec levels (beforePick k rsp)
        split at h
        · obtain ⟨i, hi⟩ := h
          exact ⟨i, (hsub i).subset hi⟩
        · obtain ⟨i, hi⟩ := h
          rw [entries_dispatchIdle] at hi
          exact ⟨i, (hsub i).subset hi⟩
      refine (hleft.queued p ((beforePick_aged k rsp).queued p hbefore)).imp_right ?_
      rintro ⟨hc, hidle, hr⟩
      refine ⟨hc, hidle, hr, ?_⟩
      by_contra hne
      exact hleft.switch p ⟨hc, hidle, hr, Nat.pos_of_ne_zero hne⟩

/-- Whoever can run after a tick could before. -/
theorem runnable_scheduleTick {k : Kernel} {rsp : Nat} {p : Addr}
    (h : Runnable (scheduleTick k rsp).2 p) : Runnable k p := by
  have hi : (scheduleTick k rsp).2.idle = k.idle := idle_of_outside (scheduleTick_outside k rsp)
  rcases h with hq | ⟨hc, hidle, -⟩
  · exact (queued_scheduleTick hq).imp id fun h => ⟨h.1, h.2.1, h.2.2.1⟩
  · rw [hi] at hidle
    cases scheduleTick_cases k rsp with
    | keep c keeps _ current _ _ _ =>
        cases current.symm.trans hc
        exact .inr ⟨keeps.1, keeps.2.1, keeps.2.2.1⟩
    | dispatch n _ ready _ _ current _ _ _ =>
        cases current.symm.trans hc
        exact ready.imp And.left fun h => ⟨h.1, hidle, h.2⟩
    | idle d isIdle _ _ current _ _ _ =>
        cases current.symm.trans hc
        exact absurd isIdle hidle
    | nobody _ _ current _ _ _ => cases current.symm.trans hc

/-- The pid `allocate_pid` finds is one `process_register` accepts. -/
theorem processRegister_allocatePid {k : Kernel} {p : Addr} (hpid : allocatePid k ≠ 0)
    (hp : (k.proc p).pid = allocatePid k) : (processRegister k p).1 = true := by
  unfold allocatePid at hpid hp
  split at hp
  · next i hi =>
    have hslot := List.mem_range.mp (List.mem_of_find?_eq_some hi)
    have hfree := List.find?_some (p := fun i => (k.processes i).isNone) hi
    have hindex : PROCESS_FIRST_PID + i - PROCESS_FIRST_PID = i := Nat.add_sub_cancel_left ..
    unfold processRegister
    dsimp only
    rw [hp, hindex, if_neg (Nat.not_lt.mpr (Nat.le_add_right _ i)), if_neg (Nat.not_le.mpr hslot),
      if_neg (by rw [Option.isNone_iff_eq_none.mp hfree]; decide)]
  · next hnone =>
    rw [hnone] at hpid
    exact absurd rfl hpid

/-! ## The invariant -/

/-- The queues are fit to be selected from, their entries are within their levels, whoever can run has
    a slot in the process table, and times are clock times. -/
structure Orderly (s : SchedState) : Prop where
  queues : QueuesReady s
  levels : ∃ readied, LevelInv { sched := s, readied := readied, launching := none } ∧
    ∀ p, Queued s.k p → readied p = true
  registered : ∀ p, Runnable s.k p → ∃ pid, processLookup s.k pid = some p
  stamped : Stamped s.k

namespace Orderly

variable {s : SchedState}

/-- The level of an entry is that of its queue. -/
theorem inPlace (h : Orderly s) : EntriesInPlace s.k := by
  intro i _ p hp
  obtain ⟨readied, hlevel, hqueued⟩ := h.levels
  have hidle : s.k.idle ≠ some p := by
    rw [h.queues.sched.idle]
    rintro ⟨⟩
    exact h.queues.idleOut ⟨i, hp⟩
  obtain ⟨hready, hi⟩ := h.queues.sched.placed.entry i p hp hidle
  refine ⟨hready, hidle, ?_⟩
  rw [hi]
  refine (priorityIndex_of_le ?_).symm
  exact (hlevel.levels p).bounded (.inr (.inl (hqueued p ⟨i, hp⟩)))

/-- The same operation on the levels of `Levels.lean`. -/
theorem levels_apply (h : Orderly s) (op : SchedOp)
    (hq : ∀ p, Queued (s.apply op).k p → Queued s.k p ∨ s.readies op p = true) :
    ∃ readied, LevelInv { sched := s.apply op, readied := readied, launching := none } ∧
      ∀ p, Queued (s.apply op).k p → readied p = true := by
  obtain ⟨readied, hlevel, hqueued⟩ := h.levels
  refine ⟨_, hlevel.sched_step op, fun p hp => ?_⟩
  rw [Bool.or_eq_true]
  exact (hq p hp).imp_left (hqueued p)

/-- Whoever could run is still registered, if nothing happened to the table. -/
theorem registered_of_outer (h : Orderly s) {k' : Kernel} (hout : k'.outer = s.k.outer)
    (hrun : ∀ p, Runnable k' p → Runnable s.k p ∨ ∃ pid, processLookup s.k pid = some p) (p : Addr)
    (hp : Runnable k' p) : ∃ pid, processLookup k' pid = some p := by
  obtain ⟨pid, hpid⟩ := (hrun p hp).elim (h.registered p) id
  exact ⟨pid, (processLookup_of_outer hout pid).trans hpid⟩

theorem block (h : Orderly s) {pid : Nat} {p : Addr} (hp : processLookup s.k pid = some p) :
    Orderly (s.apply (.block p)) := by
  have hlive := h.queues.sched.tableLive pid p hp
  have hqueues := h.queues.block hlive
  have hlevels := h.levels_apply (.block p) fun q hq => .inl ?_
  · simp only [SchedState.apply, SchedState.onProcess, if_pos hlive] at hqueues hlevels ⊢
    have hout := processBlock_outside s.k p
    refine ⟨hqueues, hlevels, h.registered_of_outer (outer_of_outside hout) fun q hq => .inl ?_,
      h.stamped.processBlock p⟩
    exact ((processBlock_between s.k p).runnable (idle_of_outside hout)
      (fun _ => stateBut_running (by decide)) hq).resolve_right id
  · simp only [SchedState.apply, SchedState.onProcess, if_pos hlive] at hq
    exact ((processBlock_between s.k p).queued q hq).resolve_right id

theorem unblock (h : Orderly s) {pid : Nat} {p : Addr} (hp : processLookup s.k pid = some p)
    (hidle : p = Boot.idle → (s.k.proc p).state ≠ .blocked) : Orderly (s.apply (.unblock p)) := by
  have hlive := h.queues.sched.tableLive pid p hp
  have hqueues := h.queues.unblock hlive hidle
  have hbetween := processUnblock_between s.k p
  have hlevels := h.levels_apply (.unblock p) fun q hq => ?_
  · simp only [SchedState.apply, SchedState.onProcess, if_pos hlive] at hqueues hlevels ⊢
    have hout := processUnblock_outside s.k p
    refine ⟨hqueues, hlevels, h.registered_of_outer (outer_of_outside hout) fun q hq => ?_,
      h.stamped.processUnblock p⟩
    refine (hbetween.runnable (idle_of_outside hout) (fun r hr => ?_) hq).imp_right ?_
    · unfold unblockedState at hr
      split at hr
      · cases hr
      · exact hr
    · rintro ⟨rfl, -⟩
      exact ⟨pid, hp⟩
  · simp only [SchedState.apply, SchedState.onProcess, if_pos hlive] at hq
    refine (hbetween.queued q hq).imp_right ?_
    rintro ⟨rfl, hblocked⟩
    exact decide_eq_true ⟨rfl, hlive, hblocked⟩

theorem exit (h : Orderly s) {pid : Nat} {p : Addr} (hp : processLookup s.k pid = some p) :
    Orderly (s.apply (.exit p)) := by
  have hlive := h.queues.sched.tableLive pid p hp
  have hqueues := h.queues.exit hlive
  have hlevels := h.levels_apply (.exit p) fun q hq => .inl ?_
  · simp only [SchedState.apply, SchedState.onProcess, if_pos hlive] at hqueues hlevels ⊢
    have hout := exitFirstHalf_outer s.k p
    refine ⟨hqueues, hlevels, h.registered_of_outer hout fun q hq => .inl ?_, h.stamped.exitFirstHalf p⟩
    exact ((exitFirstHalf_between s.k p).runnable (idle_of_outer hout)
      (fun _ => stateBut_running (by decide)) hq).resolve_right id
  · simp only [SchedState.apply, SchedState.onProcess, if_pos hlive] at hq
    exact ((exitFirstHalf_between s.k p).queued q hq).resolve_right id

theorem setPriority (h : Orderly s) (pid priority : Nat) : Orderly (s.apply (.setPriority pid priority)) := by
  have hqueues := h.queues.setPriority pid priority
  obtain ⟨hbetween, hout⟩ := schedulerSetProcessPriority_between s.k pid priority
  refine ⟨hqueues, h.levels_apply _ fun q hq => .inl ?_,
    h.registered_of_outer (outer_of_outside hout) fun q hq => ?_,
    h.stamped.schedulerSetProcessPriority pid priority⟩
  · -- a READY target was in a queue before; idle is in none afterwards
    rcases hbetween.queued q hq with hq | ⟨hlookup, hready⟩
    · exact hq
    · refine h.queues.ready q (h.queues.sched.tableLive pid q hlookup) ?_ hready
      rintro rfl
      exact hqueues.idleOut hq
  · exact (hbetween.runnable (idle_of_outside hout) (fun _ => id) hq).imp_right fun hq => ⟨pid, hq.1⟩

theorem tick (h : Orderly s) (rsp : Nat) : Orderly (s.apply (.tick rsp)) := by
  refine ⟨h.queues.tick rsp, h.levels_apply _ fun q hq => ?_,
    h.registered_of_outer (outer_of_outside (scheduleTick_outside s.k rsp)) fun q hq =>
      .inl (runnable_scheduleTick hq), h.stamped.scheduleTick rsp⟩
  exact (queued_scheduleTick hq).imp_right fun hq => decide_eq_true hq

/-! ## Creation, reaping and yielding -/

/-- The outcomes of a creation. -/
theorem createReady_cases (s : SchedState) (isShell : Bool) (args : CreateArgs) (rsp : Nat) :
    createReady s isShell args rsp = s ∨
    createReady s isShell args rsp = { s with k := s.k.allocNext } ∨
    ∃ p, s.k.live p = none ∧ allocatePid s.k ≠ 0 ∧ (s.k.memAlloc .process).1 = some p ∧
      createReady s isShell args rsp =
        { k := schedulerAddReady (processRegister ((s.k.grant p .process).modProc p (fun _ =>
            { newProcess (allocatePid s.k) args with isShell := isShell, rsp := rsp })) p).2 p
          saved := Function.update s.saved p rsp } := by
  unfold createReady
  by_cases hpid : allocatePid s.k = 0
  · exact .inl (if_pos hpid)
  · rw [if_neg hpid]
    rcases memAlloc_cases s.k .process with hm | ⟨p, hfree, -, hm⟩
    · rw [hm]
      exact .inr (.inl rfl)
    · rw [hm]
      exact .inr (.inr ⟨p, hfree, hpid, rfl, rfl⟩)

theorem create (h : Orderly s) (isShell : Bool) (args : CreateArgs) (rsp : Nat) :
    Orderly (s.apply (.create isShell args rsp)) := by
  have hqueues := h.queues.create isShell args rsp
  have hlevels := h.levels_apply (.create isShell args rsp)
  simp only [SchedState.apply] at hqueues hlevels ⊢
  rcases createReady_cases s isShell args rsp with hs | hs | ⟨p, hfree, hpid, hm, hs⟩
  · rw [hs]
    exact h
  · rw [hs] at hqueues hlevels ⊢
    exact ⟨hqueues, hlevels fun q hq => .inl hq, h.registered, ⟨h.stamped.ticks, h.stamped.since⟩⟩
  · rw [hs] at hqueues hlevels ⊢
    dsimp only at hlevels ⊢
    set process : Process := { newProcess (allocatePid s.k) args with isShell := isShell, rsp := rsp }
    set k0 := (s.k.grant p .process).modProc p (fun _ => process) with hk0
    have hproc : k0.proc = Function.update s.k.proc p process := rfl
    have hstamped : Stamped k0 :=
      Stamped.modProc (k := s.k.grant p .process) ⟨h.stamped.ticks, h.stamped.since⟩ p _
        (show (0 : Nat) < 2 ^ 64 by decide)
    have hkernel := processRegister_kernel k0 p
    have hregisters : (processRegister k0 p).1 = true := by
      refine processRegister_allocatePid (k := k0) hpid ?_
      rw [hproc, Function.update_self]
      rfl
    set k1 := (processRegister k0 p).2 with hk1
    have hbetween := schedulerAddReady_between k1 p
    have hout := schedulerAddReady_outside k1 p
    have hidle : k1.idle = s.k.idle := by
      rw [hkernel]
      rfl
    have hqueued : ∀ q, Queued k1 q → Queued s.k q := by
      rintro q ⟨i, hi⟩
      rw [hkernel] at hi
      exact ⟨i, hi⟩
    -- the new process is READY: it is not the one that runs
    have hrunnable : ∀ q, Runnable k1 q → Runnable s.k q := by
      rintro q (hq | ⟨hc, hi, hr⟩)
      · exact .inl (hqueued q hq)
      · rw [hkernel] at hc hi hr
        dsimp only at hc hi hr
        rw [hproc, Function.update_apply] at hr
        split at hr
        · cases hr
        · exact .inr ⟨hc, hi, hr⟩
    refine ⟨hqueues, hlevels fun q hq => ?_, fun q hq => ?_, Stamped.schedulerAddReady ?_ p⟩
    · refine (hbetween.queued q hq).imp (hqueued q) ?_
      rintro rfl
      exact decide_eq_true ⟨hpid, hm⟩
    · rw [show (∃ pid, processLookup (schedulerAddReady k1 p) pid = some q) ↔
          ∃ pid, processLookup k1 pid = some q from
        exists_congr fun pid => by rw [processLookup_of_outer (outer_of_outside hout)]]
      rcases hbetween.runnable (idle_of_outside hout) (fun _ => stateBut_running (by decide)) hq with
        hq | rfl
      · obtain ⟨pid, hq⟩ := h.registered q (hrunnable q hq)
        exact ⟨pid, processRegister_keeps (k := k0) hq⟩
      · exact ⟨_, processRegister_self hregisters⟩
    · rw [hkernel]
      exact ⟨hstamped.ticks, hstamped.since⟩

/-- `process_unregister` frees the slot of a process that cannot run. -/
theorem reap (h : Orderly s) {pid : Nat} {p : Addr} (hp : processLookup s.k pid = some p)
    (hr : (s.k.proc p).state ≠ .ready) : Orderly (s.reap p) := by
  have hqueues := h.queues.reap hp hr
  obtain ⟨readied, hlevel, hqueued⟩ := h.levels
  unfold SchedState.reap at hqueues ⊢
  split at hqueues
  · next hno =>
    rw [if_pos hno]
    exact h
  · next hno =>
    rw [if_neg hno]
    obtain ⟨hidle, hcur⟩ := not_or.mp hno
    have hkernel := processUnregister_kernel s.k (s.k.proc p).pid
    have hother : ∀ q, Runnable s.k q → q ≠ p := by
      rintro q (⟨i, hi⟩ | ⟨hc, -, -⟩) rfl
      · exact hr (h.queues.sched.placed.entry i q hi hidle).1
      · exact hcur hc
    have hkeeps : ∀ q, q ≠ p → (∃ pid, processLookup s.k pid = some q) →
        ∃ pid, processLookup (processUnregister s.k (s.k.proc p).pid) pid = some q := by
      rintro q hqp ⟨pid', hq⟩
      refine ⟨pid', processUnregister_keeps hq ?_⟩
      rintro rfl
      rw [h.queues.pids pid p hp] at hq
      exact hqp (Option.some.inj (hq.symm.trans hp))
    rw [hkernel] at hqueues hkeeps ⊢
    exact {
      queues := hqueues
      levels := ⟨readied, ⟨hqueues.sched, hlevel.levels, hlevel.launching⟩, hqueued⟩
      registered := fun q hq => hkeeps q (hother q hq) (h.registered q hq)
      stamped := ⟨h.stamped.ticks, h.stamped.since⟩ }

theorem endQuantum (h : Orderly s) (c : Addr) :
    Orderly { s with k := s.k.modProc c Process.endQuantum } := by
  obtain ⟨readied, hlevel, hqueued⟩ := h.levels
  have hqueues := h.queues.endQuantum c
  have hbetween := modProc_between s.k c Process.endQuantum rfl rfl (fun _ => False)
  exact {
    queues := hqueues
    levels := ⟨readied, ⟨hqueues.sched, hlevel.levels.modRest c _ rfl rfl rfl rfl (Nat.zero_le _),
      hlevel.launching⟩, hqueued⟩
    registered := h.registered_of_outer (outer_of_outside (modProc_outside _ c _ rfl)) fun q hq =>
      .inl ((hbetween.runnable rfl (fun _ => id) hq).resolve_right id)
    stamped := h.stamped.modProc c _ (h.stamped.since c) }

/-! ## Runs -/

theorem onPid (h : Orderly s) (pid : Nat) (f : Addr → SchedState)
    (hf : ∀ p, processLookup s.k pid = some p → Orderly (f p)) : Orderly (s.onPid pid f) := by
  unfold SchedState.onPid
  split
  · exact h
  · next p hp => exact hf p hp

/-- **Step lemma.** -/
theorem call (h : Orderly s) {c : SchedCall} (hc : s.Harmless c) : Orderly (s.call c) := by
  cases c with
  | create isShell args rsp => exact h.create isShell args rsp
  | block pid => exact h.onPid pid _ fun p hp => h.block hp
  | unblock pid =>
      refine h.onPid pid _ fun p hp => h.unblock hp ?_
      rintro rfl
      exact hc _ hp h.queues.sched.idle
  | kill pid => exact h.onPid pid _ fun p hp => h.exit hp
  | reap pid => exact h.onPid pid _ fun p hp => h.reap hp (hc p hp)
  | setPriority pid priority => exact h.setPriority pid priority
  | yield =>
      simp only [SchedState.call]
      cases s.k.current with
      | none => exact h
      | some c => exact h.endQuantum c
  | tick rsp => exact h.tick rsp

theorem boot {memAnswers : Nat → Option Addr} (hmem : ∀ n, (memAnswers n).isSome) :
    Orderly (SchedState.boot memAnswers) where
  queues := .boot hmem
  levels := by
    refine ⟨_, LevelInv.boot memAnswers, ?_⟩
    rintro p ⟨i, hi⟩
    change p ∈ entries (Boot.kernel memAnswers) i at hi
    rw [entries_boot] at hi
    split at hi
    · exact decide_eq_true (List.mem_singleton.mp hi)
    · cases hi
  registered := by
    rintro p (⟨i, hi⟩ | ⟨hc, -⟩)
    · change p ∈ entries (Boot.kernel memAnswers) i at hi
      rw [entries_boot] at hi
      split at hi
      · rw [List.mem_singleton.mp hi]
        exact ⟨2, rfl⟩
      · cases hi
    · cases hc
  stamped := by
    refine ⟨show (0 : Nat) < 2 ^ 64 by decide, fun p => ?_⟩
    change ((Boot.kernel memAnswers).proc p).readySinceTick < _
    simp only [Boot.kernel]
    split
    · decide
    · split <;> decide

/-- **Run lemma.** -/
theorem run {memAnswers : Nat → Option Addr} (hmem : ∀ n, (memAnswers n).isSome) {calls : List SchedCall}
    (h : GuardedRun SchedState.step SchedState.Harmless (SchedState.boot memAnswers) calls s) :
    Orderly s := by
  refine h.invariant Orderly (fun s c s' hs hc hstep => ?_) (boot hmem)
  cases hstep
  exact hs.call hc

end Orderly

end TpSo
