import TpSo.Scheduler.Stranded

set_option autoImplicit false

/-! # No process is lost while memory lasts

While every `queue_push` finds memory, whoever is in a ready queue stays in one until it is
dispatched, and `schedule_tick` falls back to idle only when all ready queues are empty. -/

namespace TpSo

/-- Every level has its queue, and the allocator never fails. -/
structure Lossless (k : Kernel) : Prop where
  queues : HasQueues k
  memory : ∀ n, (k.memAnswers n).isSome

namespace Lossless

variable {k k' : Kernel}

theorem allocOk (h : Lossless k) : k.allocOk = true := h.memory _

theorem congr (h : Lossless k) (hq : HasQueues k') (hm : k'.memAnswers = k.memAnswers) :
    Lossless k' := by
  refine ⟨hq, ?_⟩
  rw [hm]
  exact h.memory

theorem modProc (h : Lossless k) (p : Addr) (f : Process → Process) : Lossless (k.modProc p f) :=
  h.congr (h.queues.modProc p f) rfl

theorem setReady (h : Lossless k) (i : Nat) (xs : List Addr) : Lossless (k.setReady i (some xs)) :=
  h.congr (h.queues.setReady i (Option.some_ne_none xs)) rfl

theorem same (h : Lossless k) (hs : SameButQueues k k') (hq : HasQueues k') : Lossless k' :=
  h.congr hq (answers_of_outside hs.outside)

end Lossless

/-! ## Ready queues -/

theorem queued_pushReady_of_queued {k : Kernel} (priority : Nat) (p : Addr) {q : Addr}
    (h : Queued k q) : Queued (pushReady k priority p) q := by
  obtain ⟨i, hi⟩ := h
  rcases entries_pushReady k priority p with he | he
  · exact ⟨i, he i ▸ hi⟩
  · refine ⟨i, ?_⟩
    rw [he i]
    split
    · exact List.mem_append_left _ hi
    · exact hi

/-- Taking the head off a queue takes nobody else out. -/
theorem queued_pop {k : Kernel} {i : Nat} {p q : Addr} {rest : List Addr}
    (hi : k.readyQueues i = some (p :: rest)) (h : Queued k q) :
    q = p ∨ Queued (k.setReady i (some rest)) q := by
  obtain ⟨j, hj⟩ := h
  by_cases hji : j = i
  · subst hji
    rw [entries, hi, Option.getD_some] at hj
    rcases List.mem_cons.mp hj with rfl | hj
    · exact .inl rfl
    · refine .inr ⟨j, ?_⟩
      rw [entries_setReady, if_pos rfl]
      exact hj
  · refine .inr ⟨j, ?_⟩
    rw [entries_setReady, if_neg hji]
    exact hj

/-- `scheduler_remove_ready` takes nobody else out. -/
theorem queued_leaveReady_of_ne {k : Kernel} {p q : Addr} (hqp : q ≠ p) (h : Queued k q) :
    Queued (leaveReady k p) q := by
  obtain ⟨i, hi⟩ := h
  refine ⟨i, ?_⟩
  unfold leaveReady
  split
  · by_cases hidle : k.idle = some p
    · rwa [schedulerRemoveReady, if_pos hidle.symm]
    · rw [entries_schedulerRemoveReady hidle i]
      exact List.mem_filter.mpr ⟨hi, by simpa using hqp⟩
  · exact hi

theorem queued_schedulerAddReady_self {k : Kernel} (h : Lossless k) (p : Addr) :
    Queued (schedulerAddReady k p) p :=
  (queued_schedulerAddReady_iff h.queues p).mpr (.inl h.allocOk)

theorem queued_schedulerAddReady_of_queued {k : Kernel} (h : Lossless k) (p : Addr) {q : Addr}
    (hq : Queued k q) : Queued (schedulerAddReady k p) q := by
  by_cases hqp : q = p
  · subst hqp
    exact queued_schedulerAddReady_self h q
  · rw [schedulerAddReady_eq]
    exact queued_pushReady_of_queued _ p (queued_leaveReady_of_ne hqp hq)

/-! ## Aging -/

/-- **The inner loop of `scheduler_age_ready`** puts back everybody it takes out. -/
theorem queued_ageLevel (priority items : Nat) : ∀ {k : Kernel}, Lossless k → ∀ {q : Addr},
    Queued k q → Queued (ageLevel k priority items) q := by
  induction items with
  | zero => exact fun _ _ hq => hq
  | succ items ih =>
      intro k h q hq
      unfold ageLevel
      rcases queuePop_cases (k.readyQueues (priorityIndex priority)) with ⟨hp, -, -⟩ | ⟨p, rest, hi, hp⟩
      · rw [show queuePop (k.readyQueues (priorityIndex priority)) = (none, _) from Prod.ext hp rfl]
        exact hq
      · rw [hp]
        dsimp only
        have hpopped := queued_pop hi hq
        have h1 := h.setReady (priorityIndex priority) rest
        split
        · have h2 := h1.modProc p (fun x => { x with
            priority := shellFloor x (x.priority - 1)
            readySinceTick := (k.setReady (priorityIndex priority) (some rest)).totalTicks })
          refine ih (h2.same (pushReady_same _ _ _) (pushReady_hasQueues h2.queues _ p)) ?_
          rcases hpopped with rfl | hq
          · exact (queued_pushReady_iff h2.queues _ q).mpr (.inl h2.allocOk)
          · exact queued_pushReady_of_queued _ p hq
        · rw [show (k.setReady (priorityIndex priority) (some rest)).readyQueues
            (priorityIndex priority) = some rest from Function.update_self ..,
            queuePush_ok _ rest p h1.allocOk]
          dsimp only
          have h2 : Lossless (k.setReady (priorityIndex priority) (some rest)).allocNext :=
            h1.congr h1.queues rfl
          refine ih ?_ ?_
          · exact h2.setReady _ (rest ++ [p])
          · rcases hpopped with rfl | ⟨j, hj⟩
            · exact ⟨priorityIndex priority, by simp⟩
            · refine ⟨j, ?_⟩
              rw [entries_setReady] at hj ⊢
              split
              · next hji =>
                rw [if_pos hji] at hj
                exact List.mem_append_left _ hj
              · next hji =>
                rw [if_neg hji] at hj
                rw [entries, show (k.setReady (priorityIndex priority) (some rest)).allocNext.readyQueues j =
                  k.readyQueues j from Function.update_of_ne hji ..]
                exact hj

theorem queued_schedulerAgeReady {k : Kernel} (h : Lossless k) {q : Addr} (hq : Queued k q) :
    Queued (schedulerAgeReady k) q := by
  unfold schedulerAgeReady
  refine (List.foldlRecOn (motive := fun k => Lossless k ∧ Queued k q) [1, 2, 3, 4, 5] _ ⟨h, hq⟩
    fun k' hk priority _ => ?_).2
  obtain ⟨hl, hq'⟩ := hk
  dsimp only
  rw [hl.queues.queueForPriority]
  refine ⟨?_, queued_ageLevel _ _ hl hq'⟩
  exact hl.congr (ageLevel_hasQueues _ _ hl.queues) (answers_of_outside (ageLevel_aged _ _ _).outside)

/-! ## Picking -/

/-- **The selection loop** takes out the process it picks and nobody else, where every entry is
    `READY` and none is idle. -/
theorem queued_pickNext (levels : List Nat) : ∀ {k : Kernel}, HasQueues k →
    (∀ p, Queued k p → (k.proc p).state = .ready ∧ k.idle ≠ some p) → ∀ {q : Addr}, Queued k q →
      (pickNext k levels).1 = some q ∨ Queued (pickNext k levels).2 q := by
  induction levels with
  | nil => exact fun _ _ _ hq => .inr hq
  | cons priority rest ih =>
      intro k h hready q hq
      unfold pickNext
      rw [h.queueForPriority]
      dsimp only
      rcases queuePop_cases (k.readyQueues (priorityIndex priority)) with ⟨hp, hp', -⟩ | ⟨p, xs, hi, hp⟩
      · rw [show queuePop (k.readyQueues (priorityIndex priority)) =
          (none, k.readyQueues (priorityIndex priority)) from Prod.ext hp hp']
        have hsame : k.setReady (priorityIndex priority) (k.readyQueues (priorityIndex priority)) = k := by
          unfold Kernel.setReady
          rw [Function.update_eq_self]
        dsimp only
        rw [hsame]
        exact ih h hready hq
      · rw [hp]
        obtain ⟨hs, hidle⟩ := hready p (queued_head hi)
        have hs' : ((k.setReady (priorityIndex priority) (some xs)).proc p).state = .ready := hs
        have hidle' : some p ≠ (k.setReady (priorityIndex priority) (some xs)).idle :=
          fun hp => hidle hp.symm
        simp only [hs', if_true, if_neg hidle']
        exact (queued_pop hi hq).imp (fun hqp => congrArg some hqp.symm) id

/-! ## `scheduler_set_process_priority` -/

/-- `transfer` moves everybody while it finds memory. -/
theorem transfer_of_memory (xs : List Addr) : ∀ {k : Kernel} (ys : List Addr),
    (∀ j < xs.length, (k.memAnswers (k.memCalls + j)).isSome) →
      transfer k (some ys) xs = (some (ys ++ xs), { k with memCalls := k.memCalls + xs.length }) := by
  induction xs with
  | nil =>
    intro k ys _
    simp [transfer]
  | cons x rest ih =>
    intro k ys hmem
    have hok : k.allocOk = true := hmem 0 (Nat.succ_pos _)
    have hrest : ∀ j < rest.length, (k.allocNext.memAnswers (k.allocNext.memCalls + j)).isSome := by
      intro j hj
      have hnext := hmem (j + 1) (Nat.succ_lt_succ hj)
      rwa [Nat.add_comm j 1, ← Nat.add_assoc] at hnext
    unfold transfer
    rw [queuePush_ok k ys x hok]
    dsimp only
    rw [ih (ys ++ [x]) hrest, List.append_assoc, List.length_cons, Nat.add_comm rest.length 1,
      ← Nat.add_assoc]
    rfl

/-- The purge fails when the temporary queue cannot be allocated; otherwise it takes the process out
    of the level, as long as the transfers find memory. -/
theorem purgeLevel_of_memory {k : Kernel} (hq : HasQueues k) (p : Addr) (oldPriority : Nat)
    {kept : List Addr}
    (hkept : (entries k (priorityIndex oldPriority)).filter (fun e => decide (e ≠ p)) = kept)
    (hmem : ∀ j < 2 * kept.length, (k.memAnswers (k.memCalls + 1 + j)).isSome) :
    purgeLevel k p oldPriority =
      if k.allocOk = true then
        some ({ k with memCalls := k.memCalls + 1 + 2 * kept.length }.setReady
          (priorityIndex oldPriority) (some kept))
      else none := by
  unfold purgeLevel
  rw [hq.queueForPriority]
  dsimp only
  cases hok : k.allocOk with
  | false => simp [queueCreate, hok]
  | true =>
    simp only [queueCreate, hok, if_true, hq.some_entries, Option.getD_some, Option.map_some,
      Option.isNone_some, Bool.false_eq_true, if_false, hkept]
    have hto : ∀ j < kept.length, (k.allocNext.memAnswers (k.allocNext.memCalls + j)).isSome :=
      fun j hj => hmem j (by omega)
    have hback : ∀ j < kept.length, (k.memAnswers (k.memCalls + 1 + kept.length + j)).isSome :=
      fun j hj => by
        rw [Nat.add_assoc]
        exact hmem _ (by omega)
    rw [transfer_of_memory kept (k := k.allocNext) [] hto]
    dsimp only
    rw [List.nil_append, Option.getD_some,
      transfer_of_memory kept (k := { k.allocNext with memCalls := k.allocNext.memCalls + kept.length }) []
        hback,
      List.nil_append, Nat.two_mul, ← Nat.add_assoc (k.memCalls + 1)]
    rfl

theorem queued_purgeLevel {k : Kernel} (h : Lossless k) (p : Addr) (oldPriority : Nat) :
    ∃ k', purgeLevel k p oldPriority = some k' ∧ Lossless k' ∧ SameButQueues k k' ∧
      ∀ q, q ≠ p → Queued k q → Queued k' q := by
  have hk' := purgeLevel_of_memory h.queues p oldPriority rfl fun j _ => h.memory _
  rw [if_pos h.allocOk] at hk'
  have hsame := (purgeLevel_spec hk').1
  refine ⟨_, hk', h.same hsame (purgeLevel_hasQueues h.queues hk'), hsame, ?_⟩
  rintro q hqp ⟨i, hi⟩
  refine ⟨i, ?_⟩
  rw [entries_setReady]
  split
  · next hie =>
    subst hie
    exact List.mem_filter.mpr ⟨hi, by simpa using hqp⟩
  · exact hi

/-- **`scheduler_set_process_priority`** leaves everybody in a ready queue who was in one. -/
theorem queued_schedulerSetProcessPriority {k : Kernel} (h : Lossless k) (pid priority : Nat) {q : Addr}
    (hq : Queued k q) (hr : (k.proc q).state = .ready) :
    Queued (schedulerSetProcessPriority k pid priority).2 q := by
  have hstore : ∀ {k' : Kernel} {p : Addr} (old : Nat), Lossless k' → (q ≠ p → Queued k' q) →
      (k'.proc q).state = .ready → (q = p → priority ≠ old ∨ Queued k' q) →
        Queued (storePriority k' p priority old) q := by
    intro k' p old hl hother hready hself
    have hwritten := hl.modProc p (priorityFields priority)
    have hmove : Queued (enqueueMoved (k'.modProc p (priorityFields priority)) p old) q := by
      unfold enqueueMoved
      by_cases hqp : q = p
      · subst hqp
        split
        · exact (queued_pushReady_iff hwritten.queues _ q).mpr (.inl hwritten.allocOk)
        · next hno =>
          refine (hself rfl).resolve_left fun hne => hno ?_
          simp only [Kernel.modProc, Function.update_self]
          exact ⟨hready, fun he => hne ((shellFloor_eq _ _).symm.trans he)⟩
      · split
        · exact queued_pushReady_of_queued _ p (hother hqp)
        · exact hother hqp
    unfold storePriority refreshQuantum
    split
    · exact hmove
    · exact hmove
  unfold schedulerSetProcessPriority
  split
  · exact hq
  · split
    · exact hq
    · next p _ =>
      repeat (split; exact hq)
      dsimp only
      obtain ⟨k', hk', hl, hsame, hkeep⟩ := queued_purgeLevel h p (k.proc p).priority
      have hs' : (k'.proc q).state = .ready := by
        rw [hsame.proc]
        exact hr
      rw [hk']
      by_cases hc : (k.proc p).state = .ready ∧ priority ≠ (k.proc p).priority
      · rw [if_pos hc]
        exact hstore _ hl (fun hqp => hkeep q hqp hq) hs' fun _ => .inl hc.2
      · rw [if_neg hc]
        exact hstore _ h (fun _ => hq) hr fun _ => .inr hq

/-- It does nothing to idle. -/
theorem queued_setPriority_idle {k : Kernel} {pid priority : Nat} {p : Addr} (hi : k.idle = some p)
    (h : Queued (schedulerSetProcessPriority k pid priority).2 p) : Queued k p := by
  rcases (schedulerSetProcessPriority_between k pid priority).1.queued p h with hq | ⟨hp, -⟩
  · exact hq
  · unfold schedulerSetProcessPriority at h
    rw [hp] at h
    simp only [hi, if_true] at h
    repeat' split at h
    all_goals exact h

/-! ## The whole tick -/

@[simp] theorem entries_dispatch (k : Kernel) (n : Addr) (i : Nat) :
    entries (dispatch k n) i = entries k i := rfl

theorem queued_dispatch {k : Kernel} {q : Addr} (h : Queued k q) (n : Addr) : Queued (dispatch k n) q := h

theorem current_dispatch (k : Kernel) (n : Addr) : (dispatch k n).current = some n := rfl

theorem queued_dispatchIdle {k : Kernel} {q : Addr} (h : Queued k q) (rsp : Nat) :
    Queued (dispatchIdle k rsp).2 q := by
  unfold dispatchIdle
  split <;> exact h

theorem queued_tickRunning {k : Kernel} (h : Lossless k) (rsp : Nat) {q : Addr} (hq : Queued k q) :
    Queued (tickRunning k rsp).2 q := by
  cases hc : k.current with
  | none => simpa only [tickRunning, hc] using hq
  | some c =>
      rw [tickRunning_eq hc]
      have hsaved : Lossless (saveRsp k c rsp) := h.modProc c _
      split
      · exact hq
      · split
        · exact hq
        · split
          · exact hq
          · exact queued_schedulerAddReady_of_queued hsaved c hq

/-- A `RUNNING` process whose quantum is used up goes to a ready queue. -/
theorem queued_preempted {k : Kernel} (h : Lossless k) (rsp : Nat) {c : Addr} (hc : k.current = some c)
    (hidle : k.idle ≠ some c) (hr : (k.proc c).state = .running) (hkeep : ¬ keepsRunning k c) :
    Queued (tickRunning k rsp).2 c := by
  have hq : (k.proc c).remainingQuantum = 0 := by
    by_contra hne
    exact hkeep ⟨hc, hidle, hr, Nat.pos_of_ne_zero hne⟩
  have hself : (saveRsp k c rsp).proc c = { k.proc c with rsp := rsp } := Function.update_self ..
  have hsaved : Lossless (saveRsp k c rsp) := h.modProc c _
  rw [tickRunning_eq hc, if_neg (Ne.symm hidle), hself, hr, if_neg (not_not.mpr rfl), hq,
    if_neg (Nat.lt_irrefl 0)]
  exact queued_schedulerAddReady_self hsaved c

/-- The process may be given the processor, now or later: it is in a ready queue or runs. -/
def Runnable (k : Kernel) (p : Addr) : Prop :=
  Queued k p ∨ k.current = some p ∧ k.idle ≠ some p ∧ (k.proc p).state = .running

section Tick
variable {k : Kernel} (h : Lossless k) (hpl : Placed k) (hidle : ∀ p, k.idle = some p → ¬ Queued k p)
  (rsp : Nat)

include h in
theorem scheduleTick_lossless : Lossless (scheduleTick k rsp).2 :=
  h.congr (scheduleTick_hasQueues h.queues rsp) (answers_of_outside (scheduleTick_outside k rsp))

include h in
/-- Whoever may run is in a ready queue once the interrupted process has been left. -/
theorem queued_beforePick (hsw : (tickRunning (countTick k) rsp).1 = true) {p : Addr}
    (hp : Runnable k p) : Queued (beforePick k rsp) p := by
  have hcount : Lossless (countTick k) := h.congr h.queues.countTick rfl
  have hleft := tickRunning_left hsw
  refine queued_schedulerAgeReady (hcount.congr (tickRunning_hasQueues hcount.queues rsp)
    (answers_of_outside hleft.outside)) ?_
  rcases hp with hq | ⟨hc, hi, hr⟩
  · exact queued_tickRunning hcount rsp hq
  · exact queued_preempted hcount rsp hc hi hr (hleft.switch p)

include hpl hidle in
/-- Every entry the selection loop looks at is `READY` and none is idle. -/
theorem beforePick_ready (hsw : (tickRunning (countTick k) rsp).1 = true) :
    Placed (beforePick k rsp) ∧ ∀ p, Queued (beforePick k rsp) p →
      ((beforePick k rsp).proc p).state = .ready ∧ (beforePick k rsp).idle ≠ some p := by
  have hleft := tickRunning_left hsw
  have haged := beforePick_aged k rsp
  have hplaced : Placed (beforePick k rsp) := by
    refine schedulerAgeReady_placed (hleft.placed ?_)
    exact hpl.congr rfl rfl rfl fun _ => rfl
  have hi : (beforePick k rsp).idle = k.idle := haged.idle.trans (idle_of_outside hleft.outside)
  refine ⟨hplaced, fun p hp => ?_⟩
  have hne : (beforePick k rsp).idle ≠ some p := by
    rw [hi]
    intro hip
    rcases hleft.queued p (haged.queued p hp) with hq | ⟨-, hne, -⟩
    · exact hidle p hip hq
    · exact hne hip
  obtain ⟨i, hm⟩ := hp
  exact ⟨(hplaced.entry i p hm hne).1, hne⟩

include h hpl hidle in
/-- **The fall-back to idle** happens only when nobody else may run. -/
theorem nobody_runnable (hn : NothingToRun k rsp) (p : Addr) : ¬ Runnable k p := by
  intro hp
  have hsw : (tickRunning (countTick k) rsp).1 = true := by
    by_contra hne
    obtain ⟨c, hkeep, -⟩ := tickRunning_keep (Bool.not_eq_true _ ▸ hne)
    exact hn.1 c hkeep
  obtain ⟨hplaced, hready⟩ := beforePick_ready hpl hidle rsp hsw
  obtain ⟨i, hi⟩ := queued_beforePick h rsp hsw hp
  obtain ⟨hs, hne⟩ := hready p ⟨i, hi⟩
  have hlevel : i ∈ levels := by
    rw [(hplaced.entry i p hi hne).2]
    exact List.mem_range.mpr (priorityIndex_lt _)
  obtain ⟨q, hq⟩ : ∃ q, (entries (beforePick k rsp) i).head? = some q := by
    cases he : entries (beforePick k rsp) i with
    | nil =>
        rw [he] at hi
        cases hi
    | cons q xs => exact ⟨q, rfl⟩
  have hmem : Queued (beforePick k rsp) q := ⟨i, List.mem_of_mem_head? hq⟩
  rcases hn.2 i hlevel q hq with hqi | hqs
  · exact (hready q hmem).2 hqi
  · exact hqs (hready q hmem).1

include h hpl hidle in
/-- **A tick loses nobody**: whoever might run before is in a ready queue or current. -/
theorem scheduleTick_runnable {p : Addr} (hp : Runnable k p) :
    Queued (scheduleTick k rsp).2 p ∨ (scheduleTick k rsp).2.current = some p := by
  rw [scheduleTick_eq]
  cases hsw : (tickRunning (countTick k) rsp).1 with
  | false =>
      obtain ⟨c, hkeep, -, -, -, hcur, hq, -⟩ := tickRunning_keep hsw
      rw [if_neg (by decide), hcur]
      rcases hp with ⟨i, hi⟩ | ⟨hc, -, -⟩
      · refine .inl ⟨i, ?_⟩
        have he : entries (tickRunning (countTick k) rsp).2 i = entries k i := hq i
        rw [← he] at hi
        exact hi
      · cases hkeep.1.symm.trans hc
        exact .inr hcur
  | true =>
      rw [if_pos rfl]
      have hcount : Lossless (countTick k) := h.congr h.queues.countTick rfl
      have hqueues : HasQueues (beforePick k rsp) :=
        schedulerAgeReady_hasQueues (tickRunning_hasQueues hcount.queues rsp)
      have hpick := queued_pickNext levels hqueues (beforePick_ready hpl hidle rsp hsw).2
        (queued_beforePick h rsp hsw hp)
      split
      · next n hn =>
        rcases hpick with hpn | hq
        · cases hn.symm.trans hpn
          exact .inr (current_dispatch _ _)
        · exact .inl (queued_dispatch hq n)
      · next hn =>
        rcases hpick with hpn | hq
        · cases hn.symm.trans hpn
        · exact .inl (queued_dispatchIdle hq rsp)

end Tick

end TpSo
