import TpSo.Scheduler.Ops

set_option autoImplicit false

/-! # The aging pass

`scheduler_age_ready` rotates every queue below the top one in place: it pops as many entries as the
queue holds when its turn comes, pushes those that have waited long enough onto the queue above, and
the others back. The queue above has had its turn by then, so nobody moves twice. -/

namespace TpSo

/-- Ticks since the process became ready or was last promoted, a `uint64_t` difference. -/
def waitedTicks (k : Kernel) (p : Addr) : Nat :=
  (k.totalTicks + 2 ^ 64 - (k.proc p).readySinceTick) % 2 ^ 64

/-- The process is below the top level and has waited for `SCHEDULER_AGING_THRESHOLD` ticks. -/
def dueForPromotion (k : Kernel) (p : Addr) : Bool :=
  decide (0 < (k.proc p).priority ∧ SCHEDULER_AGING_THRESHOLD ≤ waitedTicks k p)

/-- The process one level up, its waiting time starting again. -/
def promoted (k : Kernel) (p : Addr) : Process :=
  { k.proc p with priority := (k.proc p).priority - 1, readySinceTick := k.totalTicks }

/-- The entries of a level that the pass leaves there. -/
def staying (k : Kernel) (i : Nat) : List Addr := (entries k i).filter (fun p => !dueForPromotion k p)

/-- The entries of a level that the pass moves up. -/
def moving (k : Kernel) (i : Nat) : List Addr := (entries k i).filter (fun p => dueForPromotion k p)

/-- Every entry of a ready queue is `READY`, is not idle and has the level of the queue as its own. -/
def EntriesInPlace (k : Kernel) : Prop :=
  ∀ i < SCHEDULER_PRIORITY_LEVELS, ∀ p ∈ entries k i,
    (k.proc p).state = .ready ∧ k.idle ≠ some p ∧ (k.proc p).priority = i

/-! ## Pushing while memory lasts -/

section Memory
variable {k : Kernel} (hmem : ∀ n, (k.memAnswers n).isSome)

include hmem in
theorem queueForPriority_of_memory (priority : Nat) :
    (queueForPriority k priority).readyQueues (priorityIndex priority) =
      some (entries k (priorityIndex priority)) := by
  unfold queueForPriority
  cases hq : k.readyQueues (priorityIndex priority) with
  | some xs => simp only [hq, entries, Option.getD_some]
  | none =>
    have hok : k.allocOk = true := hmem k.memCalls
    simp only [queueCreate, hok, if_true, Kernel.setReady, Function.update_self, entries, hq,
      Option.getD_none]

include hmem in
theorem entries_pushReady_of_memory (priority : Nat) (p : Addr) (i : Nat) :
    entries (pushReady k priority p) i =
      if i = priorityIndex priority then entries k i ++ [p] else entries k i := by
  have hok : (queueForPriority k priority).allocOk = true := by
    unfold Kernel.allocOk
    rw [show (queueForPriority k priority).memAnswers = k.memAnswers from
      answers_of_outside (queueForPriority_same k priority).outside]
    exact hmem _
  unfold pushReady
  dsimp only
  rw [queueForPriority_of_memory hmem, queuePush_ok _ _ p hok, entries_setReady]
  split
  · next hi => rw [hi, Option.getD_some]
  · exact entries_queueForPriority k priority i

end Memory

/-! ## One level -/

/-- What the pass over one level does to the queues and to the processes it meets. -/
structure LevelAged (k k' : Kernel) (i : Nat) (todo done : List Addr) : Prop where
  level : entries k' i = done ++ todo.filter (fun p => !dueForPromotion k p)
  above : entries k' (i - 1) = entries k (i - 1) ++ todo.filter (fun p => dueForPromotion k p)
  others : ∀ j, j ≠ i → j ≠ i - 1 → entries k' j = entries k j
  proc : ∀ p, k'.proc p = if p ∈ todo ∧ dueForPromotion k p = true then promoted k p else k.proc p
  rest : k' = { k with proc := k'.proc, readyQueues := k'.readyQueues, memCalls := k'.memCalls }

theorem schedulerShouldAge_eq {k : Kernel} {p : Addr} (hi : k.idle ≠ some p) :
    schedulerShouldAge k p = dueForPromotion k p := by
  unfold schedulerShouldAge dueForPromotion waitedTicks
  rw [if_neg (Ne.symm hi)]
  by_cases htop : (k.proc p).priority ≤ SCHEDULER_MAX_PRIORITY
  · have hzero : ¬ 0 < (k.proc p).priority := Nat.not_lt.mpr htop
    simp [htop, hzero]
  · have hpos : 0 < (k.proc p).priority := Nat.lt_of_not_le htop
    simp [htop, hpos]

theorem agePromote_proc (k : Kernel) (p q : Addr) :
    (agePromote k p).proc q = if q = p then promoted k p else k.proc q := by
  unfold agePromote Kernel.modProc promoted
  dsimp only
  rw [Function.update_apply, shellFloor_eq]

/-- What is due depends on the process and the tick count alone. -/
theorem dueForPromotion_congr {k k' : Kernel} {p : Addr} (hp : k'.proc p = k.proc p)
    (ht : k'.totalTicks = k.totalTicks) : dueForPromotion k' p = dueForPromotion k p := by
  unfold dueForPromotion waitedTicks
  rw [hp, ht]

theorem promoted_congr {k k' : Kernel} {p : Addr} (hp : k'.proc p = k.proc p)
    (ht : k'.totalTicks = k.totalTicks) : promoted k' p = promoted k p := by
  unfold promoted
  rw [hp, ht]

/-- **The inner loop of `scheduler_age_ready`.** With `todo` still to be visited and `done` already
    put back behind it, the loop takes `todo` apart: who is due joins the level above, in order, the
    others come behind `done`, in order. -/
theorem ageLevel_aged_entries {i : Nat} (hpos : 0 < i) (hlt : i < SCHEDULER_PRIORITY_LEVELS)
    (todo : List Addr) : ∀ {k : Kernel} {done : List Addr}, (∀ n, (k.memAnswers n).isSome) →
      k.readyQueues i = some (todo ++ done) → todo.Nodup →
      (∀ p ∈ todo, (k.proc p).state = .ready ∧ k.idle ≠ some p ∧ (k.proc p).priority = i) →
      LevelAged k (ageLevel k i todo.length) i todo done := by
  have hidx : priorityIndex i = i := priorityIndex_of_lt hlt
  have habove : priorityIndex (i - 1) = i - 1 :=
    priorityIndex_of_lt (Nat.lt_of_le_of_lt (Nat.sub_le i 1) hlt)
  have hne : i - 1 ≠ i := by omega
  induction todo with
  | nil =>
    intro k done _ hq _ _
    refine ⟨?_, ?_, fun _ _ _ => rfl, fun p => ?_, rfl⟩
    · simp [ageLevel, entries, hq]
    · simp [ageLevel]
    · simp [ageLevel]
  | cons p todo ih =>
    intro k done hmem hq hnodup hin
    obtain ⟨hready, hidle, hlevel⟩ := hin p List.mem_cons_self
    obtain ⟨hp, hnodup⟩ := List.nodup_cons.mp hnodup
    have hneq : ∀ q ∈ todo, q ≠ p := fun q hq' he => hp (he ▸ hq')
    have hpop : queuePop (k.readyQueues (priorityIndex i)) = (some p, some (todo ++ done)) := by
      rw [hidx, hq]
      rfl
    rw [List.length_cons, ageLevel, hpop]
    dsimp only
    -- the kernel without the popped entry
    set k1 := k.setReady (priorityIndex i) (some (todo ++ done)) with hk1
    have hage : schedulerShouldAge k1 p = dueForPromotion k p := schedulerShouldAge_eq hidle
    have hstate : (k1.proc p).state = .ready := hready
    have hentries : ∀ j, j ≠ i → entries k1 j = entries k j := fun j hj => by
      rw [hk1, entries_setReady, hidx, if_neg hj]
    rw [hage]
    by_cases hdue : dueForPromotion k p = true
    · -- the entry joins the level above
      rw [if_pos ⟨hstate, hdue⟩]
      set k2 := agePromote k1 p with hk2
      have hproc2 : ∀ q, k2.proc q = if q = p then promoted k p else k.proc q :=
        agePromote_proc k1 p
      have hprio : (k2.proc p).priority = i - 1 := by
        rw [hproc2, if_pos rfl, promoted, hlevel]
      rw [hprio]
      have hmem2 : ∀ n, (k2.memAnswers n).isSome := hmem
      have hpush := entries_pushReady_of_memory hmem2 (i - 1) p
      have hsame := pushReady_same k2 (i - 1) p
      set k3 := pushReady k2 (i - 1) p with hk3
      have hent2 : ∀ j, entries k2 j = entries k1 j := fun _ => rfl
      have hproc3 : ∀ q ∈ todo, k3.proc q = k.proc q := fun q hq' => by
        rw [hsame.proc, hproc2, if_neg (hneq q hq')]
      have hticks : k3.totalTicks = k.totalTicks := hsame.totalTicks
      have hqueue : k3.readyQueues i = some (todo ++ done) := by
        have hkept : k2.readyQueues i = some (todo ++ done) := by
          show Function.update k.readyQueues (priorityIndex i) _ i = _
          rw [hidx, Function.update_self]
        rw [hk3]
        unfold pushReady
        dsimp only
        rw [habove]
        have hother : ∀ j, j ≠ i - 1 → (queueForPriority k2 (i - 1)).readyQueues j = k2.readyQueues j := by
          intro j hj
          unfold queueForPriority
          rw [habove]
          split
          · rfl
          · exact Function.update_of_ne hj ..
        rw [queuePush_kernel]
        exact (Function.update_of_ne hne.symm ..).trans ((hother i hne.symm).trans hkept)
      have haged := ih (k := k3)
        (by rw [answers_of_outside hsame.outside]; exact hmem2) hqueue hnodup (fun q hq' => by
          rw [hproc3 q hq', hsame.idle]
          exact hin q (List.mem_cons_of_mem p hq'))
      have hdue3 : ∀ q ∈ todo, dueForPromotion k3 q = dueForPromotion k q := fun q hq' =>
        dueForPromotion_congr (hproc3 q hq') hticks
      refine ⟨?_, ?_, fun j hj hj' => ?_, fun q => ?_, ?_⟩
      · rw [haged.level, List.filter_cons_of_neg (by simp [hdue])]
        congr 1
        exact List.filter_congr fun q hq' => by rw [hdue3 q hq']
      · rw [haged.above, hpush, if_pos habove.symm, hent2, hentries _ hne,
          List.filter_cons_of_pos hdue, List.append_assoc, List.singleton_append,
          List.filter_congr hdue3]
      · rw [haged.others j hj hj', hpush, habove, if_neg hj', hent2, hentries j hj]
      · rw [haged.proc q]
        by_cases hqp : q = p
        · subst hqp
          rw [if_neg (fun h => hp h.1), hsame.proc, hproc2, if_pos rfl,
            if_pos ⟨List.mem_cons_self, hdue⟩]
        · simp only [List.mem_cons, hqp, false_or]
          by_cases hq' : q ∈ todo
          · rw [hdue3 q hq', promoted_congr (hproc3 q hq') hticks, hproc3 q hq']
          · rw [if_neg (fun h => hq' h.1), if_neg (fun h => hq' h.1), hsame.proc, hproc2, if_neg hqp]
      · rw [haged.rest, hsame]
        rfl
    · -- the entry goes back to the tail of its own level
      rw [if_neg (fun h => hdue h.2)]
      have hok : k1.allocOk = true := hmem k.memCalls
      have hself : k1.readyQueues (priorityIndex i) = some (todo ++ done) := Function.update_self ..
      rw [hself, queuePush_ok k1 _ p hok]
      dsimp only
      set k3 := k1.allocNext.setReady (priorityIndex i) (some (todo ++ done ++ [p])) with hk3
      have hqueue : k3.readyQueues i = some (todo ++ (done ++ [p])) := by
        rw [hk3, hidx, ← List.append_assoc]
        exact Function.update_self ..
      have haged := ih (k := k3) hmem hqueue hnodup fun q hq' =>
        hin q (List.mem_cons_of_mem p hq')
      have hother : ∀ j, j ≠ i → entries k3 j = entries k j := fun j hj => by
        rw [hk3, entries_setReady, hidx, if_neg hj]
        exact hentries j hj
      refine ⟨?_, ?_, fun j hj hj' => ?_, fun q => ?_, ?_⟩
      · rw [haged.level, List.filter_cons_of_pos (by simp [hdue]), List.append_assoc,
          List.singleton_append]
        rfl
      · rw [haged.above, hother _ hne, List.filter_cons_of_neg hdue]
        rfl
      · rw [haged.others j hj hj', hother j hj]
      · rw [haged.proc q]
        by_cases hqp : q = p
        · subst hqp
          rw [if_neg (fun h => hp h.1), if_neg (fun h => hdue h.2)]
          rfl
        · simp only [List.mem_cons, hqp, false_or]
          rfl
      · rw [haged.rest]
        rfl

/-! ## The whole pass -/

/-- The kernel once the pass is through with the levels up to `j`. -/
structure PassAged (k k' : Kernel) (j : Nat) : Prop where
  below : ∀ i < j, entries k' i = staying k i ++ moving k (i + 1)
  turn : entries k' j = staying k j
  above : ∀ i, j < i → entries k' i = entries k i
  proc : ∀ p, k'.proc p =
    if (∃ i ≤ j, p ∈ entries k i) ∧ dueForPromotion k p = true then promoted k p else k.proc p
  rest : k' = { k with proc := k'.proc, readyQueues := k'.readyQueues, memCalls := k'.memCalls }

section Pass
variable {k : Kernel} (hmem : ∀ n, (k.memAnswers n).isSome) (hin : EntriesInPlace k)

include hin in
/-- Nobody is promoted from the top level. -/
theorem EntriesInPlace.not_due {p : Addr} (hp : p ∈ entries k 0) : dueForPromotion k p = false := by
  have htop : (k.proc p).priority = 0 := (hin 0 (by decide) p hp).2.2
  simp [dueForPromotion, htop]

include hin in
theorem PassAged.start : PassAged k k 0 where
  below i hi := absurd hi (Nat.not_lt_zero i)
  turn := by
    refine (List.filter_eq_self.mpr fun p hp => ?_).symm
    rw [hin.not_due hp]
    rfl
  above _ _ := rfl
  proc p := by
    rw [if_neg]
    rintro ⟨⟨i, hi, hp⟩, hdue⟩
    rw [Nat.le_zero.mp hi] at hp
    exact absurd (hdue.symm.trans (hin.not_due hp)) (by decide)
  rest := rfl

include hmem hin in
/-- **Step lemma**: one more level. -/
theorem PassAged.level {k' : Kernel} {j : Nat} (h : PassAged k k' j)
    (hj : j + 1 < SCHEDULER_PRIORITY_LEVELS) (honce : (entries k (j + 1)).Nodup) :
    PassAged k (ageLevel (queueForPriority k' (j + 1)) (j + 1)
      (queueSize ((queueForPriority k' (j + 1)).readyQueues (priorityIndex (j + 1))))) (j + 1) := by
  have hidx : priorityIndex (j + 1) = j + 1 := priorityIndex_of_lt hj
  have hmem' : ∀ n, (k'.memAnswers n).isSome := by
    rw [h.rest]
    exact hmem
  have hsame := queueForPriority_same k' (j + 1)
  have hqueue := queueForPriority_of_memory hmem' (j + 1)
  rw [hidx, h.above _ (Nat.lt_succ_self j)] at hqueue
  have hent : ∀ i, entries (queueForPriority k' (j + 1)) i = entries k' i :=
    entries_queueForPriority k' (j + 1)
  set k1 := queueForPriority k' (j + 1)
  have hticks : k1.totalTicks = k.totalTicks := by rw [hsame.totalTicks, h.rest]
  have hidle : k1.idle = k.idle := by rw [hsame.idle, h.rest]
  -- nobody on this level has been met yet
  have hproc : ∀ p ∈ entries k (j + 1), k1.proc p = k.proc p := by
    intro p hp
    rw [hsame.proc, h.proc p, if_neg]
    rintro ⟨⟨i, hi, hpi⟩, -⟩
    have hlow := (hin i (by omega) p hpi).2.2
    have hhigh := (hin (j + 1) hj p hp).2.2
    omega
  have hdue : ∀ p ∈ entries k (j + 1), dueForPromotion k1 p = dueForPromotion k p := fun p hp =>
    dueForPromotion_congr (hproc p hp) hticks
  have haged := ageLevel_aged_entries (Nat.succ_pos j) hj (entries k (j + 1)) (k := k1)
    (by rw [answers_of_outside hsame.outside]; exact hmem') (hqueue.trans (by rw [List.append_nil])) honce
    (fun p hp => by
      rw [hproc p hp, hidle]
      exact hin (j + 1) hj p hp)
  have hsize : queueSize (k1.readyQueues (priorityIndex (j + 1))) = (entries k (j + 1)).length := by
    rw [hidx, hqueue]
    rfl
  rw [hsize]
  refine ⟨fun i hi => ?_, ?_, fun i hi => ?_, fun p => ?_, ?_⟩
  · by_cases hij : i = j
    · subst hij
      have hup := haged.above
      rw [Nat.succ_sub_one, hent, h.turn, List.filter_congr hdue] at hup
      exact hup
    · rw [haged.others i (by omega) (by omega), hent, h.below i (by omega)]
  · rw [haged.level, List.nil_append]
    exact List.filter_congr fun p hp => by rw [hdue p hp]
  · rw [haged.others i (by omega) (by omega), hent, h.above i (by omega)]
  · rw [haged.proc p]
    by_cases hp : p ∈ entries k (j + 1)
    · have hmet : ∃ i ≤ j + 1, p ∈ entries k i := ⟨j + 1, le_rfl, hp⟩
      rw [hdue p hp, promoted_congr (hproc p hp) hticks, hproc p hp]
      simp only [hp, hmet, true_and]
    · have hmet : (∃ i ≤ j + 1, p ∈ entries k i) ↔ ∃ i ≤ j, p ∈ entries k i := by
        constructor
        · rintro ⟨i, hi, hpi⟩
          exact ⟨i, Nat.le_of_lt_succ (Nat.lt_of_le_of_ne hi fun he : i = j + 1 => hp (he ▸ hpi)), hpi⟩
        · rintro ⟨i, hi, hpi⟩
          exact ⟨i, Nat.le_succ_of_le hi, hpi⟩
      rw [if_neg (fun hq => hp hq.1), hsame.proc, h.proc p]
      simp only [hmet]
  · rw [haged.rest, hsame, h.rest]

include hmem hin in
/-- **Run lemma**: the pass visits the levels from the top one down. -/
theorem schedulerAgeReady_passAged (honce : ∀ i < SCHEDULER_PRIORITY_LEVELS, (entries k i).Nodup) :
    PassAged k (schedulerAgeReady k) 5 := by
  have h1 := (PassAged.start hin).level hmem hin (by decide) (honce 1 (by decide))
  have h2 := h1.level hmem hin (by decide) (honce 2 (by decide))
  have h3 := h2.level hmem hin (by decide) (honce 3 (by decide))
  have h4 := h3.level hmem hin (by decide) (honce 4 (by decide))
  exact h4.level hmem hin (by decide) (honce 5 (by decide))

end Pass

/-- What joins a level from the one below it. -/
def joining (k : Kernel) (i : Nat) : List Addr :=
  if i + 1 < SCHEDULER_PRIORITY_LEVELS then moving k (i + 1) else []

theorem count_staying_add_moving (k : Kernel) (i : Nat) (p : Addr) :
    (staying k i).count p + (moving k i).count p = (entries k i).count p := by
  have hperm := (List.filter_append_perm (fun q => dueForPromotion k q) (entries k i)).count_eq p
  rw [List.count_append] at hperm
  rw [Nat.add_comm]
  exact hperm

/-- **One aging pass.** Queues whose entries are `READY`, not idle, at their own level and not there
    twice: a process below the top level that has waited long enough is one level up afterwards,
    behind those that were there and in its old order, and its waiting time starts again; everybody
    else is where it was, as it was, in its old order; and the pass neither loses nor duplicates
    anybody. -/
theorem aging_pass (k : Kernel) (hmem : ∀ n, (k.memAnswers n).isSome) (hin : EntriesInPlace k)
    (honce : ∀ i < SCHEDULER_PRIORITY_LEVELS, (entries k i).Nodup) :
    (∀ i < SCHEDULER_PRIORITY_LEVELS,
      entries (schedulerAgeReady k) i = staying k i ++ joining k i) ∧
    (∀ i < SCHEDULER_PRIORITY_LEVELS, ∀ p ∈ moving k i,
      0 < i ∧ (schedulerAgeReady k).proc p = promoted k p) ∧
    (∀ p, (∀ i < SCHEDULER_PRIORITY_LEVELS, p ∉ moving k i) →
      (schedulerAgeReady k).proc p = k.proc p) ∧
    (levels.flatMap (entries (schedulerAgeReady k))).Perm (levels.flatMap (entries k)) := by
  have h := schedulerAgeReady_passAged hmem hin honce
  have hqueues : ∀ i < SCHEDULER_PRIORITY_LEVELS,
      entries (schedulerAgeReady k) i = staying k i ++ joining k i := by
    intro i hi
    unfold joining
    by_cases hlow : i + 1 < SCHEDULER_PRIORITY_LEVELS
    · rw [if_pos hlow]
      exact h.below i (Nat.lt_of_succ_lt_succ hlow)
    · have hlast : i = 5 := by
        simp only [SCHEDULER_PRIORITY_LEVELS] at hi hlow
        omega
      rw [if_neg hlow, List.append_nil, hlast]
      exact h.turn
  refine ⟨hqueues, fun i hi p hp => ?_, fun p hp => ?_, ?_⟩
  · obtain ⟨hpi, hdue⟩ := List.mem_filter.mp hp
    refine ⟨?_, ?_⟩
    · have hpos := (of_decide_eq_true hdue).1
      rwa [(hin i hi p hpi).2.2] at hpos
    · rw [h.proc p, if_pos]
      exact ⟨⟨i, Nat.le_of_lt_succ hi, hpi⟩, hdue⟩
  · rw [h.proc p, if_neg]
    rintro ⟨⟨i, hi, hpi⟩, hdue⟩
    exact hp i (Nat.lt_succ_of_le hi) (List.mem_filter.mpr ⟨hpi, hdue⟩)
  · refine List.perm_iff_count.mpr fun p => ?_
    -- everybody stays on a level or moves to the next one, and nobody leaves the top one
    have hnone : (moving k 0).count p = 0 := by
      refine List.count_eq_zero.mpr fun hp => ?_
      obtain ⟨hp, hdue⟩ := List.mem_filter.mp hp
      exact absurd (hdue.symm.trans (hin.not_due hp)) (by decide)
    have hsplit := fun i => count_staying_add_moving k i p
    have h0 := hsplit 0
    have h1 := hsplit 1
    have h2 := hsplit 2
    have h3 := hsplit 3
    have h4 := hsplit 4
    have h5 := hsplit 5
    have hlevels : levels = [0, 1, 2, 3, 4, 5] := rfl
    simp only [hlevels, List.flatMap_cons, List.flatMap_nil, List.append_nil, List.count_append,
      hqueues 0 (by decide), hqueues 1 (by decide), hqueues 2 (by decide), hqueues 3 (by decide),
      hqueues 4 (by decide), hqueues 5 (by decide), joining, SCHEDULER_PRIORITY_LEVELS, Nat.reduceAdd,
      Nat.reduceLT, if_true, if_false]
    omega

/-- A kernel with nothing in its ready queues but `waiting`, all on one level and ready since tick 0. -/
def waitingKernel (level : Nat) (waiting : List Addr) : Kernel :=
  { Boot.kernel fun n => some n with
    proc := fun _ => { priority := level }
    readyQueues := fun i => some (if i = level then waiting else [])
    totalTicks := SCHEDULER_AGING_THRESHOLD }

theorem entries_waitingKernel (level i : Nat) (waiting : List Addr) :
    entries (waitingKernel level waiting) i = if i = level then waiting else [] := rfl

theorem waitingKernel_inPlace {level : Nat} {waiting : List Addr} (h : Boot.idle ∉ waiting) :
    EntriesInPlace (waitingKernel level waiting) := by
  intro i _ p hp
  rw [entries_waitingKernel] at hp
  split at hp
  · next hi =>
    refine ⟨rfl, fun hidle => h ?_, hi.symm⟩
    rw [show Boot.idle = p from Option.some.inj hidle]
    exact hp
  · cases hp

theorem aging_pass_three :
    entries (schedulerAgeReady (waitingKernel 3 [7, 8])) 2 = [7, 8] ∧
      entries (schedulerAgeReady (waitingKernel 3 [7, 8])) 3 = [] := by
  have h := (aging_pass (waitingKernel 3 [7, 8]) (fun _ => rfl) (waitingKernel_inPlace (by decide))
    fun i _ => by
      rw [entries_waitingKernel]
      split <;> decide).1
  exact ⟨h 2 (by decide), h 3 (by decide)⟩

/-- A process that is twice in its queue is met again one level up: its second entry is not due any
    more and stays behind, on a level that is no longer that of the process. -/
theorem second_entry_left_behind :
    ∃ (k : Kernel) (p : Addr), (∀ n, (k.memAnswers n).isSome) ∧ EntriesInPlace k ∧ p ∈ moving k 3 ∧
      ((schedulerAgeReady k).proc p).priority = 2 ∧ p ∈ entries (schedulerAgeReady k) 3 :=
  ⟨waitingKernel 3 [7, 7], 7, fun _ => rfl, waitingKernel_inPlace (by decide), by decide +kernel,
    by decide +kernel, by decide +kernel⟩

end TpSo
