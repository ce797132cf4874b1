import Mathlib.Data.List.Nodup
import Mathlib.Data.List.Perm.Subperm
import Mathlib.Data.Nat.Find
import TpSo.Scheduler.Orderly

set_option autoImplicit false

/-! # How long a process waits

A process in a ready queue waits behind those of its level, behind every higher level, and for the
quantum of the process that runs. Aging lifts it one level every `SCHEDULER_AGING_THRESHOLD` ticks and
a few more, the pass being made only at a switch; on the top level it moves up by one place at each
switch. `dispatchBound` counts the ticks this takes at most: no call for another process raises it, and
every tick lowers it or gives the processor to the process. -/

namespace TpSo

/-! ## The bound -/

/-- The ticks until a process is promoted that has waited for `waited` ticks, when the current one goes
    on for `left` more. The waiting time is a `uint64_t` difference: if it wraps around before the next
    switch, the wait starts again. -/
def ticksToPromotion (waited left : Nat) : Nat :=
  if waited < SCHEDULER_AGING_THRESHOLD then
    max (SCHEDULER_AGING_THRESHOLD + SCHEDULER_DEFAULT_QUANTUM - 1 - waited) (left + 1)
  else if waited + left + 1 < 2 ^ 64 then left + 1
  else 2 ^ 64 - waited + (SCHEDULER_AGING_THRESHOLD + SCHEDULER_DEFAULT_QUANTUM - 1)

/-- The ticks a process spends on one level, and those it spends on the top level when all others are
    before it. -/
def levelWait : Nat := SCHEDULER_AGING_THRESHOLD + SCHEDULER_DEFAULT_QUANTUM - 1
def topWait : Nat := SCHEDULER_DEFAULT_QUANTUM * (PROCESS_MAX_PROCESSES - 1)

/-- The ticks until a process in a ready queue is given the processor, at most. -/
def dispatchBound (k : Kernel) (p : Addr) : Nat :=
  match (k.proc p).priority with
  | 0 => SCHEDULER_DEFAULT_QUANTUM * (entries k 0).idxOf p + quantumLeft k + 1
  | level + 1 => ticksToPromotion (waitedTicks k p) (quantumLeft k) + levelWait * level + topWait

theorem ticksToPromotion_eq (waited left : Nat) :
    ticksToPromotion waited left =
      if waited < 32 then max (35 - waited) (left + 1)
      else if waited + left + 1 < 2 ^ 64 then left + 1 else 2 ^ 64 - waited + 35 := rfl

theorem ticksToPromotion_mono (waited : Nat) {left left' : Nat} (h : left' ≤ left) (hle : left ≤ 4) :
    ticksToPromotion waited left' ≤ ticksToPromotion waited left := by
  rw [ticksToPromotion_eq, ticksToPromotion_eq]
  split_ifs <;> omega

/-- The longest of these waits is one that wraps around. -/
theorem ticksToPromotion_le (waited : Nat) {left : Nat} (hle : left ≤ 4) : ticksToPromotion waited left ≤ 40 := by
  rw [ticksToPromotion_eq]
  split_ifs <;> omega

/-- The clock goes on by one tick without a switch. -/
theorem ticksToPromotion_keep {waited left : Nat} (hw : waited < 2 ^ 64) (hle : left + 1 ≤ 4) :
    ticksToPromotion ((waited + 1) % 2 ^ 64) left + 1 ≤ ticksToPromotion waited (left + 1) := by
  rcases Nat.lt_or_eq_of_le (Nat.succ_le_of_lt hw) with hlt | heq
  · rw [Nat.mod_eq_of_lt hlt, ticksToPromotion_eq, ticksToPromotion_eq]
    split_ifs <;> omega
  · have hwrap : (waited + 1) % 2 ^ 64 = 0 := by
      rw [show waited + 1 = 2 ^ 64 from heq, Nat.mod_self]
    rw [hwrap, ticksToPromotion_eq, ticksToPromotion_eq]
    split_ifs <;> omega

/-- The clock goes on by one tick, at which a switch is made but the process is not due: the process
    that is given the processor goes on for 3 ticks more. -/
theorem ticksToPromotion_stay (left : Nat) {waited : Nat} (hw : waited < 2 ^ 64)
    (hdue : (waited + 1) % 2 ^ 64 < 32) :
    ticksToPromotion ((waited + 1) % 2 ^ 64) 3 + 1 ≤ ticksToPromotion waited left := by
  rcases Nat.lt_or_eq_of_le (Nat.succ_le_of_lt hw) with hlt | heq
  · rw [Nat.mod_eq_of_lt hlt] at hdue ⊢
    rw [ticksToPromotion_eq, ticksToPromotion_eq]
    split_ifs <;> omega
  · have hwrap : (waited + 1) % 2 ^ 64 = 0 := by
      rw [show waited + 1 = 2 ^ 64 from heq, Nat.mod_self]
    rw [hwrap, ticksToPromotion_eq, ticksToPromotion_eq]
    split_ifs <;> omega

theorem ticksToPromotion_pos (waited left : Nat) : 0 < ticksToPromotion waited left := by
  rw [ticksToPromotion_eq]
  split_ifs <;> omega

theorem dispatchBound_pos (k : Kernel) (p : Addr) : 0 < dispatchBound k p := by
  unfold dispatchBound
  split
  · exact Nat.succ_pos _
  · exact Nat.add_pos_right _ (by decide)

/-- One more tick of the clock. -/
theorem waitedTicks_tick {k k' : Kernel} {p : Addr} (hs : Stamped k)
    (ht : k'.totalTicks = (k.totalTicks + 1) % 2 ^ 64)
    (hp : (k'.proc p).readySinceTick = (k.proc p).readySinceTick) :
    waitedTicks k' p = (waitedTicks k p + 1) % 2 ^ 64 := by
  have hsince := hs.since p
  unfold waitedTicks
  rw [ht, hp]
  omega

/-! ## Who is in a queue -/

/-- The processes of the table are no more than it has slots. -/
theorem length_le_of_registered {k : Kernel} {xs : List Addr} (hn : xs.Nodup)
    (hr : ∀ p ∈ xs, ∃ pid, processLookup k pid = some p) : xs.length ≤ PROCESS_MAX_PROCESSES := by
  have hsub : xs ⊆ (List.range PROCESS_MAX_PROCESSES).filterMap k.processes := by
    intro p hp
    obtain ⟨pid, hpid⟩ := hr p hp
    obtain ⟨hlow, hhigh, hslot⟩ := processLookup_eq_some.mp hpid
    exact List.mem_filterMap.mpr ⟨pid - PROCESS_FIRST_PID, List.mem_range.mpr hhigh, hslot⟩
  have hlen := (hn.subperm hsub).length_le
  exact hlen.trans ((List.length_filterMap_le _ _).trans (List.length_range).le)

/-- A place in a queue without duplicates. -/
theorem idxOf_lt_of_registered {k : Kernel} {p : Addr} {xs : List Addr} (hn : xs.Nodup)
    (hr : ∀ p ∈ xs, ∃ pid, processLookup k pid = some p) (hp : p ∈ xs) :
    xs.idxOf p < PROCESS_MAX_PROCESSES :=
  Nat.lt_of_lt_of_le (List.idxOf_lt_length_of_mem hp) (length_le_of_registered hn hr)

theorem Placed.nodup {k : Kernel} (h : Placed k) (hidle : ∀ p, k.idle = some p → ¬ Queued k p)
    (i : Nat) : (entries k i).Nodup := by
  refine List.nodup_iff_count_le_one.mpr fun p => ?_
  by_cases hp : k.idle = some p
  · rw [List.count_eq_zero.mpr fun hm => hidle p hp ⟨i, hm⟩]
    exact Nat.zero_le 1
  · exact h.once i p hp

namespace Orderly

variable {s : SchedState}

theorem quantumLeft_le (h : Orderly s) : quantumLeft s.k ≤ SCHEDULER_DEFAULT_QUANTUM := by
  obtain ⟨readied, hlevel, -⟩ := h.levels
  unfold quantumLeft
  split
  · exact Nat.zero_le _
  · next c _ =>
    split
    · exact (hlevel.levels c).quantum
    · exact Nat.zero_le _

/-- An entry is in the queue of its level. -/
theorem entry (h : Orderly s) {p : Addr} (hp : Queued s.k p) :
    (s.k.proc p).priority < SCHEDULER_PRIORITY_LEVELS ∧ p ∈ entries s.k (s.k.proc p).priority ∧
      (s.k.proc p).state = .ready ∧ s.k.idle ≠ some p := by
  obtain ⟨i, hi⟩ := hp
  have hidle : s.k.idle ≠ some p := fun hp => h.queues.idle_not_queued p hp ⟨i, hi⟩
  have hlt : i < SCHEDULER_PRIORITY_LEVELS := by
    rw [(h.queues.sched.placed.entry i p hi hidle).2]
    exact priorityIndex_lt _
  obtain ⟨hready, -, hlevel⟩ := h.inPlace i hlt p hi
  rw [hlevel]
  exact ⟨hlt, hi, hready, hidle⟩

/-- **The bound is a number**: 5 levels below the top, and everybody else before the process there. -/
theorem dispatchBound_le (h : Orderly s) {p : Addr} (hp : Queued s.k p) : dispatchBound s.k p ≤ 304 := by
  obtain ⟨hlt, hmem, -, -⟩ := h.entry hp
  have hleft := h.quantumLeft_le
  unfold dispatchBound
  split
  · next hlevel =>
    rw [hlevel] at hmem
    have hplace := idxOf_lt_of_registered
      (h.queues.sched.placed.nodup h.queues.idle_not_queued 0)
      (fun q hq => h.registered q (.inl ⟨0, hq⟩)) hmem
    simp only [SCHEDULER_DEFAULT_QUANTUM, PROCESS_MAX_PROCESSES] at hleft hplace ⊢
    omega
  · next level hlevel =>
    rw [hlevel] at hlt
    have hwait := ticksToPromotion_le (waitedTicks s.k p) hleft
    simp only [levelWait, topWait, SCHEDULER_AGING_THRESHOLD, SCHEDULER_DEFAULT_QUANTUM,
      PROCESS_MAX_PROCESSES, SCHEDULER_PRIORITY_LEVELS] at hlt ⊢
    omega

end Orderly

/-! ## Calls for somebody else -/

/-- **No call raises the bound** of a process it is not made for. -/
theorem Unmoved.dispatchBound_le {k k' : Kernel} {p : Addr} (h : Unmoved p k k')
    (hle : quantumLeft k ≤ SCHEDULER_DEFAULT_QUANTUM) (hp : p ∈ entries k (k.proc p).priority) :
    dispatchBound k' p ≤ dispatchBound k p := by
  have hleft := h.left
  have hwaited : waitedTicks k' p = waitedTicks k p := by
    unfold waitedTicks
    rw [h.ticks, h.since]
  unfold dispatchBound
  rw [h.priority, hwaited]
  split
  · next hlevel =>
    rw [hlevel] at hp
    have hplace := Nat.mul_le_mul_left SCHEDULER_DEFAULT_QUANTUM (h.place 0 hp).2
    omega
  · have hmono := ticksToPromotion_mono (waitedTicks k p) hleft hle
    omega

/-! ## A tick that does not switch -/

/-- The interrupted process goes on. -/
theorem scheduleTick_keep {k : Kernel} {c : Addr} (h : keepsRunning k c) (rsp : Nat) :
    (scheduleTick k rsp).2 =
      processSetRunning ((saveRsp (countTick k) c rsp).modProc c chargeTick) (some c) := by
  obtain ⟨hc, hidle, hr, hq⟩ := h
  have hself : (saveRsp (countTick k) c rsp).proc c = { k.proc c with rsp := rsp } :=
    Function.update_self ..
  have htick : tickRunning (countTick k) rsp =
      (false, (saveRsp (countTick k) c rsp).modProc c chargeTick) := by
    rw [tickRunning_eq (show (countTick k).current = some c from hc),
      if_neg (show ¬ some c = (countTick k).idle from fun hi => hidle hi.symm), hself,
      if_neg (not_not.mpr hr), if_pos hq]
  have hcur : ((saveRsp (countTick k) c rsp).modProc c chargeTick).current = some c := hc
  rw [scheduleTick_eq, htick, if_neg Bool.false_ne_true, hcur]

/-- **Without a switch** the wait goes on by one tick, and the current process has one tick less. -/
theorem dispatchBound_keep {k : Kernel} {c p : Addr} (hs : Stamped k) (h : keepsRunning k c)
    (hle : quantumLeft k ≤ 4) (hpc : p ≠ c) (rsp : Nat) :
    dispatchBound (scheduleTick k rsp).2 p + 1 ≤ dispatchBound k p := by
  obtain ⟨hc, hidle, hr, hq⟩ := id h
  have hleft : quantumLeft k = (k.proc c).remainingQuantum := by
    simp only [quantumLeft, hc, hr, and_true, ne_eq, hidle, not_false_eq_true, if_true]
  have hproc : ∀ q, q ≠ c → (scheduleTick k rsp).2.proc q = k.proc q := fun q hqc => by
    rw [scheduleTick_keep h]
    exact (Function.update_of_ne hqc ..).trans (Function.update_of_ne hqc ..)
  have hself : (scheduleTick k rsp).2.proc c = chargeTick { k.proc c with rsp := rsp } := by
    rw [scheduleTick_keep h]
    refine (Function.update_self ..).trans ?_
    exact congrArg chargeTick (Function.update_self ..)
  have hleft' : quantumLeft (scheduleTick k rsp).2 + 1 = quantumLeft k := by
    have hcur : (scheduleTick k rsp).2.current = some c := by
      rw [scheduleTick_keep h]
      exact hc
    have hi : (scheduleTick k rsp).2.idle = k.idle := by
      rw [scheduleTick_keep h]
      rfl
    rw [hleft]
    simp only [quantumLeft, hcur, hi, hself, chargeTick, hr, hidle, ne_eq, not_false_eq_true, and_self,
      if_true]
    exact Nat.sub_add_cancel hq
  have hqueue : ∀ i, entries (scheduleTick k rsp).2 i = entries k i := fun i => by
    rw [scheduleTick_keep h]
    rfl
  have hwaited : waitedTicks (scheduleTick k rsp).2 p = (waitedTicks k p + 1) % 2 ^ 64 :=
    waitedTicks_tick hs (by rw [scheduleTick_keep h]; rfl) (by rw [hproc p hpc])
  have hlt : waitedTicks k p < 2 ^ 64 := Nat.mod_lt _ (Nat.two_pow_pos 64)
  unfold dispatchBound
  rw [hproc p hpc, hqueue, hwaited]
  rw [← hleft'] at hle ⊢
  split
  · omega
  · have hwait := ticksToPromotion_keep hlt hle
    omega

/-! ## Aging at a switch -/

/-- **The pass** lifts a process that is due to the level above, its wait starting again, or leaves it
    where it is, in its place. -/
theorem schedulerAgeReady_entry {k : Kernel} (hmem : ∀ n, (k.memAnswers n).isSome)
    (hin : EntriesInPlace k) (honce : ∀ i, (entries k i).Nodup) {p : Addr} {i : Nat}
    (hi : i < SCHEDULER_PRIORITY_LEVELS) (hp : p ∈ entries k i) :
    (dueForPromotion k p = true ∧ 0 < i ∧ p ∈ entries (schedulerAgeReady k) (i - 1) ∧
      (schedulerAgeReady k).proc p = promoted k p) ∨
    (dueForPromotion k p = false ∧ KeepsPlace p (entries k i) (entries (schedulerAgeReady k) i) ∧
      (schedulerAgeReady k).proc p = k.proc p) := by
  have haged := schedulerAgeReady_passAged hmem hin fun i _ => honce i
  have hi5 : i ≤ 5 := Nat.le_of_lt_succ hi
  cases hdue : dueForPromotion k p with
  | true =>
      have hpos : 0 < i := by
        have hlevel := (of_decide_eq_true hdue).1
        rwa [(hin i hi p hp).2.2] at hlevel
      refine .inl ⟨rfl, hpos, ?_, ?_⟩
      · rw [haged.below (i - 1) (by omega), Nat.sub_add_cancel hpos]
        exact List.mem_append_right _ (List.mem_filter.mpr ⟨hp, hdue⟩)
      · rw [haged.proc p, if_pos ⟨⟨i, hi5, hp⟩, hdue⟩]
  | false =>
      refine .inr ⟨rfl, ?_, ?_⟩
      · have hstay : KeepsPlace p (entries k i) (staying k i) := .filter (by rw [hdue]; rfl) _
        rcases Nat.lt_or_eq_of_le hi5 with hlt | heq
        · rw [haged.below i hlt]
          exact hstay.trans (.append p _ _)
        · rw [heq] at hstay ⊢
          rw [haged.turn]
          exact hstay
      · rw [haged.proc p, if_neg]
        rintro ⟨-, hd⟩
        cases hdue.symm.trans hd

/-! ## The first half of a tick that switches -/

theorem Unmoved.saveRsp (k : Kernel) (p c : Addr) (rsp : Nat) : Unmoved p k (saveRsp k c rsp) := by
  have hproc : ∀ q, (TpSo.saveRsp k c rsp).proc q =
      { k.proc q with rsp := ((TpSo.saveRsp k c rsp).proc q).rsp } := by
    intro q
    by_cases hq : q = c
    · subst hq
      simp only [TpSo.saveRsp, Kernel.modProc, Function.update_self]
    · simp only [TpSo.saveRsp, Kernel.modProc, Function.update_of_ne hq]
  refine ⟨by rw [hproc], by rw [hproc], rfl, fun i => .refl p _, ?_⟩
  refine TpSo.quantumLeft_le rfl rfl fun q _ hr => ?_
  rw [hproc q] at hr ⊢
  exact ⟨hr, le_rfl⟩

/-- Nobody runs. -/
theorem Unmoved.clearCurrent (k : Kernel) (p : Addr) :
    Unmoved p k (processSetRunning { k with current := none } none) :=
  ⟨rfl, rfl, rfl, fun _ => .refl p _, Nat.zero_le _⟩

/-- **The interrupted process is left** without disturbing one that is in a queue. -/
theorem Unmoved.tickRunning {k : Kernel} {p : Addr} (hr : (k.proc p).state = .ready)
    (hidle : k.idle ≠ some p) {rsp : Nat} (hsw : (tickRunning k rsp).1 = true) :
    Unmoved p k (tickRunning k rsp).2 := by
  cases hc : k.current with
  | none =>
      simp only [TpSo.tickRunning, hc]
      exact .refl p k
  | some c =>
      rw [tickRunning_eq hc] at hsw ⊢
      have hsaved := Unmoved.saveRsp k p c rsp
      split
      · next hci =>
        refine hsaved.trans (.setState ?_ (by decide))
        rintro rfl
        exact hidle hci.symm
      · split
        · exact hsaved.trans (.clearCurrent _ p)
        · next hrunning =>
          have hpc : p ≠ c := by
            rintro rfl
            rw [saveRsp_state, hr] at hrunning
            exact hrunning (by decide)
          rw [if_neg ‹_›, if_neg hrunning] at hsw
          split
          · next hq =>
            rw [if_pos hq] at hsw
            cases hsw
          · exact (hsaved.trans (.schedulerAddReady _ hpc)).trans (.clearCurrent _ p)

/-- The queues the pass starts from. -/
structure ReadyToAge (k k1 : Kernel) : Prop where
  lossless : Lossless k1
  placed : Placed k1
  idleOut : ∀ p, k1.idle = some p → ¬ Queued k1 p
  inPlace : EntriesInPlace k1
  runnable : ∀ p, Queued k1 p → Runnable k p

theorem Orderly.left {s : SchedState} (h : Orderly s) {rsp : Nat}
    (hsw : (tickRunning (countTick s.k) rsp).1 = true) :
    ReadyToAge s.k (tickRunning (countTick s.k) rsp).2 := by
  have hleft := tickRunning_left hsw
  have hplaced : Placed (countTick s.k) := h.queues.sched.placed.congr rfl rfl rfl fun _ => rfl
  have hidle1 : (tickRunning (countTick s.k) rsp).2.idle = s.k.idle := idle_of_outside hleft.outside
  have hlossless : Lossless (countTick s.k) := h.queues.lossless.congr h.queues.lossless.queues.countTick rfl
  obtain ⟨readied, hlevel, hqueued⟩ := h.levels
  have hlevels : Levels s.k.idle (fun p => readied p || s.readies (.tick rsp) p)
      (tickRunning (countTick s.k) rsp).2.proc :=
    Levels.tickRunning (k := countTick s.k) hlevel.levels rsp fun p hp =>
      (Bool.or_eq_true _ _ ▸ hp).imp_right of_decide_eq_true
  have hout : ∀ p, (tickRunning (countTick s.k) rsp).2.idle = some p →
      ¬ Queued (tickRunning (countTick s.k) rsp).2 p := by
    intro p hp hq
    rw [hidle1] at hp
    rcases hleft.queued p hq with hq | ⟨-, hne, -⟩
    · exact h.queues.idle_not_queued p hp hq
    · exact hne hp
  refine ⟨?_, hleft.placed hplaced, hout, fun i _ p hp => ?_, fun p hp => hleft.queued p hp⟩
  · exact hlossless.congr (tickRunning_hasQueues hlossless.queues rsp) (answers_of_outside hleft.outside)
  · have hidle : (tickRunning (countTick s.k) rsp).2.idle ≠ some p := fun hi => hout p hi ⟨i, hp⟩
    obtain ⟨hready, hi⟩ := (hleft.placed hplaced).entry i p hp hidle
    refine ⟨hready, hidle, ?_⟩
    rw [hi]
    refine (priorityIndex_of_le ((hlevels p).bounded (.inr (.inl ?_)))).symm
    rw [Bool.or_eq_true]
    refine (hleft.queued p ⟨i, hp⟩).imp (hqueued p) ?_
    rintro ⟨hc, hne, hr⟩
    refine decide_eq_true ⟨hc, hne, hr, ?_⟩
    by_contra hquantum
    exact hleft.switch p ⟨hc, hne, hr, Nat.pos_of_ne_zero hquantum⟩

/-! ## The choice -/

/-- While somebody waits the loop takes the head of the first level that is not empty. -/
theorem pickNext_first {k : Kernel} (hq : HasQueues k)
    (hready : ∀ p, Queued k p → (k.proc p).state = .ready ∧ k.idle ≠ some p) {p : Addr} {j : Nat}
    (hj : j < SCHEDULER_PRIORITY_LEVELS) (hp : p ∈ entries k j) :
    ∃ i n rest, i ≤ j ∧ entries k i = n :: rest ∧
      pickNext k levels = (some n, k.setReady i (some rest)) := by
  classical
  have hsome : ∃ i, entries k i ≠ [] := ⟨j, List.ne_nil_of_mem hp⟩
  obtain ⟨n, rest, he⟩ := List.exists_cons_of_ne_nil (Nat.find_spec hsome)
  have hle : Nat.find hsome ≤ j := Nat.find_min' hsome (List.ne_nil_of_mem hp)
  have hlt := Nat.lt_of_le_of_lt hle hj
  have hempty : ∀ i ∈ List.range (Nat.find hsome), i < SCHEDULER_PRIORITY_LEVELS ∧ entries k i = [] := by
    intro i hi
    have hi := List.mem_range.mp hi
    exact ⟨hi.trans hlt, not_not.mp (Nat.find_min hsome hi)⟩
  obtain ⟨hr, hidle⟩ := hready n ⟨Nat.find hsome, he ▸ List.mem_cons_self⟩
  obtain ⟨later, hlevels⟩ := levels_split hlt
  refine ⟨Nat.find hsome, n, rest, hle, he, ?_⟩
  rw [hlevels]
  exact pickNext_head hq hlt he hr hidle later _ hempty

/-- The kernel after somebody else than `p` was chosen, at the head of level `i`. -/
structure Passed (b k' : Kernel) (p : Addr) (i : Nat) (n : Addr) (rest : List Addr) : Prop where
  level : entries b i = n :: rest
  entries : ∀ j, entries k' j = if j = i then rest else TpSo.entries b j
  proc : k'.proc p = b.proc p
  ticks : k'.totalTicks = b.totalTicks
  left : quantumLeft k' = 3

theorem dispatch_passed {b : Kernel} {p n : Addr} {i : Nat} {rest : List Addr}
    (he : entries b i = n :: rest) (hidle : b.idle ≠ some n) (hnp : p ≠ n) :
    Passed b (dispatch (b.setReady i (some rest)) n) p i n rest where
  level := he
  entries j := by
    rw [entries_dispatch, entries_setReady]
    rfl
  proc := Function.update_of_ne hnp ..
  ticks := rfl
  left := by
    have hself : (dispatch (b.setReady i (some rest)) n).proc n =
        { b.proc n with state := .running, remainingQuantum := 3, lastQuantumTicks := 1 } :=
      Function.update_self ..
    have hi : (dispatch (b.setReady i (some rest)) n).idle = b.idle := rfl
    simp only [quantumLeft, current_dispatch, hself, hi, hidle, ne_eq, not_false_eq_true, and_self, if_true]

namespace Passed

variable {b k' : Kernel} {p n : Addr} {i : Nat} {rest : List Addr}

theorem place (h : Passed b k' p i n rest) (hnp : p ≠ n) (j : Nat) :
    KeepsPlace p (TpSo.entries b j) (TpSo.entries k' j) := by
  rw [h.entries j]
  split
  · next hji =>
    rw [hji, h.level]
    intro hp
    obtain ⟨hmem, hidx⟩ := idxOf_tail hp hnp.symm
    exact ⟨hmem, by omega⟩
  · exact .refl p _

/-- On the top level everybody moves up. -/
theorem top (h : Passed b k' p i n rest) (hnp : p ≠ n) (hi : i ≤ 0) (hp : p ∈ TpSo.entries b 0) :
    (TpSo.entries b 0).idxOf p = (TpSo.entries k' 0).idxOf p + 1 := by
  obtain rfl := Nat.le_zero.mp hi
  rw [h.entries 0, if_pos rfl]
  rw [h.level] at hp ⊢
  exact (idxOf_tail hp hnp.symm).2

end Passed

/-! ## A tick that switches -/

/-- **At a switch** the process is given the processor, or somebody before it is. -/
theorem Orderly.dispatchBound_switch {s : SchedState} (h : Orderly s) {rsp : Nat} {p : Addr}
    (hq : Queued s.k p) (hsw : (tickRunning (countTick s.k) rsp).1 = true) :
    ((scheduleTick s.k rsp).2.proc p).state = .running ∨
      dispatchBound (scheduleTick s.k rsp).2 p + 1 ≤ dispatchBound s.k p := by
  obtain ⟨hlt, hmem, hready, hidle⟩ := h.entry hq
  have hleft := h.left hsw
  have hwait : Unmoved p (countTick s.k) (tickRunning (countTick s.k) rsp).2 :=
    Unmoved.tickRunning (k := countTick s.k) hready hidle hsw
  have hbefore := beforePick_ready h.queues.sched.placed h.queues.idle_not_queued rsp hsw
  have hqueues : HasQueues (beforePick s.k rsp) := schedulerAgeReady_hasQueues hleft.lossless.queues
  have hticks : (beforePick s.k rsp).totalTicks = (s.k.totalTicks + 1) % 2 ^ 64 := by
    rw [(beforePick_aged s.k rsp).kernel]
    exact hwait.ticks
  have hregistered : ∀ q ∈ entries (beforePick s.k rsp) 0, ∃ pid, processLookup s.k pid = some q :=
    fun q hq => h.registered q (hleft.runnable q ((beforePick_aged s.k rsp).queued q ⟨0, hq⟩))
  have honce := hbefore.1.nodup (fun q hi hq => (hbefore.2 q hq).2 hi) 0
  have haged := schedulerAgeReady_entry hleft.lossless.memory hleft.inPlace
    (hleft.placed.nodup hleft.idleOut) hlt (hwait.place _ hmem).1
  rw [show schedulerAgeReady (tickRunning (countTick s.k) rsp).2 = beforePick s.k rsp from rfl] at haged
  have hpick : ∀ {j : Nat}, j < SCHEDULER_PRIORITY_LEVELS → p ∈ entries (beforePick s.k rsp) j →
      ((scheduleTick s.k rsp).2.proc p).state = .running ∨ ∃ i n rest, i ≤ j ∧ p ≠ n ∧
        Passed (beforePick s.k rsp) (scheduleTick s.k rsp).2 p i n rest := by
    intro j hj hp
    obtain ⟨i, n, rest, hij, he, hnext⟩ := pickNext_first hqueues hbefore.2 hj hp
    have htick : (scheduleTick s.k rsp).2 = dispatch ((beforePick s.k rsp).setReady i (some rest)) n := by
      rw [scheduleTick_eq, if_pos hsw, hnext]
    rw [htick]
    by_cases hnp : p = n
    · rw [dispatch_state, if_pos hnp]
      exact .inl rfl
    · exact .inr ⟨i, n, rest, hij, hnp,
        dispatch_passed he (hbefore.2 n ⟨i, he ▸ List.mem_cons_self⟩).2 hnp⟩
  have hlow : waitedTicks s.k p < 2 ^ 64 := Nat.mod_lt _ (Nat.two_pow_pos 64)
  rcases haged with ⟨-, hpos, hup, hproc⟩ | ⟨hdue, hplace, hproc⟩
  · -- promoted: on a lower level it has left for good, and its wait starts again
    rcases hpick (Nat.lt_of_le_of_lt (Nat.sub_le _ 1) hlt) hup with hrun | ⟨i, n, rest, hi, hnp, hpassed⟩
    · exact .inl hrun
    refine .inr ?_
    obtain ⟨level, hlevel⟩ : ∃ level, (s.k.proc p).priority = level + 1 :=
      ⟨_, (Nat.sub_add_cancel hpos).symm⟩
    have hpositive := ticksToPromotion_pos (waitedTicks s.k p) (quantumLeft s.k)
    have hold : dispatchBound s.k p =
        ticksToPromotion (waitedTicks s.k p) (quantumLeft s.k) + 35 * level + 124 := by
      unfold dispatchBound
      rw [hlevel]
      rfl
    have hnew : ((scheduleTick s.k rsp).2.proc p).priority = level := by
      rw [hpassed.proc, hproc, promoted, hwait.priority]
      exact (congrArg (· - 1) hlevel).trans (Nat.add_sub_cancel ..)
    rw [hold, dispatchBound, hnew, hpassed.left]
    cases level with
    | zero =>
        rw [hlevel] at hup hi
        have htop := hpassed.top hnp hi hup
        have hbound := idxOf_lt_of_registered honce hregistered hup
        simp only [SCHEDULER_DEFAULT_QUANTUM, PROCESS_MAX_PROCESSES] at hbound ⊢
        omega
    | succ level =>
        have hwaited : waitedTicks (scheduleTick s.k rsp).2 p = 0 := by
          have hsince : ((scheduleTick s.k rsp).2.proc p).readySinceTick = (scheduleTick s.k rsp).2.totalTicks := by
            rw [hpassed.proc, hproc, hpassed.ticks, hticks]
            exact hwait.ticks
          rw [waitedTicks, hsince, Nat.add_sub_cancel_left, Nat.mod_self]
        have hwait3 : ticksToPromotion 0 3 = 35 := rfl
        simp only [hwaited, hwait3, levelWait, topWait, SCHEDULER_AGING_THRESHOLD, SCHEDULER_DEFAULT_QUANTUM,
          PROCESS_MAX_PROCESSES]
        omega
  · -- not due: its wait goes on, or it moves up on the top level
    rcases hpick hlt (hplace (hwait.place _ hmem).1).1 with hrun | ⟨i, n, rest, hi, hnp, hpassed⟩
    · exact .inl hrun
    refine .inr ?_
    have hkept : KeepsPlace p (entries s.k (s.k.proc p).priority)
        (entries (beforePick s.k rsp) (s.k.proc p).priority) :=
      (hwait.place (s.k.proc p).priority).trans hplace
    have hnew : ((scheduleTick s.k rsp).2.proc p).priority = (s.k.proc p).priority := by
      rw [hpassed.proc, hproc, hwait.priority]
      rfl
    have hwaited : waitedTicks (scheduleTick s.k rsp).2 p = (waitedTicks s.k p + 1) % 2 ^ 64 :=
      waitedTicks_tick h.stamped (hpassed.ticks.trans hticks) (by rw [hpassed.proc, hproc, hwait.since]; rfl)
    have hwaited1 : waitedTicks (tickRunning (countTick s.k) rsp).2 p = (waitedTicks s.k p + 1) % 2 ^ 64 :=
      waitedTicks_tick h.stamped hwait.ticks hwait.since
    unfold dispatchBound
    rw [hnew, hpassed.left, hwaited]
    cases hlevel : (s.k.proc p).priority with
    | zero =>
        rw [hlevel] at hmem hkept hi
        obtain ⟨hin, hle⟩ := hkept hmem
        have htop := hpassed.top hnp hi hin
        simp only [SCHEDULER_DEFAULT_QUANTUM]
        omega
    | succ level =>
        have hearly : (waitedTicks s.k p + 1) % 2 ^ 64 < 32 := by
          rw [← hwaited1]
          by_contra hlate
          refine absurd (decide_eq_true ⟨?_, Nat.le_of_not_lt hlate⟩) (Bool.eq_false_iff.mp hdue)
          rw [hwait.priority]
          exact Nat.lt_of_lt_of_eq (Nat.succ_pos level) hlevel.symm
        have hstay := ticksToPromotion_stay (quantumLeft s.k) hlow hearly
        dsimp only
        omega

/-- Whoever a tick makes current, unless it is idle, runs. -/
theorem running_of_current {k : Kernel} {rsp : Nat} {p : Addr} (hidle : k.idle ≠ some p)
    (hc : (scheduleTick k rsp).2.current = some p) : ((scheduleTick k rsp).2.proc p).state = .running := by
  cases scheduleTick_cases k rsp with
  | keep c keeps _ current state _ _ =>
      cases current.symm.trans hc
      rw [state]
      exact keeps.2.2.1
  | dispatch n _ _ _ _ current state _ _ =>
      cases current.symm.trans hc
      rw [state, if_pos rfl]
  | idle d isIdle _ _ current _ _ _ =>
      cases current.symm.trans hc
      exact absurd isIdle hidle
  | nobody _ _ current _ _ _ => cases current.symm.trans hc

/-- **Step lemma** for a tick. -/
theorem Orderly.dispatchBound_tick {s : SchedState} (h : Orderly s) (rsp : Nat) {p : Addr}
    (hq : Queued s.k p) :
    ((scheduleTick s.k rsp).2.proc p).state = .running ∨
      Queued (scheduleTick s.k rsp).2 p ∧
        dispatchBound (scheduleTick s.k rsp).2 p + 1 ≤ dispatchBound s.k p := by
  obtain ⟨-, -, hready, hidle⟩ := h.entry hq
  have hbound : ((scheduleTick s.k rsp).2.proc p).state = .running ∨
      dispatchBound (scheduleTick s.k rsp).2 p + 1 ≤ dispatchBound s.k p := by
    cases hsw : (tickRunning (countTick s.k) rsp).1 with
    | true => exact h.dispatchBound_switch hq hsw
    | false =>
        obtain ⟨c, hkeep, -⟩ := tickRunning_keep hsw
        refine .inr (dispatchBound_keep h.stamped hkeep h.quantumLeft_le ?_ rsp)
        rintro rfl
        cases hready.symm.trans hkeep.2.2.1
  rcases hbound with hrun | hle
  · exact .inl hrun
  · rcases scheduleTick_runnable h.queues.lossless h.queues.sched.placed h.queues.idle_not_queued rsp
      (.inl hq) with hqueued | hc
    · exact .inr ⟨hqueued, hle⟩
    · exact .inl (running_of_current hidle hc)

/-! ## Runs -/

def SchedCall.isTick : SchedCall → Bool
  | .tick _ => true
  | _ => false

/-- The call is not made for `p`, nor does it give the process that runs a fresh quantum. -/
def SchedState.LeavesAlone (s : SchedState) (p : Addr) : SchedCall → Prop
  | .block pid => processLookup s.k pid ≠ some p
  | .kill pid => processLookup s.k pid ≠ some p
  | .setPriority pid _ =>
    processLookup s.k pid ≠ some p ∧ ∀ c, s.k.current = some c → processLookup s.k pid ≠ some c
  | _ => True

theorem SchedState.onPid_unmoved {s : SchedState} {p : Addr} (pid : Nat) (f : Addr → SchedState)
    (hf : ∀ q, processLookup s.k pid = some q → Unmoved p s.k (f q).k) :
    Unmoved p s.k (s.onPid pid f).k := by
  unfold SchedState.onPid
  split
  · exact .refl p _
  · next q hq => exact hf q hq

/-- A new process queues up behind. -/
theorem Orderly.create_unmoved {s : SchedState} (h : Orderly s) {p : Addr} (hp : Queued s.k p)
    (isShell : Bool) (args : CreateArgs) (rsp : Nat) :
    Unmoved p s.k (createReady s isShell args rsp).k := by
  rcases Orderly.createReady_cases s isShell args rsp with hs | hs | ⟨q, hfree, -, -, hs⟩
  · rw [hs]
    exact .refl p _
  · rw [hs]
    exact ⟨rfl, rfl, rfl, fun _ => .refl p _, le_rfl⟩
  · rw [hs]
    dsimp only
    have hpq : p ≠ q := by
      rintro rfl
      exact absurd ((h.queues.sched.queuedLive p hp).symm.trans hfree) (by simp)
    refine Unmoved.trans ?_ (.schedulerAddReady _ hpq)
    rw [processRegister_kernel]
    have hnew : Unmoved p (s.k.grant q .process) ((s.k.grant q .process).modProc q fun _ =>
        { newProcess (allocatePid s.k) args with isShell := isShell, rsp := rsp }) :=
      .modProc hpq _ fun hr => ProcessState.noConfusion hr
    exact ⟨hnew.priority, hnew.since, hnew.ticks, hnew.place, hnew.left⟩

/-- **Step lemma** for the other calls. -/
theorem Orderly.call_unmoved {s : SchedState} (h : Orderly s) {p : Addr} (hp : Queued s.k p)
    {c : SchedCall} (htick : c.isTick = false) (hc : s.LeavesAlone p c) :
    Unmoved p s.k (s.call c).k := by
  obtain ⟨-, -, hready, -⟩ := h.entry hp
  cases c with
  | create isShell args rsp => exact h.create_unmoved hp isShell args rsp
  | block pid =>
      refine SchedState.onPid_unmoved pid _ fun q hq => ?_
      simp only [SchedState.apply, SchedState.onProcess, if_pos (h.queues.sched.tableLive pid q hq)]
      exact .processBlock s.k fun hpq => hc (hpq ▸ hq)
  | unblock pid =>
      refine SchedState.onPid_unmoved pid _ fun q hq => ?_
      simp only [SchedState.apply, SchedState.onProcess, if_pos (h.queues.sched.tableLive pid q hq)]
      by_cases hpq : p = q
      · -- a process that is READY is not BLOCKED
        rw [← hpq, processUnblock, if_pos (by rw [hready]; decide)]
        exact .refl p _
      · exact .processUnblock s.k hpq
  | kill pid =>
      refine SchedState.onPid_unmoved pid _ fun q hq => ?_
      simp only [SchedState.apply, SchedState.onProcess, if_pos (h.queues.sched.tableLive pid q hq)]
      exact .exitFirstHalf s.k fun hpq => hc (hpq ▸ hq)
  | reap pid =>
      refine SchedState.onPid_unmoved pid _ fun q _ => ?_
      unfold SchedState.reap
      split
      · exact .refl p _
      · rw [processUnregister_kernel]
        exact ⟨rfl, rfl, rfl, fun _ => .refl p _, le_rfl⟩
  | setPriority pid priority =>
      exact .schedulerSetProcessPriority h.queues.lossless h.queues.sched.placed pid priority hc.1 hc.2
  | yield =>
      simp only [SchedState.call]
      split
      · exact .refl p _
      · next c hcur =>
        refine ⟨?_, ?_, rfl, fun _ => .refl p _, ?_⟩
        · simp only [Kernel.modProc, Function.update_apply]
          split <;> simp_all [Process.endQuantum]
        · simp only [Kernel.modProc, Function.update_apply]
          split <;> simp_all [Process.endQuantum]
        · refine TpSo.quantumLeft_le rfl rfl fun q hq hr => ?_
          cases hcur.symm.trans hq
          simp only [Kernel.modProc, Function.update_self] at hr ⊢
          exact ⟨hr, Nat.zero_le _⟩
  | tick rsp => cases htick

/-- **Nobody starves.** After any calls, a process that is `READY` is given the processor within 304
    ticks, whatever calls are made meanwhile by and for others, as long as nobody prolongs the quantum
    of the process that runs. -/
theorem ready_process_runs {memAnswers : Nat → Option Addr} (hmem : ∀ n, (memAnswers n).isSome)
    {before : List SchedCall} {s : SchedState}
    (hs : GuardedRun SchedState.step SchedState.Harmless (SchedState.boot memAnswers) before s)
    {pid : Nat} {p : Addr} (hp : processLookup s.k pid = some p) (hidle : p ≠ Boot.idle)
    (hready : (s.k.proc p).state = .ready) {calls : List SchedCall} {t : SchedState}
    (h : GuardedRun SchedState.step (fun s c => s.Harmless c ∧ s.LeavesAlone p c) s calls t)
    (hticks : 304 ≤ calls.countP SchedCall.isTick) :
    ∃ pre post u, calls = pre ++ post ∧
      GuardedRun SchedState.step (fun s c => s.Harmless c ∧ s.LeavesAlone p c) s pre u ∧
      u.k.current = some p ∧ (u.k.proc p).state = .running := by
  have horderly := Orderly.run hmem hs
  have hqueued := horderly.queues.ready p (horderly.queues.sched.tableLive pid p hp) hidle hready
  have hstep : ∀ s c s', Orderly s ∧ Queued s.k p → s.Harmless c ∧ s.LeavesAlone p c →
      s.step c = some s' → (Orderly s' ∧ (s'.k.proc p).state = .running) ∨ (Orderly s' ∧ Queued s'.k p) ∧
        dispatchBound s'.k p + (if c.isTick then 1 else 0) ≤ dispatchBound s.k p := by
    rintro s c s' ⟨horderly, hqueued⟩ ⟨hharmless, halone⟩ hstep
    cases hstep
    have hnext := horderly.call hharmless
    cases htick : c.isTick with
    | true =>
        cases c with
        | tick rsp =>
            refine (horderly.dispatchBound_tick rsp hqueued).imp (fun hr => ⟨hnext, hr⟩) fun hle => ?_
            exact ⟨⟨hnext, hle.1⟩, hle.2⟩
        | _ => cases htick
    | false =>
        have hwaits := horderly.call_unmoved hqueued htick halone
        obtain ⟨-, hmem, -, -⟩ := horderly.entry hqueued
        refine .inr ⟨⟨hnext, _, (hwaits.place _ hmem).1⟩, ?_⟩
        exact hwaits.dispatchBound_le horderly.quantumLeft_le hmem
  obtain ⟨pre, post, u, hsplit, hrun, hu, hrunning⟩ := h.reaches _ _ (fun s => dispatchBound s.k p) _
    (fun s _ => dispatchBound_pos s.k p) hstep ⟨horderly, hqueued⟩
    ((horderly.dispatchBound_le hqueued).trans hticks)
  exact ⟨pre, post, u, hsplit, hrun, hu.queues.sched.placed.running p hrunning, hrunning⟩

/-- `init` after boot. -/
theorem ready_process_runs_init : ∃ pre post u, List.replicate 304 (SchedCall.tick 0) = pre ++ post ∧
    GuardedRun SchedState.step (fun s c => s.Harmless c ∧ s.LeavesAlone Boot.init c)
      (SchedState.boot freshBlocks) pre u ∧
    u.k.current = some Boot.init ∧ (u.k.proc Boot.init).state = .running := by
  have hticks : ∀ t : SchedState, ∀ c ∈ List.replicate 304 (SchedCall.tick 0),
      t.Harmless c ∧ t.LeavesAlone Boot.init c := by
    intro t c hc
    rw [List.eq_of_mem_replicate hc]
    exact ⟨trivial, trivial⟩
  have hrun := SchedState.run_calls _ (SchedState.boot freshBlocks) hticks
  have hinit : processLookup (SchedState.boot freshBlocks).k 2 = some Boot.init := rfl
  refine ready_process_runs (fun _ => rfl) (.nil _) hinit (by decide) rfl hrun ?_
  rw [List.countP_replicate]
  decide

/-! ## Renewing the quantum -/

/-- `c` runs, and a call of `scheduler_set_process_priority` for it is accepted. -/
structure Renewable (k : Kernel) (c : Addr) (pid priority : Nat) : Prop where
  queues : HasQueues k
  current : k.current = some c
  notIdle : k.idle ≠ some c
  running : (k.proc c).state = .running
  lookup : processLookup k pid = some c
  level : priority ≤ SCHEDULER_MIN_PRIORITY
  shell : (k.proc c).isShell → priority ≤ SHELL_PRIORITY_THRESHOLD

/-- A round: the process sets its own priority, and a tick comes in. -/
def renewRound (s : SchedState) (pid priority rsp : Nat) : SchedState :=
  (s.call (.setPriority pid priority)).call (.tick rsp)

namespace Renewable

variable {k : Kernel} {c : Addr} {pid priority : Nat}

/-- The call is accepted and moves nobody. -/
theorem renews (h : Renewable k c pid priority) :
    PrioritySet k (schedulerSetProcessPriority k pid priority).2 c priority := by
  have hstay : ¬ changesLevel k c priority := fun hmove => by cases h.running.symm.trans hmove.1
  have hterm : (k.proc c).state ≠ .terminated := by
    rw [h.running]
    decide
  unfold schedulerSetProcessPriority
  rw [if_neg (Nat.not_lt.mpr h.level), h.lookup]
  dsimp only
  rw [if_neg hterm, if_neg (fun hi => h.notIdle hi.symm),
    if_neg (fun hs => absurd (h.shell hs.1) (Nat.not_le.mpr hs.2)),
    if_neg (show ¬ ((k.proc c).state = .ready ∧ priority ≠ (k.proc c).priority) from hstay)]
  exact prioritySet_stayed h.queues hstay

/-- **Step lemma** for a round: the process goes on, and nobody else moves. -/
theorem round {s : SchedState} (h : Renewable s.k c pid priority) (rsp : Nat) :
    Renewable (renewRound s pid priority rsp).k c pid priority ∧
      ∀ i, entries (renewRound s pid priority rsp).k i = entries s.k i := by
  have hset := h.renews
  have hstay : ¬ changesLevel s.k c priority := fun hmove => by cases h.running.symm.trans hmove.1
  have hkept := hset.stayed hstay
  have hqueues : HasQueues (schedulerSetProcessPriority s.k pid priority).2 :=
    schedulerSetProcessPriority_hasQueues h.queues pid priority
  show Renewable (scheduleTick (schedulerSetProcessPriority s.k pid priority).2 rsp).2 c pid priority ∧ _
  set k1 := (schedulerSetProcessPriority s.k pid priority).2 with hk1
  have hcurrent : k1.current = some c := by
    rw [hset.rest]
    exact h.current
  have hidle : k1.idle = s.k.idle := by rw [hset.rest]
  have hlookup : processLookup k1 pid = some c := by
    rw [hset.rest]
    exact h.lookup
  have hkeeps : keepsRunning k1 c := by
    refine ⟨hcurrent, ?_, ?_, ?_⟩
    · rw [hidle]
      exact h.notIdle
    · rw [hset.target]
      exact h.running
    · rw [hset.target, if_pos h.current]
      exact Nat.succ_pos 3
  have htick : (scheduleTick k1 rsp).2 =
      processSetRunning ((saveRsp (countTick k1) c rsp).modProc c chargeTick) (some c) :=
    scheduleTick_keep hkeeps rsp
  have hself : (scheduleTick k1 rsp).2.proc c = chargeTick { k1.proc c with rsp := rsp } := by
    rw [htick]
    refine (Function.update_self ..).trans ?_
    exact congrArg chargeTick (Function.update_self ..)
  refine ⟨⟨scheduleTick_hasQueues hqueues rsp, ?_, ?_, ?_, ?_, h.level, ?_⟩, fun i => ?_⟩
  · rw [htick]
    exact hcurrent
  · rw [htick]
    exact hkeeps.2.1
  · rw [hself]
    exact hkeeps.2.2.1
  · rw [htick]
    exact hlookup
  · rw [hself, chargeTick, hset.target]
    exact h.shell
  · rw [← hkept i]
    show entries (scheduleTick k1 rsp).2 i = _
    rw [htick]
    rfl

end Renewable

/-- What no call changes: every level has its queue, and idle is the process made at boot. -/
def Equipped (k : Kernel) : Prop := HasQueues k ∧ k.idle = some Boot.idle

namespace Equipped

variable {s : SchedState}

theorem onPid (h : Equipped s.k) (pid : Nat) (f : Addr → SchedState) (hf : ∀ p, Equipped (f p).k) :
    Equipped (s.onPid pid f).k := by
  unfold SchedState.onPid
  split
  · exact h
  · next p _ => exact hf p

theorem onProcess (h : Equipped s.k) (p : Addr) (f : Kernel → Kernel) (hf : Equipped (f s.k)) :
    Equipped (s.onProcess p f).k := by
  unfold SchedState.onProcess
  split
  · exact hf
  · exact h

theorem schedulerAddReady {k : Kernel} (h : Equipped k) (p : Addr) : Equipped (schedulerAddReady k p) :=
  ⟨schedulerAddReady_hasQueues h.1 p, (idle_of_outside (schedulerAddReady_outside k p)).trans h.2⟩

theorem create (h : Equipped s.k) (isShell : Bool) (args : CreateArgs) (rsp : Nat) :
    Equipped (createReady s isShell args rsp).k := by
  rcases Orderly.createReady_cases s isShell args rsp with hs | hs | ⟨p, -, -, -, hs⟩
  · rw [hs]
    exact h
  · rw [hs]
    exact h
  · rw [hs]
    refine schedulerAddReady ?_ p
    rw [processRegister_kernel]
    exact h

theorem reap (h : Equipped s.k) (p : Addr) : Equipped (s.reap p).k := by
  unfold SchedState.reap
  split
  · exact h
  · dsimp only
    rw [processUnregister_kernel]
    exact h

/-- **Step lemma.** -/
theorem call (h : Equipped s.k) (c : SchedCall) : Equipped (s.call c).k := by
  cases c with
  | create isShell args rsp => exact h.create isShell args rsp
  | block pid =>
      refine h.onPid pid _ fun p => h.onProcess p (fun k => (processBlock k p).2) ?_
      exact ⟨processBlock_hasQueues h.1 p, (idle_of_outside (processBlock_outside s.k p)).trans h.2⟩
  | unblock pid =>
      refine h.onPid pid _ fun p => h.onProcess p (fun k => (processUnblock k p).2) ?_
      exact ⟨processUnblock_hasQueues h.1 p, (idle_of_outside (processUnblock_outside s.k p)).trans h.2⟩
  | kill pid =>
      refine h.onPid pid _ fun p => h.onProcess p (fun k => (exitFirstHalf k p).2) ?_
      exact ⟨exitFirstHalf_hasQueues h.1 p, (idle_of_outer (exitFirstHalf_outer s.k p)).trans h.2⟩
  | reap pid => exact h.onPid pid _ h.reap
  | setPriority pid priority =>
      exact ⟨schedulerSetProcessPriority_hasQueues h.1 pid priority,
        (idle_of_outside (schedulerSetProcessPriority_between s.k pid priority).2).trans h.2⟩
  | yield =>
      simp only [SchedState.call]
      cases s.k.current with
      | none => exact h
      | some c => exact h
  | tick rsp =>
      exact ⟨scheduleTick_hasQueues h.1 rsp, (idle_of_outside (scheduleTick_outside s.k rsp)).trans h.2⟩

/-- **Run lemma.** -/
theorem run {memAnswers : Nat → Option Addr} {calls : List SchedCall}
    (h : GuardedRun SchedState.step (fun _ _ => True) (SchedState.boot memAnswers) calls s) : Equipped s.k := by
  refine h.invariant (fun s => Equipped s.k) (fun s c s' hs _ hstep => ?_) ⟨fun _ => Option.some_ne_none _, rfl⟩
  cases hstep
  exact hs.call c

end Equipped

/-- **A process that renews its own priority keeps the processor**: `scheduler_set_process_priority`
    gives the current process a fresh quantum, so that, with one call between any two ticks, it is
    never switched from, and nobody else moves in a ready queue however many ticks go by. -/
theorem renewing_keeps_processor {memAnswers : Nat → Option Addr} {before : List SchedCall} {s : SchedState}
    (hs : GuardedRun SchedState.step (fun _ _ => True) (SchedState.boot memAnswers) before s)
    {pid priority : Nat} {c : Addr} (hp : processLookup s.k pid = some c) (hc : s.k.current = some c)
    (hrun : (s.k.proc c).state = .running) (hidle : c ≠ Boot.idle)
    (hlevel : priority ≤ SCHEDULER_MIN_PRIORITY)
    (hshell : (s.k.proc c).isShell → priority ≤ SHELL_PRIORITY_THRESHOLD) (rsp rounds : Nat) :
    let t := (fun s => renewRound s pid priority rsp)^[rounds] s
    t.k.current = some c ∧ (t.k.proc c).state = .running ∧ ∀ i, entries t.k i = entries s.k i := by
  obtain ⟨hqueues, hboot⟩ := Equipped.run hs
  have hrenewable : Renewable s.k c pid priority := by
    refine ⟨hqueues, hc, ?_, hrun, hp, hlevel, hshell⟩
    rw [hboot]
    exact fun hi => hidle (Option.some.inj hi).symm
  have hall : Renewable ((fun s => renewRound s pid priority rsp)^[rounds] s).k c pid priority ∧
      ∀ i, entries ((fun s => renewRound s pid priority rsp)^[rounds] s).k i = entries s.k i := by
    induction rounds with
    | zero => exact ⟨hrenewable, fun _ => rfl⟩
    | succ rounds ih =>
        rw [Function.iterate_succ_apply']
        obtain ⟨hnext, hsame⟩ := ih.1.round rsp
        exact ⟨hnext, fun i => (hsame i).trans (ih.2 i)⟩
  exact ⟨hall.1.current, hall.1.running, hall.2⟩

/-- `init` after the first tick, with a new process waiting behind it. -/
theorem renewing_keeps_processor_init : ∃ s : SchedState,
    GuardedRun SchedState.step (fun _ _ => True) (SchedState.boot freshBlocks)
      [.tick 0, .create false { entryPoint := 0x400000 } 0] s ∧
    (entries s.k 0).length = 1 ∧
    ((fun s => renewRound s 2 0 0)^[1000] s).k.current = some Boot.init ∧
    ∀ i, entries ((fun s => renewRound s 2 0 0)^[1000] s).k i = entries s.k i := by
  have hrun := @SchedState.run_calls (fun _ _ => True) [.tick 0, .create false { entryPoint := 0x400000 } 0]
    (SchedState.boot freshBlocks) fun _ _ _ => trivial
  set s := [SchedCall.tick 0, .create false { entryPoint := 0x400000 } 0].foldl SchedState.call
    (SchedState.boot freshBlocks)
  have hinit : processLookup s.k 2 = some Boot.init := by decide +kernel
  obtain ⟨hcurrent, -, hsame⟩ := @renewing_keeps_processor _ _ s hrun 2 0 Boot.init hinit (by decide +kernel)
    (by decide +kernel) (by decide) (by decide) (by decide +kernel) 0 1000
  exact ⟨s, hrun, by decide +kernel, hcurrent, hsame⟩

end TpSo
