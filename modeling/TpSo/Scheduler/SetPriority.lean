import TpSo.Machine.Seats

set_option autoImplicit false

/-! # `scheduler_set_process_priority`

The target is taken out of its queue by draining the queue into a temporary one and back, and pushed
onto the queue of its new level. The allocations of a call are, in order: the temporary queue, a node
for each transfer into it, a node for each transfer back, the node of the last push. -/

namespace TpSo

/-- The other entries of the level that `p` is on: what the transfer loops move. -/
def besides (k : Kernel) (p : Addr) : List Addr :=
  (entries k (priorityIndex (k.proc p).priority)).filter (fun e => decide (e ≠ p))

/-- The transfer loops find memory for their nodes. -/
def TransfersFindMemory (k : Kernel) (p : Addr) : Prop :=
  ∀ j < 2 * (besides k p).length, (k.memAnswers (k.memCalls + 1 + j)).isSome

/-- The node of the last push is allocated right after the temporary queue, a block of the same size
    class, has been freed: it finds memory if the temporary queue did. -/
def LastNodeReuses (k : Kernel) (p : Addr) : Prop :=
  (k.memAnswers k.memCalls).isSome →
    (k.memAnswers (k.memCalls + 1 + 2 * (besides k p).length)).isSome

/-- The process leaves its queue: it is `READY` and asked to a level other than its own. -/
def changesLevel (k : Kernel) (p : Addr) (priority : Nat) : Prop :=
  (k.proc p).state = .ready ∧ priority ≠ (k.proc p).priority

/-- The targets and levels `scheduler_set_process_priority` refuses. -/
def PriorityRefused (k : Kernel) (pid priority : Nat) : Prop :=
  priority > SCHEDULER_MIN_PRIORITY ∨
  match processLookup k pid with
  | none => True
  | some p =>
    (k.proc p).state = .terminated ∨ k.idle = some p ∨
    ((k.proc p).isShell ∧ priority > SHELL_PRIORITY_THRESHOLD) ∨
    (changesLevel k p priority ∧ k.allocOk = false)

/-- What the call has done when it returns 0. -/
structure PrioritySet (k k' : Kernel) (p : Addr) (priority : Nat) : Prop where
  level : (k'.proc p).priority = priority
  requested : (k'.proc p).priorityRequested = priority
  fixed : (k'.proc p).priorityFixed = true
  /-- The other fields of the target; the current process gets a fresh quantum. -/
  target : k'.proc p = { k.proc p with
    priority := priority, priorityRequested := priority, priorityFixed := true
    remainingQuantum :=
      if k.current = some p then SCHEDULER_DEFAULT_QUANTUM else (k.proc p).remainingQuantum }
  processes : ∀ q, q ≠ p → k'.proc q = k.proc q
  /-- At the tail of its new level, and in no other queue. -/
  moved : changesLevel k p priority → ∀ i,
    entries k' i = (entries k i).filter (fun e => decide (e ≠ p)) ++ if i = priority then [p] else []
  stayed : ¬ changesLevel k p priority → ∀ i, entries k' i = entries k i
  bystanders : ∀ i, (entries k' i).filter (fun e => decide (e ≠ p)) =
    (entries k i).filter (fun e => decide (e ≠ p))
  rest : k' = { k with proc := k'.proc, readyQueues := k'.readyQueues, memCalls := k'.memCalls }

/-! ## The whole call -/

theorem refreshQuantum_proc (k : Kernel) (p q : Addr) :
    (refreshQuantum k p).proc q =
      if q = p ∧ k.current = some p then
        { k.proc p with remainingQuantum := SCHEDULER_DEFAULT_QUANTUM }
      else k.proc q := by
  unfold refreshQuantum Kernel.modProc
  split
  · next hc =>
    dsimp only
    rw [Function.update_apply]
    simp only [hc, and_true]
  · next hc => simp only [hc, and_false, if_false]

theorem refreshQuantum_rest (k : Kernel) (p : Addr) :
    refreshQuantum k p = { k with proc := (refreshQuantum k p).proc } := by
  unfold refreshQuantum
  split <;> rfl

theorem priorityFields_eq (priority : Nat) (p : Process) :
    priorityFields priority p =
      { p with priority := priority, priorityRequested := priority, priorityFixed := true } := by
  unfold priorityFields
  rw [shellFloor_eq]

/-- The processes after `storePriority`. -/
theorem storePriority_proc (k : Kernel) (p : Addr) (priority old : Nat) (q : Addr) :
    (storePriority k p priority old).proc q =
      if q = p then { k.proc p with
        priority := priority, priorityRequested := priority, priorityFixed := true
        remainingQuantum :=
          if k.current = some p then SCHEDULER_DEFAULT_QUANTUM else (k.proc p).remainingQuantum }
      else k.proc q := by
  have henq : ∀ k1 : Kernel, SameButQueues k1 (enqueueMoved k1 p old) := by
    intro k1
    unfold enqueueMoved
    split
    · exact pushReady_same _ _ _
    · exact .refl k1
  have hsame := henq (k.modProc p (priorityFields priority))
  have hproc : ∀ x, (enqueueMoved (k.modProc p (priorityFields priority)) p old).proc x =
      if x = p then priorityFields priority (k.proc p) else k.proc x := by
    intro x
    rw [hsame.proc]
    exact Function.update_apply ..
  unfold storePriority
  rw [refreshQuantum_proc, hsame.current, hproc, hproc, if_pos rfl, priorityFields_eq]
  by_cases hq : q = p
  · subst hq
    by_cases hc : k.current = some q
    · simp [Kernel.modProc, hc]
    · simp [Kernel.modProc, hc]
  · simp [hq]

theorem entries_pushReady_of_ok {k : Kernel} (hq : HasQueues k) (hok : k.allocOk = true)
    (priority : Nat) (p : Addr) (i : Nat) :
    entries (pushReady k priority p) i =
      entries k i ++ if i = priorityIndex priority then [p] else [] := by
  unfold pushReady
  dsimp only
  rw [hq.queueForPriority, hq.some_entries, queuePush_ok k _ p hok, entries_setReady]
  split
  · next hi => rw [hi, Option.getD_some]
  · exact (List.append_nil _).symm

/-- The queues after `storePriority`. -/
theorem entries_storePriority {k : Kernel} (hq : HasQueues k) {p : Addr} {priority old : Nat}
    (hok : (k.proc p).state = .ready ∧ priority ≠ old → k.allocOk = true) (i : Nat) :
    entries (storePriority k p priority old) i = entries k i ++
      if ((k.proc p).state = .ready ∧ priority ≠ old) ∧ i = priorityIndex priority then [p] else [] := by
  have hrefresh : ∀ k1 : Kernel, entries (refreshQuantum k1 p) i = entries k1 i := by
    intro k1
    unfold refreshQuantum
    split <;> rfl
  have hself : (k.modProc p (priorityFields priority)).proc p = priorityFields priority (k.proc p) :=
    Function.update_self ..
  unfold storePriority enqueueMoved
  rw [hrefresh, hself, priorityFields_eq]
  by_cases hmove : (k.proc p).state = .ready ∧ priority ≠ old
  · rw [if_pos hmove, entries_pushReady_of_ok (hq.modProc p _) (hok hmove)]
    simp only [entries_modProc, hmove, ne_eq, not_false_eq_true, and_self, true_and]
  · rw [if_neg hmove, if_neg (fun h => hmove h.1), List.append_nil]
    rfl

theorem storePriority_rest (k : Kernel) (p : Addr) (priority old : Nat) :
    ∃ proc queues calls,
      storePriority k p priority old = { k with proc := proc, readyQueues := queues, memCalls := calls } := by
  have hsame : SameButQueues (k.modProc p (priorityFields priority))
      (enqueueMoved (k.modProc p (priorityFields priority)) p old) := by
    unfold enqueueMoved
    split
    · exact pushReady_same _ _ _
    · exact .refl _
  unfold storePriority
  rw [refreshQuantum_rest, hsame]
  exact ⟨_, _, _, rfl⟩

theorem priorityIndex_of_le {priority : Nat} (h : priority ≤ SCHEDULER_MIN_PRIORITY) :
    priorityIndex priority = priority :=
  priorityIndex_of_lt (Nat.lt_succ_of_le h)

/-- Who is in no queue is missed by none. -/
theorem filter_ne_eq_self {xs : List Addr} {p : Addr} (h : p ∉ xs) :
    xs.filter (fun e => decide (e ≠ p)) = xs :=
  List.filter_eq_self.mpr fun _ he => decide_eq_true fun hep => h (hep ▸ he)

section Accepted
variable {k : Kernel} (hq : HasQueues k) (hpl : Placed k) {p : Addr} {priority : Nat}
  (hidle : k.idle ≠ some p) (hle : priority ≤ SCHEDULER_MIN_PRIORITY)

include hq hpl hidle hle in
/-- The target leaves its level for another one. -/
theorem prioritySet_moved (hmove : changesLevel k p priority) {calls : Nat}
    (hlast : (k.memAnswers calls).isSome) :
    PrioritySet k (storePriority ({ k with memCalls := calls }.setReady
      (priorityIndex (k.proc p).priority) (some (besides k p))) p priority (k.proc p).priority)
      p priority := by
  set k1 := { k with memCalls := calls }.setReady (priorityIndex (k.proc p).priority)
    (some (besides k p)) with hk1
  have hq1 : HasQueues k1 := HasQueues.setReady (k := { k with memCalls := calls }) hq _
    (Option.some_ne_none _)
  -- only its own level held the target
  have hent : ∀ i, entries k1 i = (entries k i).filter (fun e => decide (e ≠ p)) := by
    intro i
    rw [hk1, entries_setReady]
    split
    · next hi => rw [hi, Option.getD_some, besides]
    · next hi =>
      refine (filter_ne_eq_self fun hp => hi ?_).symm
      exact (hpl.entry i p hp hidle).2
  have hproc := storePriority_proc k1 p priority (k.proc p).priority
  have hqueues : ∀ i, entries (storePriority k1 p priority (k.proc p).priority) i =
      (entries k i).filter (fun e => decide (e ≠ p)) ++ if i = priority then [p] else [] := by
    intro i
    have hmove1 : (k1.proc p).state = .ready ∧ priority ≠ (k.proc p).priority := hmove
    rw [entries_storePriority hq1 fun _ => hlast, hent, priorityIndex_of_le hle]
    simp only [hmove1, ne_eq, not_false_eq_true, and_self, true_and]
  refine ⟨?_, ?_, ?_, ?_, fun q hqp => ?_, fun _ => hqueues, fun h => absurd hmove h, fun i => ?_, ?_⟩
  · rw [hproc, if_pos rfl]
  · rw [hproc, if_pos rfl]
  · rw [hproc, if_pos rfl]
  · rw [hproc, if_pos rfl]
    rfl
  · rw [hproc, if_neg hqp]
    rfl
  · rw [hqueues i, List.filter_append, List.filter_filter]
    simp only [Bool.and_self]
    split
    · simp
    · exact List.append_nil _
  · obtain ⟨proc, queues, memCalls, hk⟩ := storePriority_rest k1 p priority (k.proc p).priority
    rw [hk]
    rfl

end Accepted

/-- The target keeps its level, or is in no queue. -/
theorem prioritySet_stayed {k : Kernel} (hq : HasQueues k) {p : Addr} {priority : Nat}
    (hstay : ¬ changesLevel k p priority) :
    PrioritySet k (storePriority k p priority (k.proc p).priority) p priority := by
  have hproc := storePriority_proc k p priority (k.proc p).priority
  have hqueues : ∀ i, entries (storePriority k p priority (k.proc p).priority) i = entries k i := by
    intro i
    rw [entries_storePriority hq (fun h => absurd h hstay), if_neg (fun h => hstay h.1),
      List.append_nil]
  refine ⟨?_, ?_, ?_, ?_, fun q hqp => ?_, fun h => absurd h hstay, fun _ => hqueues,
    fun i => by rw [hqueues i], ?_⟩
  · rw [hproc, if_pos rfl]
  · rw [hproc, if_pos rfl]
  · rw [hproc, if_pos rfl]
  · rw [hproc, if_pos rfl]
  · rw [hproc, if_neg hqp]
  · obtain ⟨proc, queues, memCalls, hk⟩ := storePriority_rest k p priority (k.proc p).priority
    rw [hk]

/-- **`scheduler_set_process_priority`** in a reachable state that satisfies the placement invariant.
    A refused call returns -1 and changes nothing; any other returns 0 and has done what
    `PrioritySet` says, and nothing else. -/
theorem set_process_priority {memAnswers : Nat → Option Addr} {as : List Action} {m : Machine}
    (h : Reaches memAnswers as m) (hpl : Placed m.k) (pid priority : Nat)
    (hloops : ∀ p, processLookup m.k pid = some p → TransfersFindMemory m.k p)
    (hlast : ∀ p, processLookup m.k pid = some p → LastNodeReuses m.k p) :
    (PriorityRefused m.k pid priority → ∃ calls,
      schedulerSetProcessPriority m.k pid priority = (-1, { m.k with memCalls := calls })) ∧
    (¬ PriorityRefused m.k pid priority → ∃ p, processLookup m.k pid = some p ∧
      (schedulerSetProcessPriority m.k pid priority).1 = 0 ∧
      PrioritySet m.k (schedulerSetProcessPriority m.k pid priority).2 p priority) := by
  have hq := reaches_hasQueues h
  generalize m.k = k at *
  unfold PriorityRefused schedulerSetProcessPriority
  -- one case for each check, in the order of the source
  by_cases hle : priority > SCHEDULER_MIN_PRIORITY
  · rw [if_pos hle]
    exact ⟨fun _ => ⟨k.memCalls, rfl⟩, fun hn => absurd (.inl hle) hn⟩
  rw [if_neg hle]
  simp only [hle, false_or]
  cases hp : processLookup k pid with
  | none => exact ⟨fun _ => ⟨k.memCalls, rfl⟩, fun hn => absurd trivial hn⟩
  | some p =>
    dsimp only
    by_cases hterm : (k.proc p).state = .terminated
    · rw [if_pos hterm]
      exact ⟨fun _ => ⟨k.memCalls, rfl⟩, fun hn => absurd (.inl hterm) hn⟩
    by_cases hidle : k.idle = some p
    · rw [if_neg hterm, if_pos hidle.symm]
      exact ⟨fun _ => ⟨k.memCalls, rfl⟩, fun hn => absurd (.inr (.inl hidle)) hn⟩
    by_cases hshell : (k.proc p).isShell ∧ priority > SHELL_PRIORITY_THRESHOLD
    · rw [if_neg hterm, if_neg (Ne.symm hidle), if_pos hshell]
      exact ⟨fun _ => ⟨k.memCalls, rfl⟩, fun hn => absurd (.inr (.inr (.inl hshell))) hn⟩
    rw [if_neg hterm, if_neg (Ne.symm hidle), if_neg hshell]
    simp only [hterm, hidle, hshell, false_or]
    have hpurge := purgeLevel_of_memory hq p (k.proc p).priority rfl (hloops p hp)
    by_cases hmove : changesLevel k p priority
    · rw [if_pos (show (k.proc p).state = .ready ∧ priority ≠ (k.proc p).priority from hmove), hpurge]
      cases hok : k.allocOk with
      | false =>
        rw [if_neg Bool.false_ne_true, hq.queueForPriority]
        exact ⟨fun _ => ⟨k.memCalls + 1, rfl⟩, fun hn => absurd ⟨hmove, rfl⟩ hn⟩
      | true =>
        rw [if_pos rfl]
        exact ⟨fun hr => absurd hr.2 (by decide), fun _ => ⟨p, rfl, rfl,
          prioritySet_moved hq hpl hidle (Nat.le_of_not_lt hle) hmove (hlast p hp hok)⟩⟩
    · rw [if_neg (show ¬ ((k.proc p).state = .ready ∧ priority ≠ (k.proc p).priority) from hmove)]
      exact ⟨fun hr => absurd hr.1 hmove, fun _ => ⟨p, rfl, rfl, prioritySet_stayed hq hmove⟩⟩

/-- The shell creates two children. -/
def twoChildren : List Action :=
  startShell ++
  .syscall (.processCreate 0 0 false (KERNEL_BASE * 4)) :: List.replicate 45 .exec ++
  .syscall (.processCreate 0 0 false (KERNEL_BASE * 4)) :: List.replicate 45 .exec

/-- The process is on the top level, and so is another one; it may go to level 3, and the call finds memory. -/
def movable (k : Kernel) (p q : Addr) : Bool :=
  decide ((k.proc p).state = .ready ∧ (k.proc p).priority = 0 ∧ (k.proc p).isShell = false ∧ k.idle ≠ some p) &&
    decide (entries k 0 = [p, q] ∧ entries k 3 = []) &&
    (List.range 4).all fun n => (k.memAnswers (k.memCalls + n)).isSome

set_option maxRecDepth 100000 in
/-- The first child leaves the second one behind. -/
theorem set_process_priority_child : ∃ m, Reaches freshBlocks twoChildren m ∧
    entries m.k 0 = [KERNEL_BASE + 114, KERNEL_BASE + 124] ∧ (schedulerSetProcessPriority m.k 4 3).1 = 0 ∧
    entries (schedulerSetProcessPriority m.k 4 3).2 0 = [KERNEL_BASE + 124] ∧
    entries (schedulerSetProcessPriority m.k 4 3).2 3 = [KERNEL_BASE + 114] := by
  obtain ⟨m, hm, hfacts⟩ := (Option.any_eq_true (fun m : Machine =>
    decide (processLookup m.k 4 = some (KERNEL_BASE + 114)) &&
      movable m.k (KERNEL_BASE + 114) (KERNEL_BASE + 124))
    (GuardedRun.check Machine.step (fun m a => (m.stepActs a).all (offQueue m.k)) (Boot.machine freshBlocks)
      twoChildren)).mp (by decide +kernel)
  simp only [movable, Bool.and_eq_true, decide_eq_true_eq, List.all_eq_true, List.mem_range] at hfacts
  obtain ⟨hlookup, ⟨⟨hready, hlevel, hshell, hidle⟩, hqueue, hempty⟩, hmem⟩ := hfacts
  have hrun := GuardedRun.of_check hm
  have hmoves : changesLevel m.k (KERNEL_BASE + 114) 3 := ⟨hready, by rw [hlevel]; decide⟩
  have hbesides : besides m.k (KERNEL_BASE + 114) = [KERNEL_BASE + 124] := by
    rw [besides, hlevel, show priorityIndex 0 = 0 from rfl, hqueue]
    rfl
  have haccepted : ¬ PriorityRefused m.k 4 3 := by
    have hok : m.k.allocOk = true := hmem 0 (by decide)
    simp [PriorityRefused, hlookup, hready, hidle, hshell, hok, SCHEDULER_MIN_PRIORITY]
  have hloops : ∀ p, processLookup m.k 4 = some p → TransfersFindMemory m.k p := by
    intro p hp j hj
    cases hlookup.symm.trans hp
    rw [hbesides] at hj
    have hlt : j < 2 := hj
    rw [Nat.add_assoc]
    exact hmem (1 + j) (by omega)
  have hlast : ∀ p, processLookup m.k 4 = some p → LastNodeReuses m.k p := by
    intro p hp _
    cases hlookup.symm.trans hp
    rw [hbesides]
    exact hmem 3 (by decide)
  obtain ⟨p, hp, hzero, hset⟩ := (set_process_priority (run_of_guarded hrun) (placed_of_run hrun) 4 3
    hloops hlast).2 haccepted
  cases hlookup.symm.trans hp
  refine ⟨m, run_of_guarded hrun, hqueue, hzero, ?_, ?_⟩
  · rw [hset.moved hmoves, hqueue]
    rfl
  · rw [hset.moved hmoves, hempty]
    rfl

end TpSo
