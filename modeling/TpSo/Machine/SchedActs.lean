import TpSo.Process.Effects
import TpSo.Kernel.Exec

set_option autoImplicit false

/-! # Kernel code as scheduler operations

Seen from the scheduler, a stretch of kernel code is a short sequence of the operations of
`process.c` and `scheduler.c`. `exec_acts` says which, for every instruction; what follows about
states, queues and saved stack pointers is derived from the operations. -/

namespace TpSo

/-! ## The scheduler's view -/

/-- The same states, saved stack pointers, priorities and entries of the ready queues; a missing
    ready queue may have been created. The allocator is the same too. -/
structure SameSched (k k' : Kernel) : Prop where
  state : ∀ p, (k'.proc p).state = (k.proc p).state
  rsp : ∀ p, (k'.proc p).rsp = (k.proc p).rsp
  priority : ∀ p, (k'.proc p).priority = (k.proc p).priority
  entries : ∀ i, entries k' i = entries k i
  exist : ∀ i, k.readyQueues i ≠ none → k'.readyQueues i ≠ none
  current : k'.current = k.current
  idle : k'.idle = k.idle
  answers : k'.memAnswers = k.memAnswers

namespace SameSched

variable {k k' k'' : Kernel}

theorem refl (k : Kernel) : SameSched k k :=
  ⟨fun _ => rfl, fun _ => rfl, fun _ => rfl, fun _ => rfl, fun _ h => h, rfl, rfl, rfl⟩

theorem trans (h : SameSched k k') (h' : SameSched k' k'') : SameSched k k'' where
  state p := (h'.state p).trans (h.state p)
  rsp p := (h'.rsp p).trans (h.rsp p)
  priority p := (h'.priority p).trans (h.priority p)
  entries i := (h'.entries i).trans (h.entries i)
  exist i hi := h'.exist i (h.exist i hi)
  current := h'.current.trans h.current
  idle := h'.idle.trans h.idle
  answers := h'.answers.trans h.answers

theorem queued (h : SameSched k k') (p : Addr) : Queued k' p ↔ Queued k p :=
  exists_congr fun i => by rw [h.entries i]

theorem placed (h : SameSched k k') (hpl : Placed k) : Placed k' where
  entry i p hm hne := by
    rw [h.state p, h.priority p]
    exact hpl.entry i p (h.entries i ▸ hm) (h.idle ▸ hne)
  once i p hne := by
    rw [h.entries i]
    exact hpl.once i p (h.idle ▸ hne)
  running p hr := h.current.trans (hpl.running p (h.state p ▸ hr))

/-- A kernel that differs in other fields only. -/
theorem of_eq (hp : k'.proc = k.proc) (hq : k'.readyQueues = k.readyQueues)
    (hc : k'.current = k.current) (hi : k'.idle = k.idle) (ha : k'.memAnswers = k.memAnswers) :
    SameSched k k' where
  state _ := by rw [hp]
  rsp _ := by rw [hp]
  priority _ := by rw [hp]
  entries i := by unfold TpSo.entries; rw [hq]
  exist i h := hq ▸ h
  current := hc
  idle := hi
  answers := ha

/-- A write to a process that the scheduler does not see. -/
theorem modProc (k : Kernel) (p : Addr) (f : Process → Process)
    (hs : (f (k.proc p)).state = (k.proc p).state) (hr : (f (k.proc p)).rsp = (k.proc p).rsp)
    (hp : (f (k.proc p)).priority = (k.proc p).priority) : SameSched k (k.modProc p f) := by
  refine ⟨fun q => ?_, fun q => ?_, fun q => ?_, fun _ => rfl, fun _ h => h, rfl, rfl, rfl⟩ <;>
  · by_cases h : q = p
    · subst h
      simp only [Kernel.modProc, Function.update_self, hs, hr, hp]
    · simp only [Kernel.modProc, Function.update_of_ne h]

theorem of_family (h : FamilyOnly k k') : SameSched k k' where
  state p := by rw [h.proc p]
  rsp p := by rw [h.proc p]
  priority p := by rw [h.proc p]
  entries i := by rw [h.kernel]; rfl
  exist i hi := by rw [h.kernel]; exact hi
  current := by rw [h.kernel]
  idle := by rw [h.kernel]
  answers := by rw [h.kernel]

/-- Creating a missing ready queue. -/
theorem queueForPriority (k : Kernel) (priority : Nat) :
    SameSched k (queueForPriority k priority) where
  state p := by rw [(queueForPriority_same k priority).proc]
  rsp p := by rw [(queueForPriority_same k priority).proc]
  priority p := by rw [(queueForPriority_same k priority).proc]
  entries := entries_queueForPriority k priority
  exist i hi := by
    unfold TpSo.queueForPriority
    split
    · exact hi
    · next hn =>
      unfold Kernel.setReady
      dsimp only
      rw [Function.update_of_ne fun h : i = _ => hi (h ▸ hn)]
      exact hi
  current := (queueForPriority_same k priority).current
  idle := (queueForPriority_same k priority).idle
  answers := answers_of_outside (queueForPriority_aged k priority).outside

end SameSched

/-! ## Operations -/

/-- An operation on the scheduler's data. -/
inductive SchedAct
  | block (p : Addr)
  | unblock (p : Addr)
  | exit (p : Addr)
  | ready (p : Addr)
  | setPriority (pid priority : Nat)
  /-- A new process object at an address that was free. -/
  | fresh (p : Addr)

/-- What the operation does. -/
def SchedAct.Step : SchedAct → Kernel → Kernel → Prop
  | .block p, k, k' => k' = (processBlock k p).2
  | .unblock p, k, k' => k' = (processUnblock k p).2
  | .exit p, k, k' => k' = (exitFirstHalf k p).2
  | .ready p, k, k' => k' = schedulerAddReady k p
  | .setPriority pid priority, k, k' => k' = (schedulerSetProcessPriority k pid priority).2
  | .fresh p, k, k' =>
    k.live p = none ∧ KERNEL_BASE ≤ p ∧ (k'.proc p).state = .ready ∧
      ((k'.proc p).rsp = p ∨ (k'.proc p).rsp = 0) ∧ (∀ q, q ≠ p → k'.proc q = k.proc q) ∧
      k'.readyQueues = k.readyQueues ∧ k'.current = k.current ∧ k'.idle = k.idle ∧
      k'.memAnswers = k.memAnswers

/-- A sequence of operations, with anything the scheduler does not see in between. -/
inductive SchedActs : Kernel → List SchedAct → Kernel → Prop
  | done {k k' : Kernel} : SameSched k k' → SchedActs k [] k'
  | act {k k1 k2 k' : Kernel} {a : SchedAct} {as : List SchedAct} :
      SameSched k k1 → a.Step k1 k2 → SchedActs k2 as k' → SchedActs k (a :: as) k'

/-- A single operation. -/
theorem SchedActs.one {k k1 k2 k' : Kernel} {a : SchedAct} (h1 : SameSched k k1) (h : a.Step k1 k2)
    (h2 : SameSched k2 k') : SchedActs k [a] k' :=
  .act h1 h (.done h2)

/-! ## What an operation can do -/

/-- Everything one operation may change, in terms of the operation. -/
structure ActSpec (k : Kernel) (a : SchedAct) (k' : Kernel) : Prop where
  state : ∀ p, (k'.proc p).state = (k.proc p).state ∨
    a = .block p ∧ (k'.proc p).state = .blocked ∨
    a = .unblock p ∧ (k.proc p).state = .blocked ∧ (k'.proc p).state = .ready ∨
    a = .exit p ∧ (k'.proc p).state = .terminated ∨
    (a = .ready p ∨ a = .fresh p) ∧ (k'.proc p).state = .ready
  rsp : ∀ p, (k'.proc p).rsp = (k.proc p).rsp ∨
    a = .fresh p ∧ ((k'.proc p).rsp = p ∨ (k'.proc p).rsp = 0)
  current : k'.current = k.current
  idle : k'.idle = k.idle
  queued : ∀ p, Queued k' p → Queued k p ∨ a = .ready p ∨
    a = .unblock p ∧ (k.proc p).state = .blocked ∨
    ∃ pid priority, a = .setPriority pid priority ∧ processLookup k pid = some p

theorem SchedAct.Step.spec {a : SchedAct} {k k' : Kernel} (h : a.Step k k') : ActSpec k a k' := by
  cases a with
  | block p =>
      simp only [SchedAct.Step] at h
      subst h
      have hb := processBlock_between k p
      refine ⟨fun q => ?_, fun q => .inl (hb.rsp q), hb.current,
        idle_of_outside (processBlock_outside k p), fun q hq => .inl ((hb.queued q hq).resolve_right id)⟩
      rw [hb.state q, stateBut]
      split
      · next hq => exact .inr (.inl ⟨hq ▸ rfl, rfl⟩)
      · exact .inl rfl
  | unblock p =>
      simp only [SchedAct.Step] at h
      subst h
      have hb := processUnblock_between k p
      refine ⟨fun q => ?_, fun q => .inl (hb.rsp q), hb.current,
        idle_of_outside (processUnblock_outside k p), fun q hq => ?_⟩
      · rw [hb.state q, unblockedState]
        split
        · next hq => exact .inr (.inr (.inl ⟨hq.1 ▸ rfl, hq.1 ▸ hq.2, rfl⟩))
        · exact .inl rfl
      · rcases hb.queued q hq with hq | ⟨rfl, hs⟩
        · exact .inl hq
        · exact .inr (.inr (.inl ⟨rfl, hs⟩))
  | exit p =>
      simp only [SchedAct.Step] at h
      subst h
      have hb := exitFirstHalf_between k p
      refine ⟨fun q => ?_, fun q => .inl (hb.rsp q), hb.current,
        idle_of_outer (exitFirstHalf_outer k p), fun q hq => .inl ((hb.queued q hq).resolve_right id)⟩
      rw [hb.state q, stateBut]
      split
      · next hq => exact .inr (.inr (.inr (.inl ⟨hq ▸ rfl, rfl⟩)))
      · exact .inl rfl
  | ready p =>
      simp only [SchedAct.Step] at h
      subst h
      have hb := schedulerAddReady_between k p
      refine ⟨fun q => ?_, fun q => .inl (hb.rsp q), hb.current,
        idle_of_outside (schedulerAddReady_outside k p), fun q hq => ?_⟩
      · rw [hb.state q, stateBut]
        split
        · next hq => exact .inr (.inr (.inr (.inr ⟨.inl (hq ▸ rfl), rfl⟩)))
        · exact .inl rfl
      · rcases hb.queued q hq with hq | rfl
        · exact .inl hq
        · exact .inr (.inl rfl)
  -- the new priority can move the process between queues, and changes nobody's state
  | setPriority pid n =>
      simp only [SchedAct.Step] at h
      subst h
      obtain ⟨hb, hout⟩ := schedulerSetProcessPriority_between k pid n
      refine ⟨fun q => .inl (hb.state q), fun q => .inl (hb.rsp q), hb.current,
        idle_of_outside hout, fun q hq => ?_⟩
      exact (hb.queued q hq).imp_right fun h => .inr (.inr ⟨pid, n, rfl, h.1⟩)
  -- a new process is written over a free block, so every other process is as before
  | fresh p =>
      obtain ⟨-, -, hs, hr, hother, hq, hc, hi, -⟩ := h
      refine ⟨fun q => ?_, fun q => ?_, hc, hi, fun q hm => .inl ?_⟩
      · by_cases hqp : q = p
        · subst hqp
          exact .inr (.inr (.inr (.inr ⟨.inr rfl, hs⟩)))
        · exact .inl (by rw [hother q hqp])
      · by_cases hqp : q = p
        · subst hqp
          exact .inr ⟨rfl, hr⟩
        · exact .inl (by rw [hother q hqp])
      · unfold Queued entries at hm ⊢
        rwa [hq] at hm

/-! ## What a sequence can do -/

namespace SchedActs

variable {k k' : Kernel} {as : List SchedAct}

theorem current (h : SchedActs k as k') : k'.current = k.current := by
  induction h with
  | done hs => exact hs.current
  | act hs ha _ ih => exact ih.trans (ha.spec.current.trans hs.current)

theorem idle (h : SchedActs k as k') : k'.idle = k.idle := by
  induction h with
  | done hs => exact hs.idle
  | act hs ha _ ih => exact ih.trans (ha.spec.idle.trans hs.idle)

/-- A sequence followed by something the scheduler does not see. -/
theorem trans_same {k'' : Kernel} (h : SchedActs k as k') (hs : SameSched k' k'') :
    SchedActs k as k'' := by
  induction h with
  | done h1 => exact .done (h1.trans hs)
  | act h1 ha _ ih => exact .act h1 ha (ih hs)

/-- A sequence after something the scheduler does not see. -/
theorem same_trans {k'' : Kernel} (hs : SameSched k k') (h : SchedActs k' as k'') :
    SchedActs k as k'' := by
  cases h with
  | done h1 => exact .done (hs.trans h1)
  | act h1 ha hrest => exact .act (hs.trans h1) ha hrest

/-- **`TERMINATED` is left only by `process_block`, by a creation's `scheduler_add_ready`, or by
    reusing the memory.** -/
theorem terminated (h : SchedActs k as k') {p : Addr} (hp : (k.proc p).state = .terminated)
    (hb : .block p ∉ as) (hr : .ready p ∉ as) (hf : .fresh p ∉ as) :
    (k'.proc p).state = .terminated := by
  induction h with
  | done hs => exact (hs.state p).trans hp
  | act hs ha _ ih =>
      refine ih ?_ (fun h => hb (.tail _ h)) (fun h => hr (.tail _ h)) (fun h => hf (.tail _ h))
      have hp' := (hs.state p).trans hp
      rcases ha.spec.state p with h | ⟨rfl, -⟩ | ⟨-, h, -⟩ | ⟨-, h⟩ | ⟨rfl | rfl, -⟩
      · exact h.trans hp'
      · exact absurd (List.mem_cons_self) hb
      · exact absurd (hp'.symm.trans h) (by decide)
      · exact h
      · exact absurd (List.mem_cons_self) hr
      · exact absurd (List.mem_cons_self) hf

/-- A `RUNNING` process stays so, unless it is blocked, ended, readied or its memory reused. -/
theorem running (h : SchedActs k as k') {p : Addr} (hp : (k.proc p).state = .running)
    (hb : .block p ∉ as) (he : .exit p ∉ as) (hr : .ready p ∉ as) (hf : .fresh p ∉ as) :
    (k'.proc p).state = .running := by
  induction h with
  | done hs => exact (hs.state p).trans hp
  | act hs ha _ ih =>
      refine ih ?_ (fun h => hb (.tail _ h)) (fun h => he (.tail _ h)) (fun h => hr (.tail _ h))
        (fun h => hf (.tail _ h))
      have hp' := (hs.state p).trans hp
      rcases ha.spec.state p with h | ⟨rfl, -⟩ | ⟨-, h, -⟩ | ⟨rfl, -⟩ | ⟨rfl | rfl, -⟩
      · exact h.trans hp'
      · exact absurd List.mem_cons_self hb
      · exact absurd (hp'.symm.trans h) (by decide)
      · exact absurd List.mem_cons_self he
      · exact absurd List.mem_cons_self hr
      · exact absurd List.mem_cons_self hf

/-- **`BLOCKED` is entered only by `process_block`.** -/
theorem blocked (h : SchedActs k as k') {p : Addr} (hp : (k'.proc p).state = .blocked) :
    (k.proc p).state = .blocked ∨ .block p ∈ as := by
  induction h with
  | done hs => exact .inl ((hs.state p).symm.trans hp)
  | act hs ha _ ih =>
      rcases ih hp with hp | hm
      · rcases ha.spec.state p with h | ⟨rfl, -⟩ | ⟨-, -, h⟩ | ⟨-, h⟩ | ⟨-, h⟩
        · exact .inl ((hs.state p).symm.trans (h.symm.trans hp))
        · exact .inr List.mem_cons_self
        all_goals exact absurd (h.symm.trans hp) (by decide)
      · exact .inr (.tail _ hm)

/-- **`TERMINATED` is entered only by `process_exit`.** -/
theorem terminated_before (h : SchedActs k as k') {p : Addr}
    (hp : (k'.proc p).state = .terminated) : (k.proc p).state = .terminated ∨ .exit p ∈ as := by
  induction h with
  | done hs => exact .inl ((hs.state p).symm.trans hp)
  | act hs ha _ ih =>
      rcases ih hp with hp | hm
      · rcases ha.spec.state p with h | ⟨-, h⟩ | ⟨-, -, h⟩ | ⟨rfl, -⟩ | ⟨-, h⟩
        · exact .inl ((hs.state p).symm.trans (h.symm.trans hp))
        · exact absurd (h.symm.trans hp) (by decide)
        · exact absurd (h.symm.trans hp) (by decide)
        · exact .inr List.mem_cons_self
        · exact absurd (h.symm.trans hp) (by decide)
      · exact .inr (.tail _ hm)

/-- **`BLOCKED` is left** by `process_unblock`, `process_exit`, by the end of a creation, or by reusing
    the memory. -/
theorem left_blocked (h : SchedActs k as k') {p : Addr} (hp : (k.proc p).state = .blocked)
    (hp' : (k'.proc p).state ≠ .blocked) :
    .unblock p ∈ as ∨ .exit p ∈ as ∨ .ready p ∈ as ∨ .fresh p ∈ as := by
  induction h with
  | done hs => exact absurd ((hs.state p).trans hp) hp'
  | act hs ha _ ih =>
      have hmid := (hs.state p).trans hp
      rcases ha.spec.state p with h | ⟨rfl, h⟩ | ⟨rfl, -, -⟩ | ⟨rfl, -⟩ | ⟨rfl | rfl, -⟩
      · rcases ih (h.trans hmid) hp' with h | h | h | h
        · exact .inl (.tail _ h)
        · exact .inr (.inl (.tail _ h))
        · exact .inr (.inr (.inl (.tail _ h)))
        · exact .inr (.inr (.inr (.tail _ h)))
      · rcases ih h hp' with h | h | h | h
        · exact .inl (.tail _ h)
        · exact .inr (.inl (.tail _ h))
        · exact .inr (.inr (.inl (.tail _ h)))
        · exact .inr (.inr (.inr (.tail _ h)))
      · exact .inl List.mem_cons_self
      · exact .inr (.inl List.mem_cons_self)
      · exact .inr (.inr (.inl List.mem_cons_self))
      · exact .inr (.inr (.inr List.mem_cons_self))

/-- Saved stack pointers change only where a process object is made. -/
theorem rsp (h : SchedActs k as k') (p : Addr) : (k'.proc p).rsp = (k.proc p).rsp ∨
    .fresh p ∈ as ∧ ((k'.proc p).rsp = p ∨ (k'.proc p).rsp = 0) := by
  induction h with
  | done hs => exact .inl (hs.rsp p)
  | act hs ha _ ih =>
      rcases ih with ih | ⟨hm, hp⟩
      · rcases ha.spec.rsp p with h | ⟨rfl, h⟩
        · exact .inl (ih.trans (h.trans (hs.rsp p)))
        · exact .inr ⟨List.mem_cons_self, by rw [ih]; exact h⟩
      · exact .inr ⟨.tail _ hm, hp⟩

/-- A process enters a ready queue by `scheduler_add_ready`, by being unblocked, or by a change of
    its priority. -/
theorem queued (h : SchedActs k as k') {p : Addr} (hq : Queued k' p) :
    Queued k p ∨ .ready p ∈ as ∨ .unblock p ∈ as ∨ ∃ pid n, .setPriority pid n ∈ as := by
  induction h with
  | done hs => exact .inl ((hs.queued p).mp hq)
  | act hs ha _ ih =>
      rcases ih hq with hq | hm | hm | ⟨pid, n, hm⟩
      · rcases ha.spec.queued p hq with hq | rfl | ⟨rfl, -⟩ | ⟨pid, n, rfl, -⟩
        · exact .inl ((hs.queued p).mp hq)
        · exact .inr (.inl List.mem_cons_self)
        · exact .inr (.inr (.inl List.mem_cons_self))
        · exact .inr (.inr (.inr ⟨pid, n, List.mem_cons_self⟩))
      · exact .inr (.inl (.tail _ hm))
      · exact .inr (.inr (.inl (.tail _ hm)))
      · exact .inr (.inr (.inr ⟨pid, n, .tail _ hm⟩))

/-- Placement is kept, where no process object is made. -/
theorem placed (h : SchedActs k as k') (hpl : Placed k) (hf : ∀ p, .fresh p ∉ as) : Placed k' := by
  induction h with
  | done hs => exact hs.placed hpl
  | @act k k1 k2 k' a as hs ha _ ih =>
      refine ih ?_ fun q hq => hf q (.tail _ hq)
      have hpl1 := hs.placed hpl
      cases a with
      | block p => exact ha ▸ processBlock_placed hpl1 p
      | unblock p => exact ha ▸ processUnblock_placed hpl1 p
      | exit p => exact ha ▸ exitFirstHalf_placed hpl1 p
      | ready p => exact ha ▸ schedulerAddReady_placed hpl1 p
      | setPriority pid n => exact ha ▸ schedulerSetProcessPriority_placed hpl1 pid n
      | fresh p => exact absurd List.mem_cons_self (hf p)

end SchedActs

/-- Making a process object where nobody was queued or current keeps the placement. -/
theorem SchedAct.Step.placed_fresh {k k' : Kernel} {p : Addr} (h : (SchedAct.fresh p).Step k k')
    (hpl : Placed k) (hq : ∀ i, p ∉ entries k i) : Placed k' := by
  obtain ⟨-, -, hs, -, hother, hready, hcur, hidle, -⟩ := h
  have hent : ∀ i, entries k' i = entries k i := fun i => by
    unfold entries
    rw [hready]
  refine ⟨fun i q hm hne => ?_, fun i q hne => ?_, fun q hr => ?_⟩
  · rw [hent i] at hm
    have hqp : q ≠ p := by
      rintro rfl
      exact hq i hm
    rw [hother q hqp]
    exact hpl.entry i q hm (hidle ▸ hne)
  · rw [hent i]
    exact hpl.once i q (hidle ▸ hne)
  · have hqp : q ≠ p := by
      rintro rfl
      exact absurd (hs.symm.trans hr) (by decide)
    rw [hcur]
    exact hpl.running q (hother q hqp ▸ hr)

/-! ## Semaphores -/

/-- The waiter `sem_post` wakes: the first that is `BLOCKED`. -/
def firstBlocked (k : Kernel) (waiting : List Addr) : Option Addr :=
  waiting.find? (fun p => decide ((k.proc p).state = .blocked))

/-- The waiters `sem_post` leaves: those behind the one it wakes. -/
def afterFirstBlocked (k : Kernel) : List Addr → List Addr
  | [] => []
  | p :: rest => if (k.proc p).state = .blocked then rest else afterFirstBlocked k rest

theorem processUnblock_fst (k : Kernel) (p : Addr) :
    (processUnblock k p).1 = decide ((k.proc p).state = .blocked) := by
  unfold processUnblock
  split
  · next h => exact (decide_eq_false h).symm
  · next h => exact (decide_eq_true (not_not.mp h)).symm

/-- **The loop of `sem_post`** wakes the first `BLOCKED` waiter and drops those before it. -/
theorem wakeOne_eq (k : Kernel) (waiting : List Addr) :
    wakeOne k waiting =
      match firstBlocked k waiting with
      | some w => (true, afterFirstBlocked k waiting, schedulerAddReady k w)
      | none => (false, [], k) := by
  induction waiting with
  | nil => rfl
  | cons p rest ih =>
      unfold wakeOne firstBlocked afterFirstBlocked
      rw [processUnblock_fst, List.find?_cons]
      by_cases hb : (k.proc p).state = .blocked
      · simp only [hb, decide_true, if_true]
        simp [processUnblock, hb]
      · simp only [hb, decide_false, if_false, Bool.false_eq_true]
        exact ih

end TpSo
