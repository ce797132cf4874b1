import Mathlib.Data.Nat.Basic
import Mathlib.Order.Basic
import TpSo.Library.Run
import TpSo.Scheduler.Ops

set_option autoImplicit false

/-! # Priorities and quanta within their bounds

Usage, a fixed level and aging all write `priority`, and two of the three places that set the level of
a shell keep it at `SHELL_PRIORITY_THRESHOLD` or above: `scheduler_set_process_priority` refuses, and
`scheduler_add_ready` caps what usage gives, but it takes a fixed level as it is. `init` makes its
shell in two steps, `createProcess` and then `is_shell = 1`, with interrupts enabled between them.

To the operations of the scheduler these two steps are added, and to its state which processes have
been made ready since they were created. -/

namespace TpSo

/-- The scheduler, the processes that `scheduler_add_ready` was called for since their creation, and
    the process that `init` has created and not marked as its shell yet. -/
structure LevelState where
  sched : SchedState
  readied : Addr → Bool
  launching : Option Addr

/-- One operation. -/
inductive LevelOp
  | sched (op : SchedOp)
  /-- `createProcess` as `init` calls it for a shell. -/
  | launch (args : CreateArgs) (rsp : Nat)
  /-- `shell->is_shell = 1`. -/
  | markShell

/-- The operation calls `scheduler_add_ready` for `p`. -/
def SchedState.readies (s : SchedState) : SchedOp → Addr → Bool
  | .create _ _ _, p => decide (allocatePid s.k ≠ 0 ∧ (s.k.memAlloc .process).1 = some p)
  | .addReady q, p => decide (p = q ∧ s.k.live q = some .process)
  | .unblock q, p =>
    decide (p = q ∧ s.k.live q = some .process ∧ (s.k.proc q).state = .blocked)
  | .yield _, p =>
    decide (s.k.current = some p ∧ s.k.idle ≠ some p ∧ (s.k.proc p).state = .running)
  | .tick _, p =>
    decide (s.k.current = some p ∧ s.k.idle ≠ some p ∧ (s.k.proc p).state = .running ∧
      (s.k.proc p).remainingQuantum = 0)
  | _, _ => false

/-- `createProcess` up to the process table. -/
def launch (s : LevelState) (args : CreateArgs) (rsp : Nat) : LevelState :=
  if allocatePid s.sched.k = 0 then s
  else
    match s.sched.k.memAlloc .process with
    | (none, k) => { s with sched := { s.sched with k := k } }
    | (some p, k) =>
      let k := k.modProc p (fun _ => { newProcess (allocatePid s.sched.k) args with rsp := rsp })
      { sched := { k := (processRegister k p).2, saved := Function.update s.sched.saved p rsp }
        readied := Function.update s.readied p false
        launching := some p }

/-- Apply an operation. -/
def LevelState.step (s : LevelState) : LevelOp → Option LevelState
  | .sched op =>
    some { s with sched := s.sched.apply op, readied := fun p => s.readied p || s.sched.readies op p }
  | .launch args rsp => some (launch s args rsp)
  | .markShell =>
    s.launching.map fun p =>
      { s with sched.k := s.sched.k.modProc p Process.markShell, launching := none }

/-- The state after boot: `init` has been made ready. -/
def LevelState.boot (memAnswers : Nat → Option Addr) : LevelState where
  sched := .boot memAnswers
  readied p := decide (p = Boot.init)
  launching := none

/-! ## The bounds of one process -/

/-- The bounds of a process; `readied` says that it has been made ready. -/
structure Level (isIdle readied : Prop) (p : Process) : Prop where
  bounded : isIdle ∨ readied ∨ p.priorityFixed → p.priority ≤ SCHEDULER_MIN_PRIORITY
  fixed : p.priorityFixed →
    p.priority ≤ p.priorityRequested ∧ p.priorityRequested ≤ SCHEDULER_MIN_PRIORITY
  shell : p.isShell → p.priorityFixed ∨ readied → p.priority ≤ SHELL_PRIORITY_THRESHOLD
  shellFixed : p.isShell → p.priorityFixed → p.priorityRequested ≤ SHELL_PRIORITY_THRESHOLD
  quantum : p.remainingQuantum ≤ SCHEDULER_DEFAULT_QUANTUM
  idle : isIdle → p.priorityFixed = false ∧ p.isShell = false

namespace Level

variable {isIdle readied : Prop} {p p' : Process}

/-- Lowering the level, and any change of the other fields. -/
theorem lower (h : Level isIdle readied p) (hp : p'.priority ≤ p.priority)
    (hr : p'.priorityRequested = p.priorityRequested) (hf : p'.priorityFixed = p.priorityFixed)
    (hs : p'.isShell = p.isShell) (hq : p'.remainingQuantum ≤ SCHEDULER_DEFAULT_QUANTUM) :
    Level isIdle readied p' where
  bounded hb := hp.trans (h.bounded (hf ▸ hb))
  fixed hfix := by
    rw [hr]
    exact ⟨hp.trans (h.fixed (hf ▸ hfix)).1, (h.fixed (hf ▸ hfix)).2⟩
  shell hsh hb := hp.trans (h.shell (hs ▸ hsh) (hf ▸ hb))
  shellFixed hsh hfix := by
    rw [hr]
    exact h.shellFixed (hs ▸ hsh) (hf ▸ hfix)
  quantum := hq
  idle hi := by
    rw [hf, hs]
    exact h.idle hi

/-- Fewer processes are known to have been made ready. -/
theorem forget {readied' : Prop} (h : Level isIdle readied p) (hr : readied' → readied) :
    Level isIdle readied' p where
  bounded hb := h.bounded (hb.imp_right (Or.imp_left hr))
  fixed := h.fixed
  shell hs hb := h.shell hs (hb.imp_right hr)
  shellFixed := h.shellFixed
  quantum := h.quantum
  idle := h.idle

/-- `scheduler_age_ready` promotes by one level. -/
theorem promote (h : Level isIdle readied p) (ticks : Nat) :
    Level isIdle readied
      { p with priority := shellFloor p (p.priority - 1), readySinceTick := ticks } := by
  refine h.lower ?_ rfl rfl rfl h.quantum
  show shellFloor p (p.priority - 1) ≤ p.priority
  unfold shellFloor
  split
  · simp [SCHEDULER_MAX_PRIORITY]
  · omega

theorem chargeTick (h : Level isIdle readied p) : Level isIdle readied (chargeTick p) :=
  h.lower le_rfl rfl rfl rfl ((Nat.sub_le _ 1).trans h.quantum)

end Level

/-- Usage gives one of the levels. -/
theorem priorityFromUsage_le (ticksUsed : Nat) :
    priorityFromUsage ticksUsed ≤ SCHEDULER_MIN_PRIORITY := by
  unfold priorityFromUsage
  dsimp only
  split
  · next i hi =>
    have hmem := List.mem_range.mp (List.mem_of_find?_eq_some hi)
    simp only [SCHEDULER_PRIORITY_LEVELS, SCHEDULER_MAX_PRIORITY, SCHEDULER_MIN_PRIORITY] at *
    omega
  · decide

/-- **`scheduler_add_ready`** brings a process within its bounds. -/
theorem Level.readyFields {k : Kernel} {a : Addr} {readied : Prop} {p : Process}
    (h : Level (k.idle = some a) readied p) : Level (k.idle = some a) True (readyFields k a p) := by
  by_cases hidle : k.idle = some a
  · -- the level of `idle` is left alone
    have hlevel : (TpSo.readyFields k a p).priority = p.priority := if_pos hidle.symm
    have hbound := h.bounded (.inl hidle)
    obtain ⟨hnotFixed, hnotShell⟩ := h.idle hidle
    refine ⟨fun _ => hlevel.le.trans hbound, fun hf => ?_, fun hs => ?_, fun hs => ?_, le_rfl,
      fun _ => ⟨hnotFixed, hnotShell⟩⟩
    · exact absurd (hnotFixed.symm.trans hf) (by decide)
    · exact absurd (hnotShell.symm.trans hs) (by decide)
    · exact absurd (hnotShell.symm.trans hs) (by decide)
  · have hne : ¬ some a = k.idle := fun he => hidle he.symm
    cases hfix : p.priorityFixed with
    | true =>
      have hlevel : (TpSo.readyFields k a p).priority = p.priorityRequested := by
        simp only [TpSo.readyFields, if_neg hne, hfix, if_true]
      obtain ⟨-, hrequested⟩ := h.fixed hfix
      refine ⟨fun _ => hlevel.le.trans hrequested, fun _ => ⟨hlevel.le, hrequested⟩,
        fun hs _ => hlevel.le.trans (h.shellFixed hs hfix), fun hs _ => h.shellFixed hs hfix, le_rfl,
        fun hi => absurd hi hidle⟩
    | false =>
      have husage := priorityFromUsage_le p.lastQuantumTicks
      have hlevel : (TpSo.readyFields k a p).priority =
          if p.isShell ∧ priorityFromUsage p.lastQuantumTicks > SHELL_PRIORITY_THRESHOLD then
            SHELL_PRIORITY_THRESHOLD else priorityFromUsage p.lastQuantumTicks := by
        simp only [TpSo.readyFields, if_neg hne, hfix, Bool.false_eq_true, if_false]
      refine ⟨fun _ => ?_, fun hf => ?_, fun hs _ => ?_, fun _ hf => ?_, le_rfl,
        fun hi => absurd hi hidle⟩
      · rw [hlevel]
        split
        · decide
        · exact husage
      · exact absurd (hfix.symm.trans hf) (by decide)
      · rw [hlevel]
        split
        · exact le_rfl
        · next hcap =>
          have hshell : p.isShell = true := hs
          simpa [hshell] using hcap
      · exact absurd (hfix.symm.trans hf) (by decide)

/-- **`scheduler_set_process_priority`** stores a level within the bounds, its own checks made. -/
theorem Level.priorityFields {isIdle readied : Prop} {p : Process} {priority : Nat}
    (h : Level isIdle readied p) (hle : priority ≤ SCHEDULER_MIN_PRIORITY) (hidle : ¬ isIdle)
    (hshell : p.isShell → priority ≤ SHELL_PRIORITY_THRESHOLD) :
    Level isIdle readied (priorityFields priority p) := by
  have hlevel : shellFloor p priority = priority := by
    unfold shellFloor
    split
    · next hlow => exact absurd hlow.2 (Nat.not_lt_zero _)
    · rfl
  refine ⟨fun _ => ?_, fun _ => ⟨le_rfl, ?_⟩, fun hs _ => ?_, fun hs _ => ?_, h.quantum,
    fun hi => absurd hi hidle⟩
  · exact hlevel.le.trans hle
  · exact hlevel.le.trans hle
  · exact hlevel.le.trans (hshell hs)
  · exact hlevel.le.trans (hshell hs)

/-! ## The bounds of all processes -/

/-- Every process is within its bounds. -/
def Levels (idle : Option Addr) (readied : Addr → Bool) (proc : Addr → Process) : Prop :=
  ∀ p, Level (idle = some p) (readied p = true) (proc p)

namespace Levels

variable {idle : Option Addr} {readied readied' : Addr → Bool} {k k' : Kernel}

theorem modProc (h : Levels idle readied k.proc) (p : Addr) (f : Process → Process)
    (hf : Level (idle = some p) (readied p = true) (k.proc p) →
      Level (idle = some p) (readied p = true) (f (k.proc p))) :
    Levels idle readied (k.modProc p f).proc := by
  intro q
  by_cases hq : q = p
  · subst hq
    simp only [Kernel.modProc, Function.update_self]
    exact hf (h q)
  · simp only [Kernel.modProc, Function.update_of_ne hq]
    exact h q

theorem same (h : Levels idle readied k.proc) (hs : SameButQueues k k') :
    Levels idle readied k'.proc := by
  rw [hs.proc]
  exact h

/-- Writing neither a level nor `is_shell`, nor a larger quantum. -/
theorem modRest (h : Levels idle readied k.proc) (p : Addr) (f : Process → Process)
    (hp : (f (k.proc p)).priority = (k.proc p).priority)
    (hr : (f (k.proc p)).priorityRequested = (k.proc p).priorityRequested)
    (hf : (f (k.proc p)).priorityFixed = (k.proc p).priorityFixed)
    (hs : (f (k.proc p)).isShell = (k.proc p).isShell)
    (hq : (f (k.proc p)).remainingQuantum ≤ SCHEDULER_DEFAULT_QUANTUM) :
    Levels idle readied (k.modProc p f).proc :=
  h.modProc p f fun hl => hl.lower hp.le hr hf hs hq

theorem setState (h : Levels idle readied k.proc) (p : Addr) (state : ProcessState) :
    Levels idle readied (k.setState p state).proc :=
  h.modRest p _ rfl rfl rfl rfl (h p).quantum

theorem forget (h : Levels idle readied k.proc) (hr : ∀ p, readied' p = true → readied p = true) :
    Levels idle readied' k.proc := fun p => (h p).forget (hr p)

/-- **`scheduler_add_ready`**: its process is known to have been made ready, whether or not it had
    been before. -/
theorem schedulerAddReady (h : Levels k.idle readied k.proc) (p : Addr)
    (hr : ∀ q, readied' q = true → readied q = true ∨ q = p) :
    Levels k.idle readied' (schedulerAddReady k p).proc := by
  intro q
  rw [schedulerAddReady_proc]
  by_cases hq : q = p
  · subst hq
    rw [Function.update_self]
    exact (h q).readyFields.forget fun _ => trivial
  · rw [Function.update_of_ne hq]
    exact (h q).forget fun hq' => (hr q hq').resolve_right hq

/-! ## A tick -/

theorem ageLevel (priority : Nat) :
    ∀ (items : Nat) (k : Kernel), Levels idle readied k.proc →
      Levels idle readied (ageLevel k priority items).proc := by
  intro items
  induction items with
  | zero => exact fun k h => h
  | succ items ih =>
    intro k h
    unfold TpSo.ageLevel
    rcases queuePop_cases (k.readyQueues (priorityIndex priority)) with ⟨hp, -, -⟩ | ⟨p, rest, hq, hp⟩
    · rw [show queuePop (k.readyQueues (priorityIndex priority)) = (none, _) from Prod.ext hp rfl]
      exact h
    · rw [hp]
      dsimp only
      have hpopped : Levels idle readied (k.setReady (priorityIndex priority) (some rest)).proc := h
      split
      · have hpromoted : Levels idle readied
            (agePromote (k.setReady (priorityIndex priority) (some rest)) p).proc :=
          hpopped.modProc p _ fun hl => hl.promote _
        exact ih _ (hpromoted.same (pushReady_same _ _ _))
      · apply ih
        rw [queuePush_kernel]
        exact hpopped

theorem schedulerAgeReady (h : Levels idle readied k.proc) :
    Levels idle readied (schedulerAgeReady k).proc := by
  unfold TpSo.schedulerAgeReady
  refine List.foldlRecOn (motive := fun k : Kernel => Levels idle readied k.proc)
    [1, 2, 3, 4, 5] _ h fun k hk priority _ => ?_
  exact ageLevel _ _ _ (hk.same (queueForPriority_same k priority))

theorem tickRunning (h : Levels k.idle readied k.proc) (rsp : Nat)
    (hr : ∀ p, readied' p = true → readied p = true ∨ k.current = some p ∧ k.idle ≠ some p ∧
      (k.proc p).state = .running ∧ (k.proc p).remainingQuantum = 0) :
    Levels k.idle readied' (tickRunning k rsp).2.proc := by
  unfold TpSo.tickRunning
  cases hc : k.current with
  | none =>
    refine h.forget fun p hp => (hr p hp).resolve_right ?_
    rintro ⟨hcp, -⟩
    cases hc.symm.trans hcp
  | some c =>
    dsimp only
    have hsaved : Levels k.idle readied (k.modProc c fun p => { p with rsp := rsp }).proc :=
      h.modRest c _ rfl rfl rfl rfl (h c).quantum
    have hproc : (k.modProc c fun p => { p with rsp := rsp }).proc c = { k.proc c with rsp := rsp } :=
      Function.update_self ..
    have hidle : (k.modProc c fun p => { p with rsp := rsp }).idle = k.idle := rfl
    -- nobody is made ready in a branch that does not requeue the current process
    have hother : ¬ (k.idle ≠ some c ∧ (k.proc c).state = .running ∧
        (k.proc c).remainingQuantum = 0) → ∀ p, readied' p = true → readied p = true := by
      intro hnot p hp
      refine (hr p hp).resolve_right ?_
      rintro ⟨hcp, hrest⟩
      cases hc.symm.trans hcp
      exact hnot hrest
    split
    · next hci =>
      refine Levels.forget ?_ (hother fun hn => hn.1 (hci.symm ▸ rfl))
      exact hsaved.setState c .ready
    · split
      · next hrunning =>
        rw [hproc] at hrunning
        exact hsaved.forget (hother fun hn => hrunning hn.2.1)
      · split
        · next hquantum =>
          rw [hproc] at hquantum
          refine Levels.forget ?_ (hother fun hn => absurd hn.2.2 (Nat.ne_of_gt hquantum))
          exact hsaved.modProc c _ fun hl => hl.chargeTick
        · refine Levels.schedulerAddReady (k := k.modProc c fun p => { p with rsp := rsp }) hsaved c ?_
          exact fun p hp => (hr p hp).imp_right fun hn => Option.some.inj (hn.1.symm.trans hc)

theorem processSetRunning (h : Levels idle readied k.proc) (p : Option Addr) :
    Levels idle readied (processSetRunning k p).proc := by
  unfold TpSo.processSetRunning
  split <;> exact h

theorem dispatch (h : Levels idle readied k.proc) (next : Addr) :
    Levels idle readied (dispatch k next).proc :=
  h.modRest (k := { k with current := some next }) next
    (fun p => { p with
      state := .running, remainingQuantum := SCHEDULER_DEFAULT_QUANTUM - 1, lastQuantumTicks := 1 })
    rfl rfl rfl rfl (Nat.sub_le _ 1)

theorem dispatchIdle (h : Levels idle readied k.proc) (rsp : Nat) :
    Levels idle readied (dispatchIdle k rsp).2.proc := by
  unfold TpSo.dispatchIdle
  split
  · exact h
  · next d _ =>
    exact h.modRest d (fun p => { p with rsp := rsp, state := .running }) rfl rfl rfl rfl (h d).quantum

/-- **A tick** keeps all processes within their bounds. -/
theorem scheduleTick (h : Levels k.idle readied k.proc) (rsp : Nat)
    (hr : ∀ p, readied' p = true → readied p = true ∨ k.current = some p ∧ k.idle ≠ some p ∧
      (k.proc p).state = .running ∧ (k.proc p).remainingQuantum = 0) :
    Levels k.idle readied' (scheduleTick k rsp).2.proc := by
  have hleft : Levels k.idle readied' (TpSo.tickRunning (countTick k) rsp).2.proc :=
    Levels.tickRunning (k := countTick k) h rsp hr
  unfold TpSo.scheduleTick
  dsimp only
  split
  · have hpicked : Levels k.idle readied'
        (pickNext (TpSo.schedulerAgeReady (TpSo.tickRunning (countTick k) rsp).2) levels).2.proc :=
      hleft.schedulerAgeReady.same (pickNext_spec levels _).1
    split
    · exact hpicked.dispatch _
    · exact hpicked.dispatchIdle rsp
  · exact hleft.processSetRunning _

/-! ## The other operations -/

theorem leave (h : Levels idle readied k.proc) (p : Addr) (state : ProcessState) :
    Levels idle readied ((leaveReady k p).setState p state).proc :=
  (h.same (leaveReady_same k p)).setState p state

theorem processBlock (h : Levels idle readied k.proc) (p : Addr) :
    Levels idle readied (processBlock k p).2.proc := by
  rw [processBlock_eq]
  split
  · exact h
  · exact h.leave p .blocked

theorem exitFirstHalf (h : Levels idle readied k.proc) (p : Addr) :
    Levels idle readied (exitFirstHalf k p).2.proc := by
  have hleft := h.leave p .terminated
  rw [exitFirstHalf_eq, passForeground_eq]
  intro q
  rw [(adoptOrphanChildren_family _ p).proc q]
  exact (hleft q).lower le_rfl rfl rfl rfl (hleft q).quantum

/-- **`scheduler_set_process_priority`** makes its checks before it stores a level. -/
theorem schedulerSetProcessPriority (h : Levels k.idle readied k.proc) (pid priority : Nat) :
    Levels k.idle readied (schedulerSetProcessPriority k pid priority).2.proc := by
  unfold TpSo.schedulerSetProcessPriority
  split
  · exact h
  · next hmin =>
    split
    · exact h
    · next process _ =>
      split
      · exact h
      · split
        · exact h
        · next hidle =>
          split
          · exact h
          · next hshell =>
            dsimp only
            split
            · have hqueue := h.same (queueForPriority_same k (k.proc process).priority)
              exact hqueue
            · next k' hpurged =>
              have hsame : SameButQueues k k' := by
                split at hpurged
                · exact (purgeLevel_spec hpurged).1
                · cases hpurged
                  exact .refl k
              have hlevel : Levels k.idle readied k'.proc := h.same hsame
              -- the three refusals of the source are what the new level has to satisfy
              have hstored : Levels k.idle readied
                  (k'.modProc process (priorityFields priority)).proc := by
                refine hlevel.modProc process _ fun hl => ?_
                refine hl.priorityFields (Nat.le_of_not_lt hmin) (fun hi => hidle hi.symm) ?_
                intro hs
                rw [hsame.proc] at hs
                exact Nat.le_of_not_lt fun hlow => hshell ⟨hs, hlow⟩
              unfold storePriority
              have hmoved : Levels k.idle readied (enqueueMoved
                  (k'.modProc process (priorityFields priority)) process
                  (k.proc process).priority).proc := by
                unfold enqueueMoved
                split
                · exact hstored.same (pushReady_same _ _ _)
                · exact hstored
              unfold refreshQuantum
              split
              · exact hmoved.modRest process
                  (fun p => { p with remainingQuantum := SCHEDULER_DEFAULT_QUANTUM })
                  rfl rfl rfl rfl le_rfl
              · exact hmoved

/-- A new process is within its bounds whatever level it was created with: it is not ready yet. -/
theorem register (h : Levels idle readied k.proc) {p : Addr} (hp : idle ≠ some p) (pid : Nat)
    (args : CreateArgs) (isShell : Bool) (rsp : Nat) :
    Levels idle (Function.update readied p false) (processRegister ((k.grant p .process).modProc p
      (fun _ => { newProcess pid args with isShell := isShell, rsp := rsp })) p).2.proc := by
  rw [processRegister_kernel]
  intro q
  by_cases hq : q = p
  · subst hq
    simp only [Kernel.modProc, Function.update_self]
    refine ⟨fun hb => ?_, fun hf => Bool.noConfusion hf, fun _ hb => ?_, fun _ hf => Bool.noConfusion hf,
      le_rfl, fun hi => absurd hi hp⟩
    · rcases hb with hi | hr | hf
      · exact absurd hi hp
      · cases hr
      · cases hf
    · rcases hb with hf | hr
      · cases hf
      · cases hr
  · simp only [Kernel.modProc, Function.update_of_ne hq]
    exact h q

/-- And `scheduler_add_ready` follows. -/
theorem registerReady (h : Levels k.idle readied k.proc) {p : Addr} (hp : k.idle ≠ some p) {pid : Nat}
    {args : CreateArgs} {isShell : Bool} {rsp : Nat}
    (hr : ∀ q, readied' q = true → readied q = true ∨ q = p) :
    Levels k.idle readied' (TpSo.schedulerAddReady (processRegister ((k.grant p .process).modProc p
      (fun _ => { newProcess pid args with isShell := isShell, rsp := rsp })) p).2 p).proc := by
  have hregistered := h.register hp pid args isShell rsp
  set k1 := (processRegister ((k.grant p .process).modProc p
    (fun _ => { newProcess pid args with isShell := isShell, rsp := rsp })) p).2 with hk1
  have hidle : k1.idle = k.idle := by
    rw [hk1, processRegister_kernel]
    rfl
  rw [← hidle] at hregistered ⊢
  refine hregistered.schedulerAddReady p fun q hq => ?_
  by_cases hqp : q = p
  · exact .inr hqp
  · exact .inl ((Function.update_of_ne hqp false readied).trans ((hr q hq).resolve_right hqp))

end Levels

/-! ## Runs -/

/-- The bounds of all processes, and that the shell being made is not `idle`. -/
structure LevelInv (s : LevelState) : Prop where
  sched : SchedInv s.sched
  levels : Levels s.sched.k.idle s.readied s.sched.k.proc
  launching : ∀ p, s.launching = some p → p ≠ Boot.idle

/-- Memory that is not in use is not that of `idle`. -/
theorem SchedInv.ne_idle {s : SchedState} (h : SchedInv s) {p : Addr} (hfree : s.k.live p = none) :
    s.k.idle ≠ some p := by
  rw [h.idle]
  rintro ⟨⟩
  cases hfree.symm.trans h.idleLive

/-- When `is_shell` is set, the level of the process is one a shell may have. -/
def MarksInTime (s : LevelState) : LevelOp → Prop
  | .markShell => ∀ p, s.launching = some p →
    (s.sched.k.proc p).priority ≤ SHELL_PRIORITY_THRESHOLD ∧
    ((s.sched.k.proc p).priorityFixed →
      (s.sched.k.proc p).priorityRequested ≤ SHELL_PRIORITY_THRESHOLD)
  | _ => True

/-- The operations of the scheduler keep the bounds. -/
theorem LevelInv.sched_step {s : LevelState} (h : LevelInv s) (op : SchedOp) :
    LevelInv { s with
      sched := s.sched.apply op, readied := fun p => s.readied p || s.sched.readies op p } := by
  have hsched := h.sched.apply op
  refine ⟨hsched, ?_, h.launching⟩
  show Levels (s.sched.apply op).k.idle _ (s.sched.apply op).k.proc
  rw [hsched.idle, ← h.sched.idle]
  have hlevels := h.levels
  set readied' : Addr → Bool := fun p => s.readied p || s.sched.readies op p with hr'
  have hcases : ∀ p, readied' p = true → s.readied p = true ∨ s.sched.readies op p = true := by
    intro p hp
    exact Bool.or_eq_true_iff.mp hp
  -- an operation that calls `scheduler_add_ready` for nobody
  have hquiet : (∀ p, s.sched.readies op p = false) → ∀ {k : Kernel},
      Levels s.sched.k.idle s.readied k.proc → Levels s.sched.k.idle readied' k.proc := by
    intro hnone k hk
    refine hk.forget fun p hp => (hcases p hp).resolve_right ?_
    simp [hnone p]
  cases op with
  | create isShell args rsp =>
    simp only [SchedState.apply, createReady]
    split
    · next hfull =>
      refine hquiet ?_ hlevels
      intro q
      simp [SchedState.readies, hfull]
    · next hpid =>
      rcases memAlloc_cases s.sched.k .process with hm | ⟨p, hfree, -, hm⟩
      · rw [hm]
        refine hquiet ?_ hlevels
        intro q
        simp [SchedState.readies, hm]
      · rw [hm]
        refine hlevels.registerReady (h.sched.ne_idle hfree) fun q hq => (hcases q hq).imp_right ?_
        intro hmade
        have hanswer := (of_decide_eq_true hmade).2
        rw [hm] at hanswer
        exact (Option.some.inj hanswer).symm
  | addReady p =>
    simp only [SchedState.apply, SchedState.onProcess]
    split
    · next hlive =>
      refine hlevels.schedulerAddReady p fun q hq => (hcases q hq).imp_right ?_
      intro hmade
      exact (of_decide_eq_true hmade).1
    · next hlive =>
      refine hquiet ?_ hlevels
      intro q
      simp [SchedState.readies, hlive]
  | removeReady p =>
    simp only [SchedState.apply, SchedState.onProcess]
    refine hquiet (fun _ => rfl) ?_
    split
    · exact hlevels.same (schedulerRemoveReady_same _ p)
    · exact hlevels
  | block p =>
    simp only [SchedState.apply, SchedState.onProcess]
    refine hquiet (fun _ => rfl) ?_
    split
    · exact hlevels.processBlock p
    · exact hlevels
  | unblock p =>
    simp only [SchedState.apply, SchedState.onProcess]
    split
    · next hlive =>
      simp only [processUnblock]
      split
      · next hblocked =>
        refine hquiet ?_ hlevels
        intro q
        simp [SchedState.readies, hblocked]
      · refine hlevels.schedulerAddReady p fun q hq => (hcases q hq).imp_right ?_
        intro hmade
        exact (of_decide_eq_true hmade).1
    · next hlive =>
      refine hquiet ?_ hlevels
      intro q
      simp [SchedState.readies, hlive]
  | exit p =>
    simp only [SchedState.apply, SchedState.onProcess]
    refine hquiet (fun _ => rfl) ?_
    split
    · exact hlevels.exitFirstHalf p
    · exact hlevels
  | setPriority pid priority =>
    exact hquiet (fun _ => rfl) (hlevels.schedulerSetProcessPriority pid priority)
  | yield rsp =>
    simp only [SchedState.apply]
    cases hc : s.sched.k.current with
    | none =>
      refine hquiet ?_ hlevels
      intro q
      simp [SchedState.readies, hc]
    | some c =>
      have hended : Levels s.sched.k.idle s.readied (s.sched.k.modProc c Process.endQuantum).proc :=
        hlevels.modRest c _ rfl rfl rfl rfl (Nat.zero_le _)
      refine Levels.scheduleTick (k := s.sched.k.modProc c Process.endQuantum) hended rsp ?_
      intro q hq
      refine (hcases q hq).imp_right fun hmade => ?_
      obtain ⟨hcurrent, hidle, hrunning⟩ := of_decide_eq_true hmade
      cases hc.symm.trans hcurrent
      refine ⟨hcurrent, hidle, ?_, ?_⟩
      · simp only [Kernel.modProc, Function.update_self, Process.endQuantum]
        exact hrunning
      · simp only [Kernel.modProc, Function.update_self, Process.endQuantum]
  | tick rsp =>
    refine hlevels.scheduleTick rsp ?_
    intro q hq
    exact (hcases q hq).imp_right of_decide_eq_true

theorem LevelInv.launch {s : LevelState} (h : LevelInv s) (args : CreateArgs) (rsp : Nat) :
    LevelInv (launch s args rsp) := by
  unfold TpSo.launch
  split
  · exact h
  · rcases memAlloc_cases s.sched.k .process with hm | ⟨p, hfree, -, hm⟩
    · rw [hm]
      exact ⟨{ h.sched with placed := h.sched.placed.congr rfl rfl rfl fun _ => rfl }, h.levels,
        h.launching⟩
    · rw [hm]
      have hidle := h.sched.ne_idle hfree
      have hsched := h.sched.register hfree
        { newProcess (allocatePid s.sched.k) args with rsp := rsp } nofun
      refine ⟨hsched, ?_, ?_⟩
      · have hlevels := h.levels.register hidle (allocatePid s.sched.k) args false rsp
        rw [h.sched.idle, ← hsched.idle] at hlevels
        exact hlevels
      · rintro q ⟨⟩ rfl
        exact hidle h.sched.idle

theorem LevelInv.markShell {s : LevelState} (h : LevelInv s) {p : Addr} (hp : s.launching = some p)
    (hguard : MarksInTime s .markShell) :
    LevelInv { s with
      sched.k := s.sched.k.modProc p Process.markShell, launching := none } := by
  obtain ⟨hlevel, hrequested⟩ := hguard p hp
  have hidle : s.sched.k.idle ≠ some p := by
    rw [h.sched.idle]
    intro hi
    exact h.launching p hp (Option.some.inj hi).symm
  refine ⟨?_, ?_, nofun⟩
  · exact h.sched.between (modProc_between _ p _ rfl rfl fun _ => False)
      rfl (h.sched.placed.modProc_same p _ rfl rfl) fun _ hf => hf.elim
  · refine h.levels.modProc p _ fun hl => ?_
    exact ⟨hl.bounded, hl.fixed, fun _ _ => hlevel, fun _ hf => hrequested hf, hl.quantum,
      fun hi => absurd hi hidle⟩

theorem LevelInv.boot (memAnswers : Nat → Option Addr) : LevelInv (LevelState.boot memAnswers) := by
  refine ⟨.boot memAnswers, ?_, fun _ hp => absurd hp (Option.some_ne_none _).symm⟩
  intro p
  show Level (some Boot.idle = some p) (decide (p = Boot.init) = true) ((Boot.kernel memAnswers).proc p)
  simp only [Boot.kernel]
  split
  · next hi =>
    refine ⟨fun _ => ?_, fun hf => Bool.noConfusion hf, fun hs => Bool.noConfusion hs,
      fun hs => Bool.noConfusion hs, ?_, fun _ => ⟨rfl, rfl⟩⟩
    · exact le_rfl
    · exact le_rfl
  · next hi =>
    have hidle : ¬ some Boot.idle = some p := by
      intro he
      exact hi (Option.some.inj he).symm
    split
    · exact ⟨fun _ => Nat.zero_le _, fun hf => Bool.noConfusion hf, fun hs => Bool.noConfusion hs,
        fun hs => Bool.noConfusion hs, le_rfl, fun he => absurd he hidle⟩
    · exact ⟨fun _ => Nat.zero_le _, fun hf => Bool.noConfusion hf, fun hs => Bool.noConfusion hs,
        fun hs => Bool.noConfusion hs, Nat.zero_le _, fun he => absurd he hidle⟩

/-- **Step lemma.** -/
theorem LevelInv.step {s s' : LevelState} (h : LevelInv s) {op : LevelOp} (hguard : MarksInTime s op)
    (hs : s.step op = some s') : LevelInv s' := by
  cases op with
  | sched op =>
    cases hs
    exact h.sched_step op
  | launch args rsp =>
    cases hs
    exact h.launch args rsp
  | markShell =>
    obtain ⟨p, hp, rfl⟩ := Option.map_eq_some_iff.mp hs
    exact h.markShell hp hguard

/-- **The bounds hold in every run** in which a shell is marked before another process has fixed its
    level too low: of every process that has been made ready, the priority is one of the levels, a
    fixed one is only ever bettered and is back after `scheduler_add_ready`, a shell is above its threshold,
    and the quantum never exceeds the default, so that the ticks used do not wrap around. -/
theorem levels_bounded {memAnswers : Nat → Option Addr} {ops : List LevelOp} {s : LevelState}
    (h : GuardedRun LevelState.step MarksInTime (LevelState.boot memAnswers) ops s) {p : Addr}
    (hp : s.readied p = true) :
    let process := s.sched.k.proc p
    let added := (schedulerAddReady s.sched.k p).proc p
    process.priority ≤ SCHEDULER_MIN_PRIORITY ∧
    (process.priorityFixed → process.priority ≤ process.priorityRequested ∧
      added.priority = added.priorityRequested) ∧
    (process.isShell → process.priority ≤ SHELL_PRIORITY_THRESHOLD) ∧
    process.remainingQuantum ≤ SCHEDULER_DEFAULT_QUANTUM ∧
    (chargeTick process).lastQuantumTicks =
      SCHEDULER_DEFAULT_QUANTUM - (chargeTick process).remainingQuantum := by
  have hinv : LevelInv s := by
    apply h.invariant LevelInv
    · intro s op s' hs hguard hstep
      exact hs.step hguard hstep
    · exact .boot memAnswers
  have hlevel := hinv.levels p
  refine ⟨hlevel.bounded (.inr (.inl hp)), fun hf => ⟨(hlevel.fixed hf).1, ?_⟩,
    fun hs => hlevel.shell hs (.inr hp), hlevel.quantum, ?_⟩
  · have hidle : ¬ some p = s.sched.k.idle := by
      intro hi
      cases (hlevel.idle hi.symm).1.symm.trans hf
    rw [schedulerAddReady_proc, Function.update_self]
    simp only [readyFields, if_neg hidle, hf, if_true]
  · have hquantum := hlevel.quantum
    simp only [chargeTick, SCHEDULER_DEFAULT_QUANTUM] at hquantum ⊢
    omega

/-! ## Two runs -/

/-- An allocator that hands out one address after the other. -/
def nextAddr (n : Nat) : Option Addr := some (KERNEL_BASE + 100 + n)

/-- The arguments of the processes below; the entry point is that of user code. -/
def userArgs : CreateArgs := { entryPoint := 0x400000 }

/-- `init` makes a second shell once the first has ended, and a user process fixes the level of its
    pid to `priority` in between. -/
def secondShell (priority : Nat) : List LevelOp :=
  [.sched (.create true userArgs 1), .sched (.create false userArgs 2), .sched (.tick 9),
    .sched (.exit (KERNEL_BASE + 100)), .launch userArgs 3, .sched (.setPriority 5 priority), .markShell,
    .sched (.addReady (KERNEL_BASE + 104)), .sched (.tick 1)]

set_option maxRecDepth 100000 in
theorem shell_below_threshold :
    ¬ ∀ (ops : List LevelOp) (s : LevelState) (p : Addr),
      GuardedRun LevelState.step (fun _ _ => True) (LevelState.boot nextAddr) ops s →
        s.readied p = true → (s.sched.k.proc p).isShell →
          (s.sched.k.proc p).priority ≤ SHELL_PRIORITY_THRESHOLD := by
  intro hall
  obtain ⟨s, hrun, hend⟩ := (Option.any_eq_true (fun s : LevelState =>
      s.readied (KERNEL_BASE + 104) && (s.sched.k.proc (KERNEL_BASE + 104)).isShell &&
        decide ((s.sched.k.proc (KERNEL_BASE + 104)).priority = 5))
    (GuardedRun.check LevelState.step (fun _ _ => True) (LevelState.boot nextAddr)
      (secondShell 5))).mp (by decide +kernel)
  simp only [Bool.and_eq_true, decide_eq_true_eq] at hend
  obtain ⟨⟨hreadied, hshell⟩, hpriority⟩ := hend
  have hle := hall _ s _ (.of_check hrun) hreadied hshell
  rw [hpriority] at hle
  exact absurd hle (by decide)

instance (s : LevelState) (op : LevelOp) : Decidable (MarksInTime s op) :=
  match op with
  | .sched _ => inferInstanceAs (Decidable True)
  | .launch _ _ => inferInstanceAs (Decidable True)
  | .markShell =>
    match hl : s.launching with
    | none => .isTrue fun p hp => by cases hl.symm.trans hp
    | some q =>
      decidable_of_iff ((s.sched.k.proc q).priority ≤ SHELL_PRIORITY_THRESHOLD ∧
          ((s.sched.k.proc q).priorityFixed →
            (s.sched.k.proc q).priorityRequested ≤ SHELL_PRIORITY_THRESHOLD))
        ⟨fun h p hp => by cases hl.symm.trans hp; exact h, fun h => h q hl⟩

set_option maxRecDepth 100000 in
theorem levels_bounded_shell : ∃ s : LevelState, s.readied (KERNEL_BASE + 104) = true ∧
    (s.sched.k.proc (KERNEL_BASE + 104)).isShell = true ∧
    (s.sched.k.proc (KERNEL_BASE + 104)).priority ≤ SHELL_PRIORITY_THRESHOLD := by
  obtain ⟨s, hrun, hend⟩ := (Option.any_eq_true (fun s : LevelState =>
      s.readied (KERNEL_BASE + 104) && (s.sched.k.proc (KERNEL_BASE + 104)).isShell)
    (GuardedRun.check LevelState.step MarksInTime (LevelState.boot nextAddr)
      (secondShell 1))).mp (by decide +kernel)
  simp only [Bool.and_eq_true] at hend
  exact ⟨s, hend.1, hend.2, (levels_bounded (.of_check hrun) hend.1).2.2.1 hend.2⟩

end TpSo
