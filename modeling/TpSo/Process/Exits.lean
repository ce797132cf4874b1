import TpSo.Machine.SpinLocks
import TpSo.Process.Reaping

set_option autoImplicit false

/-! # Exits that nobody finishes

`process_exit` ends the process at once, with interrupts disabled, and then gives up its attachments and
posts its exit semaphore. Whoever executes this second half can lose the processor in it: a process that is
`TERMINATED` itself does not get it back, and one that is not can be ended before it does, or turn round at a
lock for ever. -/

namespace TpSo

/-- The instruction belongs to the second half of the exit of `p`. The post comes last. -/
def Instr.exits (p : Addr) : Instr → Bool
  | .exitUnattach q _ | .exitSemLock q | .exitSemPost q => q == p
  | _ => false

/-- Some of the second half of the exit of `p` is still to be executed on the stack `t`. -/
def Machine.ExitPending (m : Machine) (t p : Addr) : Prop := ∃ i ∈ m.code t, i.exits p = true

/-- The exit semaphore of `p` has been posted. -/
def Posted (m : Machine) (p : Addr) : Prop := ∀ s, (m.k.proc p).exitSem = some s → 1 ≤ postCalls s m.log

/-- The process has ended and is not current, its exit is not finished, and the processor is not at it: it
    has nothing of it to execute, or turns round at a spin lock. -/
structure Machine.ExitLost (m : Machine) (p : Addr) : Prop where
  ended : (m.k.proc p).state = .terminated
  away : m.k.current ≠ some p
  unfinished : ¬ Posted m p ∨ ∃ t, m.ExitPending t p
  nobody : m.ExitPending m.cpu p → m.Spins

/-- The step takes the processor away from no exit, and gives away no memory that an exit refers to. -/
structure FinishesExits (m : Machine) (a : Action) : Prop where
  /-- Nobody loses the processor who has the exit of a `TERMINATED` process to finish. -/
  kept : m.switches a → ∀ p, m.ExitPending m.cpu p → (m.k.proc p).state ≠ .terminated
  /-- A process is ended only where no older exit of its object is left on another stack. -/
  alone : ∀ p, m.Executes a (.processExit p) → ∀ t, t ≠ m.cpu → ¬ m.ExitPending t p
  /-- A process object is made only where no exit is left on the stack. -/
  rebuilt : ∀ t, .fresh t ∈ m.stepActs a → ∀ p, ¬ m.ExitPending t p
  /-- A semaphore is not initialised where a process that has ended still has its exit semaphore. -/
  renewed : ∀ s p, m.Inits a s → (m.k.proc p).state = .terminated → (m.k.proc p).exitSem ≠ some s
  /-- No interrupt comes where a spin lock is taken. -/
  locks : m.LeavesLocks a

/-- What a run that finishes exits keeps up. -/
structure Exiting (m : Machine) : Prop where
  carried : ∀ t p, m.ExitPending t p → t = m.cpu ∨ (m.k.proc p).state ≠ .terminated
  posts : ∀ p, (m.k.proc p).state = .terminated → Posted m p ∨ ∃ t, .exitSemPost p ∈ m.code t

/-- **No exit is lost** then. -/
theorem Exiting.not_lost {m : Machine} (h : Exiting m) (hspin : ¬ m.Spins) (p : Addr) : ¬ m.ExitLost p := by
  intro hlost
  have hnobody : ∀ t, ¬ m.ExitPending t p := by
    intro t ht
    rcases h.carried t p ht with rfl | hno
    · exact hspin (hlost.nobody ht)
    · exact hno hlost.ended
  rcases hlost.unfinished with hpost | ⟨t, ht⟩
  · rcases h.posts p hlost.ended with hposted | ⟨t, ht⟩
    · exact hpost hposted
    · exact hnobody t ⟨_, ht, by simp [Instr.exits]⟩
  · exact hnobody t ht

/-! ## Steps -/

theorem SchedActs.fresh_ready {k k' : Kernel} {p : Addr} (h : SchedActs k [.fresh p] k') :
    (k'.proc p).state = .ready := by
  cases h with
  | act _ ha hrest =>
      cases hrest with
      | done hs => exact (hs.state p).trans ha.2.2.1

section Exec
variable {m : Machine} {i : Instr}

/-- Only `process_exit` ends a process. -/
theorem exec_ends {p : Addr} (h : ((exec m.k m.thread.regs i).k.proc p).state = .terminated) :
    (m.k.proc p).state = .terminated ∨ i = .processExit p := by
  refine ((exec_acts m.k m.thread.regs i).terminated_before h).imp_right fun hexit => ?_
  cases mem_schedActs hexit
  rfl

/-- A post that is still to come after an instruction was to come before it, or begins with the end. -/
theorem exec_posts {t p : Addr} (hi : i ≠ .int20) (hn : m.next = some i) (hg : FinishesExits m .exec)
    (ht : .exitSemPost p ∈ m.code t) : .exitSemPost p ∈ (m.execInstr i).code t ∨ i = .exitSemPost p := by
  have hspawn : (exec m.k m.thread.regs i).spawned ≠ some t := by
    intro hsp
    have hfresh : .fresh t ∈ m.stepActs .exec := fresh_of_spawns ⟨i, ⟨rfl, hn⟩, hsp⟩
    exact hg.rebuilt t hfresh p ⟨_, ht, by simp [Instr.exits]⟩
  by_cases hpost : i = .exitSemPost p
  · exact .inr hpost
  · refine .inl ?_
    by_cases hcpu : t = m.cpu
    · subst hcpu
      exact Machine.mem_code_execInstr hi hn hspawn ht (Ne.symm hpost)
    · obtain ⟨rest, -, hrest⟩ := Machine.code_of_next hn
      rw [Machine.execInstr_code hi hrest, if_neg hspawn, if_neg hcpu]
      exact ht

/-- The exit semaphore of a process that has ended is posted once and for all. -/
theorem exec_posted_ended {p : Addr} (hi : i ≠ .int20) (hn : m.next = some i) (hg : FinishesExits m .exec)
    (hended : (m.k.proc p).state = .terminated)
    (hnow : ((exec m.k m.thread.regs i).k.proc p).state = .terminated)
    (h : Posted m p ∨ i = .exitSemPost p) : Posted (m.execInstr i) p := by
  have hfresh : .fresh p ∉ schedActs m.k i := by
    intro hf
    have hready := (fresh_alone (by simpa only [Machine.stepActs, hn] using hf) : m.stepActs .exec = [.fresh p])
    simp only [Machine.stepActs, hn] at hready
    have hacts := exec_acts m.k m.thread.regs i
    rw [hready] at hacts
    exact absurd (hacts.fresh_ready.symm.trans hnow) (by decide)
  intro s hs
  rw [m.execInstr_k hi] at hs
  have hold : (m.k.proc p).exitSem = some s := by
    by_cases hfree : i = .processFreeRest p
    · subst hfree
      exact exec_keepsExitSems m.k m.thread.regs (by simp) p s hs
    · rwa [exec_exitSem_eq _ hfresh hfree] at hs
  have hinits : ∀ e ∈ (exec m.k m.thread.regs i).events, e.inits s = none := by
    intro e he
    by_contra hne
    exact hg.renewed s p ⟨i, ⟨rfl, hn⟩, e, he, hne⟩ hended hold
  rw [m.execInstr_log, postCalls_append _ hinits]
  rcases h with hposted | rfl
  · exact Nat.le_trans (hposted s hold) (Nat.le_add_left _ _)
  · refine Nat.le_trans ?_ (Nat.le_add_right _ _)
    simp [exec, hold, Event.postsTo]

end Exec

/-- A stretch of code. -/
theorem Exiting.exec {m : Machine} {i : Instr} (h : Exiting m) (hi : i ≠ .int20) (hn : m.next = some i)
    (hg : FinishesExits m .exec) : Exiting (m.execInstr i) := by
  have hk := m.execInstr_k hi
  refine ⟨fun t p ht => ?_, fun p hp => ?_⟩
  · obtain ⟨j, hj, hp⟩ := ht
    have hentry : j ≠ .entryWrapper := by
      rintro rfl
      cases hp
    obtain ⟨front, back, hf⟩ := List.append_of_mem hj
    rcases Machine.execInstr_split hi hn hentry hf with ⟨rfl, -⟩ | ⟨rfl, -⟩ | ⟨hne, hold⟩
    · exact .inl (m.execInstr_cpu hi).symm
    · exact .inl (m.execInstr_cpu hi).symm
    · -- on the stack of somebody else: an older exit, of a process that has not ended
      have hpending : m.ExitPending t p := ⟨j, hold ▸ by simp, hp⟩
      refine .inr fun hended => ?_
      rcases exec_ends (hk ▸ hended) with hbefore | rfl
      · exact (h.carried t p hpending).elim hne fun hno => hno hbefore
      · exact hg.alone p ⟨rfl, hn⟩ t hne hpending
  · rw [hk] at hp
    rcases exec_ends hp with hended | rfl
    · rcases h.posts p hended with hposted | ⟨t, ht⟩
      · exact .inl (exec_posted_ended hi hn hg hended hp (.inl hposted))
      · exact (exec_posts hi hn hg ht).symm.imp (fun hpost => exec_posted_ended hi hn hg hended hp (.inr hpost))
          fun hmem => ⟨t, hmem⟩
    · obtain ⟨rest, -, hrest⟩ := Machine.code_of_next hn
      refine .inr ⟨m.cpu, ?_⟩
      rw [Machine.execInstr_code hi hrest, spawned_eq_none m.k m.thread.regs (by simp), if_neg (by simp), if_pos rfl]
      simp [TpSo.exec]

/-- The handler an action enters has no exit half done. -/
theorem entered_exits {m : Machine} {a : Action} {p : Addr} : ∀ j ∈ m.entered a, j.exits p = false := by
  intro j hj
  have hstarts := Machine.entered_starts j hj
  cases j <;> first | rfl | cases hstarts

/-- Any other step. -/
theorem Exiting.other {m m' : Machine} {a : Action} (h : Exiting m) (hs : m.step a = some m')
    (ha : ∀ i, m.Executes a i → i = .int20) (hg : FinishesExits m a) : Exiting m' := by
  obtain ⟨hsems, -, hlog⟩ := Machine.step_quiet hs ha
  have hcode := (Machine.step_other hs ha).2
  have hended : ∀ p, (m'.k.proc p).state = .terminated → (m.k.proc p).state = .terminated := by
    intro p hp
    refine (Machine.terminated_before hs hp).resolve_right fun hexit => ?_
    cases ha _ hexit
  refine ⟨fun t p ht => ?_, fun p hp => ?_⟩
  · have hpending : m.ExitPending t p := by
      obtain ⟨j, hj, hjp⟩ := ht
      obtain ⟨gone, new, rest, hold, hnew, -, hentered⟩ := hcode t
      rw [hnew] at hj
      rcases List.mem_append.mp hj with hin | hrest
      · rw [entered_exits j (hentered j hin)] at hjp
        cases hjp
      · exact ⟨j, hold ▸ List.mem_append_right _ hrest, hjp⟩
    rcases h.carried t p hpending with rfl | hno
    · cases Machine.step_cases hs with
      | stays _ _ hcpu => exact .inl hcpu.symm
      | switched hsw _ _ => exact .inr fun hnow => hg.kept hsw p hpending (hended p hnow)
    · exact .inr fun hnow => hno (hended p hnow)
  · rcases h.posts p (hended p hp) with hposted | ⟨t, ht⟩
    · refine .inl fun s hexit => ?_
      rw [hlog]
      exact hposted s ((hsems p).symm.trans hexit)
    · obtain ⟨gone, new, rest, hold, hnew, hgone, -⟩ := hcode t
      refine .inr ⟨t, ?_⟩
      rw [hold] at ht
      rw [hnew]
      rcases List.mem_append.mp ht with hin | hrest
      · rcases hgone _ hin with heq | heq <;> cases heq
      · exact List.mem_append_right _ hrest

/-- **Step lemma.** -/
theorem Exiting.step {m m' : Machine} {a : Action} (h : Exiting m) (hg : FinishesExits m a)
    (hs : m.step a = some m') : Exiting m' := by
  by_cases hexec : ∃ i, m.Executes a i ∧ i ≠ .int20
  · obtain ⟨i, ⟨rfl, hn⟩, hi⟩ := hexec
    obtain ⟨i', hn', -, rfl⟩ := Machine.step_exec hs
    cases hn.symm.trans hn'
    exact h.exec hi hn hg
  · refine h.other hs (fun i hi => ?_) hg
    by_contra hne
    exact hexec ⟨i, hi, hne⟩

theorem Exiting.boot (memAnswers : Nat → Option Addr) : Exiting (Boot.machine memAnswers) := by
  refine ⟨fun t p ht => ?_, fun p hp => ?_⟩
  · obtain ⟨i, hi, hp⟩ := ht
    simp only [Machine.code, Boot.machine] at hi
    split at hi
    · rw [List.mem_singleton.mp hi] at hp
      cases hp
    · rw [List.mem_singleton.mp hi] at hp
      cases hp
  · simp only [Boot.machine, Boot.kernel] at hp
    repeat' split at hp
    all_goals cases hp

/-- **Exits are finished.** In every run whose steps take the processor away from no exit, no exit is lost. -/
theorem no_exit_lost {memAnswers : Nat → Option Addr} {as : List Action} {m : Machine}
    (h : GuardedRun Machine.step FinishesExits (Boot.machine memAnswers) as m) (p : Addr) : ¬ m.ExitLost p :=
  (h.invariant Exiting (fun _ _ _ hi hg hs => hi.step hg hs) (Exiting.boot memAnswers)).not_lost
    (never_spins (h.mono fun _ _ hg => hg.locks)) p

/-! ## A run that finishes exits -/

/-- Is the instruction in the second half of somebody's exit? -/
def Instr.isExit : Instr → Bool
  | .exitUnattach _ _ | .exitSemLock _ | .exitSemPost _ => true
  | _ => false

/-- There is no exit to finish on the stack. -/
def noExit (m : Machine) (t : Addr) : Bool := !(m.code t).any Instr.isExit

/-- The step takes neither the processor nor the stack from an exit. -/
def finishing (m : Machine) (a : Action) : Bool :=
  (m.stepActs a).all (fun act => match act with | .fresh t => noExit m t | _ => true) &&
    decide (m.LeavesLocks a) &&
    match a, m.next with
    | .exec, some .int20 => noExit m m.cpu
    | .exec, some (.processExit _) => bootStacks.all fun t => decide (t = m.cpu) || noExit m t
    | .tick, _ => noExit m m.cpu
    | _, _ => true

theorem not_pending_of_noExit {m : Machine} {t : Addr} (h : noExit m t = true) (p : Addr) :
    ¬ m.ExitPending t p := by
  rintro ⟨i, hi, hp⟩
  rw [noExit, Bool.not_eq_true', List.any_eq_false] at h
  refine h i hi ?_
  cases i <;> first | rfl | cases hp

theorem not_pending_of_nobodyBut {ts : List Addr} {m : Machine} {t : Addr} (h : NobodyBut ts m) (ht : t ∉ ts)
    (p : Addr) : ¬ m.ExitPending t p := by
  rintro ⟨i, hi, hp⟩
  rw [(h t ht).1, List.mem_singleton] at hi
  subst hi
  cases hp

theorem finishesExits_of_finishing {m : Machine} {a : Action} (h : finishing m a = true)
    (hout : NobodyBut bootStacks m) (hl : LeavesExits m a) : FinishesExits m a := by
  simp only [finishing, Bool.and_eq_true, decide_eq_true_eq] at h
  obtain ⟨⟨hacts, hlocks⟩, hinstr⟩ := h
  refine ⟨fun hsw p hpending => ?_, fun p hex t hne => ?_, fun t hf => ?_, fun s p hs _ => hl.renewed s p hs,
    hlocks⟩
  · cases a with
    | exec =>
        have hn : m.next = some .int20 := hsw
        simp only [hn] at hinstr
        exact absurd hpending (not_pending_of_noExit hinstr p)
    | tick => exact absurd hpending (not_pending_of_noExit hinstr p)
    | _ => cases hsw
  · obtain ⟨rfl, hn⟩ := hex
    simp only [hn] at hinstr
    by_cases ht : t ∈ bootStacks
    · have hno := List.all_eq_true.mp hinstr t ht
      rw [Bool.or_eq_true, decide_eq_true_eq] at hno
      exact not_pending_of_noExit (hno.resolve_left hne) p
    · exact not_pending_of_nobodyBut hout ht p
  · exact not_pending_of_noExit (List.all_eq_true.mp hacts _ hf)

set_option maxRecDepth 100000 in
/-- The shell ends, and its exit is finished. -/
theorem no_exit_lost_shell : ∃ m, GuardedRun Machine.step FinishesExits (Boot.machine freshBlocks) shellEnds m ∧
    (m.k.proc (KERNEL_BASE + 100)).state = .terminated ∧ ¬ m.ExitLost (KERNEL_BASE + 100) := by
  obtain ⟨m, hm, hended⟩ := (Option.any_eq_true (fun m : Machine =>
    decide ((m.k.proc (KERNEL_BASE + 100)).state = .terminated))
    (GuardedRun.check Machine.step (fun m a => (quietly bootStacks m a && finishing m a) = true)
      (Boot.machine freshBlocks) shellEnds)).mp (by decide +kernel)
  have hrun : GuardedRun Machine.step FinishesExits (Boot.machine freshBlocks) shellEnds m := by
    refine (leavesExits_of_quiet_run (fun _ _ h => (Bool.and_eq_true _ _ ▸ h).1) (nobodyBut_boot freshBlocks)
      (GuardedRun.of_check hm)).mono fun m a h => ?_
    exact finishesExits_of_finishing (Bool.and_eq_true _ _ ▸ h.1.1).2 h.1.2 h.2
  exact ⟨m, hrun, of_decide_eq_true hended, no_exit_lost hrun _⟩

/-! ## An exit that is lost -/

/-- The entry function of the shell returns, and a tick comes after the first half of its exit. -/
def droppedShell : List Action := startShell ++ [.ret, .exec, .tick]

set_option maxRecDepth 100000 in
/-- The shell is `TERMINATED`, and the processor is not at its exit. -/
theorem shell_exit_lost : ¬ ∀ (memAnswers : Nat → Option Addr) (as : List Action) (m : Machine),
    Reaches memAnswers as m → ∀ p, ¬ m.ExitLost p := by
  intro h
  obtain ⟨m, hm, hfacts⟩ := (Option.any_eq_true (fun m : Machine =>
    decide ((m.k.proc (KERNEL_BASE + 100)).state = .terminated) &&
      decide (m.k.current ≠ some (KERNEL_BASE + 100)) && noExit m m.cpu &&
      (m.code (KERNEL_BASE + 100)).any (Instr.exits (KERNEL_BASE + 100)))
    (GuardedRun.check Machine.step (fun _ _ => True) (Boot.machine freshBlocks) droppedShell)).mp
      (by decide +kernel)
  simp only [Bool.and_eq_true, decide_eq_true_eq] at hfacts
  obtain ⟨⟨⟨hended, haway⟩, hnobody⟩, hpending⟩ := hfacts
  exact h _ _ m (run_of_guarded (GuardedRun.of_check hm)) (KERNEL_BASE + 100)
    ⟨hended, haway, .inr ⟨_, List.any_eq_true.mp hpending⟩,
      fun hat => absurd hat (not_pending_of_noExit hnobody _)⟩

end TpSo
