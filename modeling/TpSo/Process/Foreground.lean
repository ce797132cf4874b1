import TpSo.Machine.EveryInstr
import TpSo.Machine.Pids
import TpSo.Machine.Terminated

set_option autoImplicit false

/-! # The foreground process

`foreground_pid` is set to a new process, handed over by a process that ends and by
`give_foreground_to`. `process_exit` does not ask whether the parent is still there, and
`give_foreground_to` takes any pid with an entry in the table, a `TERMINATED` process included. -/

namespace TpSo

/-- The foreground pid is that of a registered process that is not `TERMINATED`. -/
def ForegroundValid (k : Kernel) : Prop :=
  ∃ pid p, k.foregroundPid = ((pid : Nat) : Int) ∧ processLookup k pid = some p ∧
    (k.proc p).state ≠ .terminated

/-! ## Who writes the foreground pid -/

/-- What an instruction does to the foreground pid. -/
inductive ForegroundCase (k k' : Kernel) : Instr → Prop
  | kept {i : Instr} : k'.foregroundPid = k.foregroundPid →
      (∀ p, i = .processExit p → k.foregroundPid ≠ ((k.proc p).pid : Int)) → ForegroundCase k k' i
  | passed {p : Addr} : k.foregroundPid = ((k.proc p).pid : Int) →
      k'.foregroundPid = ((k'.proc p).ppid : Int) → ForegroundCase k k' (.processExit p)
  | created {c : Creation} : c.args.foreground = true →
      k'.foregroundPid = ((k.proc c.process).pid : Int) → ForegroundCase k k' (.createForeground c)
  | given {pid : Nat} {p : Addr} : k.foregroundPid = k.runningPid → processLookup k pid = some p →
      k'.foregroundPid = (pid : Int) → ForegroundCase k k' (.sys (.processGiveForeground pid))

theorem exitFirstHalf_foreground (k : Kernel) (p : Addr) :
    ForegroundCase k (exitFirstHalf k p).2 (.processExit p) := by
  have hpid := exitFirstHalf_pids k p p
  rw [exitFirstHalf_eq] at hpid ⊢
  have hfam := adoptOrphanChildren_family ((leaveReady k p).setState p .terminated) p
  have hfg : (adoptOrphanChildren ((leaveReady k p).setState p .terminated) p).foregroundPid =
      k.foregroundPid := by
    rw [hfam.kernel]
    exact (SameRest.of_outside (leave_outside k p .terminated)).foregroundPid
  revert hpid hfg
  generalize adoptOrphanChildren ((leaveReady k p).setState p .terminated) p = k1
  intro hpid hfg
  rw [passForeground_eq] at hpid
  change (k1.proc p).pid = (k.proc p).pid at hpid
  unfold passForeground
  split
  · next hheld =>
    refine .passed ?_ rfl
    rw [← hfg, hheld, hpid]
  · next hother =>
    refine .kept hfg ?_
    rintro q ⟨⟩ hheld
    exact hother (by rw [hfg, hheld, hpid])

theorem exitFirstHalf_ppid (k : Kernel) {p : Addr} (h : p ∉ (k.proc p).children.getD []) :
    ((exitFirstHalf k p).2.proc p).ppid = (k.proc p).ppid := by
  have hout := leave_outside k p .terminated
  have hproc : ((((leaveReady k p).setState p .terminated).proc p).outside) = (k.proc p).outside :=
    (congrArg (fun k : Kernel => k.proc p) hout :)
  have hchildren : (((leaveReady k p).setState p .terminated).proc p).children = (k.proc p).children :=
    (congrArg Process.children hproc :)
  have hppid : (((leaveReady k p).setState p .terminated).proc p).ppid = (k.proc p).ppid :=
    (congrArg Process.ppid hproc :)
  rw [exitFirstHalf_eq, passForeground_eq]
  exact (adoptOrphanChildren_ppid _ (hchildren ▸ h)).trans hppid

/-- **Every instruction** leaves the foreground pid, or is one of these. -/
theorem exec_foreground (k : Kernel) (r : Regs) (i : Instr) : ForegroundCase k (exec k r i).k i := by
  by_cases hrest : i.touchesRest = false
  · refine .kept (exec_sameRest k r hrest).foregroundPid ?_
    rintro p rfl
    cases hrest
  · cases i <;> try exact absurd rfl hrest
    case processExit p => exact exitFirstHalf_foreground k p
    case createRegister c attached =>
        have hfg : (createRegisterCode k r c attached).k.foregroundPid = k.foregroundPid := by
          rw [createRegisterCode_k, (enterTree_enters k c).kernel]
        exact .kept hfg (by simp)
    case createForeground c =>
        simp only [exec, createForeground]
        split
        · next hf => exact .created hf rfl
        · exact .kept rfl (by simp)
    case createMark c =>
        refine .kept ?_ (by simp)
        simp only [exec, createMark]
        split <;> rfl
    case reapUnregister p =>
        refine .kept ?_ (by simp)
        simp only [exec]
        rw [processUnregister_kernel]
    case excMask masked => exact .kept rfl (by simp)
    case sys c =>
        cases c <;> try exact absurd rfl hrest
        case sleepTicks n => exact .kept (sleepTicks_sleeps k n).foregroundPid (by simp)
        case processGiveForeground pid =>
            simp only [exec, sysCode, giveForegroundTo]
            split
            · exact .kept rfl (by simp)
            · split
              · exact .kept rfl (by simp)
              · split
                · exact .kept rfl (by simp)
                · next hheld =>
                  split
                  · exact .kept rfl (by simp)
                  · next p hp => exact .given (not_not.mp hheld) hp rfl

/-- `init` has created its first shell and not yet said so. -/
def Instr.launched : Instr → Bool
  | .createMark c => c.use == .firstShell
  | _ => false

/-- Only the creation of the first shell sets `shell_created`. -/
theorem exec_shellCreated (k : Kernel) (r : Regs) (i : Instr) :
    (exec k r i).k.shellCreated = k.shellCreated ∨ i.launched = true := by
  by_cases hrest : i.touchesRest = false
  · exact .inl (exec_sameRest k r hrest).shellCreated
  · cases i <;> try exact absurd rfl hrest
    case processExit p => exact .inl (congrArg Kernel.shellCreated (exitFirstHalf_outer k p) :)
    case createRegister c attached =>
        refine .inl ?_
        show (createRegisterCode k r c attached).k.shellCreated = _
        rw [createRegisterCode_k, (enterTree_enters k c).kernel]
    case createForeground c =>
        refine .inl ?_
        simp only [exec, createForeground]
        split <;> rfl
    case createMark c =>
        cases hu : c.use with
        | firstShell => exact .inr (by simp [Instr.launched, hu])
        | _ => exact .inl (by simp only [exec, createMark, hu, Kernel.modProc])
    case reapUnregister p =>
        refine .inl ?_
        simp only [exec]
        rw [processUnregister_kernel]
    case excMask masked => exact .inl rfl
    case sys c =>
        cases c <;> try exact absurd rfl hrest
        case sleepTicks n => exact .inl (sleepTicks_sleeps k n).shellCreated
        case processGiveForeground pid =>
            refine .inl ?_
            simp only [exec, sysCode, giveForegroundTo]
            repeat' split
            all_goals rfl

theorem timerHandler_pcb (k : Kernel) : (timerHandler k).shellCreated = k.shellCreated ∧
    (timerHandler k).foregroundPid = k.foregroundPid := by
  have hwake := SameRest.of_outside (wakeSleepers_outside (k.sleepingQueue.getD []) (nextTick k))
  rw [timerHandler_kernel]
  exact ⟨hwake.shellCreated, hwake.foregroundPid⟩

/-! ## The code that launches the first shell -/

/-- A creation on behalf of `init`'s first shell is one in the foreground. -/
def Instr.launchesForeground : Instr → Bool
  | .createProcess args use => use != .firstShell || args.foreground
  | .createNamed c _ _ _ | .createAttach c _ _ | .createAttached c _ _ _ | .createRegister c _
  | .createForeground c => c.use != .firstShell || c.args.foreground
  | _ => true

theorem launchesForeground_of_not_creates {i : Instr} (hi : i.creates = false) :
    i.launchesForeground = true := by
  cases i <;> first | rfl | cases hi

theorem launchesForeground_handedOn : HandedOn (fun i => i.launchesForeground) where
  exec k r i hi := by
    by_cases hc : i.creates = false
    · exact fun j hj => launchesForeground_of_not_creates (exec_creates k r hc j hj)
    · cases i <;> try exact absurd rfl hc
      case user => simp [exec, Instr.launchesForeground]
      case entryWrapper =>
          simp only [exec]
          repeat' split
          all_goals simp [Instr.launchesForeground]
      case createProcess args use =>
          simp only [exec, createProcessCode, onSem]
          repeat' split
          all_goals simp_all [Instr.launchesForeground]
      case createNamed c s name targets =>
          simp only [exec, createNamedCode]
          split <;> simp_all [Instr.launchesForeground]
      case createAttach c targets attached =>
          cases targets <;> simp_all [exec, Instr.launchesForeground]
      case createAttached c target targets attached =>
          simp only [exec, createRollback]
          repeat' split
          · simpa [Instr.launchesForeground] using hi
          · simp +contextual [Instr.launchesForeground, or_imp]
          · simpa [Instr.launchesForeground] using hi
      case createRegister c attached =>
          simp only [exec, createRegisterCode, createRollback]
          split
          · simp +contextual [Instr.launchesForeground, or_imp]
          · simpa only [Instr.launchesForeground, List.forall_mem_singleton] using hi
      case createForeground c => simp [exec, Instr.launchesForeground]
      case createMark c => simp [exec, Instr.launchesForeground]
      case createDone c => simp [exec, createDone_code]
      -- `init` makes its first shell from `shellArgs`, which is a foreground process
      case initFirst =>
          simp only [exec, initFirstCode]
          repeat' split
          all_goals simp [Instr.launchesForeground, shellArgs]
      case initLoop =>
          simp only [exec, initLoopCode]
          split <;> simp [Instr.launchesForeground]
      case initScan self left =>
          simp only [exec, initScanCode]
          repeat' split
          all_goals simp [Instr.launchesForeground]
      case sys c =>
          cases c <;> simp only [exec, sysCode, processWaitPidCode]
          all_goals
            repeat' split
            all_goals simp [Instr.launchesForeground]
  entry := rfl
  hlt := rfl
  sys _ := rfl
  exception k := by
    unfold Machine.exceptionCode
    split <;> simp [Instr.launchesForeground]
  key k e := by
    cases e with
    | char byte => simp [Machine.keyCode, Instr.launchesForeground]
    | ctrlC =>
        unfold Machine.keyCode
        dsimp only
        repeat' split
        all_goals simp [Instr.launchesForeground]
  setRax _ := rfl

/-- Only the end of `createProcess` leaves it so. -/
theorem exec_launched {k : Kernel} {r : Regs} {i : Instr} (hi : ∀ c, i ≠ .createForeground c) :
    ∀ j ∈ (TpSo.exec k r i).code, j.launched = false := by
  intro j hj
  have hcomes := exec_comesTo k r i j hj
  cases j <;> first | rfl | cases i <;> first | exact absurd rfl (hi _) | cases hcomes

theorem startsUnlaunched : StartsWith (fun i => i.launched = false) where
  entry := rfl
  hlt := rfl
  sys _ := rfl
  exception k := by
    unfold Machine.exceptionCode
    split <;> simp [Instr.launched]
  key k e := by
    cases e with
    | char byte => simp [Machine.keyCode, Instr.launched]
    | ctrlC =>
        unfold Machine.keyCode
        dsimp only
        repeat' split
        all_goals simp [Instr.launched]
  setRax _ := rfl

/-! ## The invariant -/

/-- The step hands the foreground to a process that is there and not `TERMINATED`, reaps no process
    with the foreground pid, and makes no process object on top of a registered one. -/
structure KeepsForeground (m : Machine) (a : Action) : Prop where
  exits : ∀ p, m.Executes a (.processExit p) → m.k.foregroundPid = ((m.k.proc p).pid : Int) →
    p ∉ (m.k.proc p).children.getD [] ∧ ∃ q, processLookup m.k (m.k.proc p).ppid = some q ∧ q ≠ p ∧
      (m.k.proc q).state ≠ .terminated
  gives : ∀ pid p, m.Executes a (.sys (.processGiveForeground pid)) →
    m.k.foregroundPid = m.k.runningPid → processLookup m.k pid = some p →
      (m.k.proc p).state ≠ .terminated
  creates : ∀ c, m.Executes a (.createForeground c) → c.args.foreground = true →
    processLookup m.k (m.k.proc c.process).pid = some c.process ∧
      (m.k.proc c.process).state ≠ .terminated
  reaps : ∀ p, m.Executes a (.reapUnregister p) → m.k.foregroundPid ≠ ((m.k.proc p).pid : Int)
  makes : ∀ p, .fresh p ∈ m.stepActs a → ¬ Registered m.k p

/-- Registered processes are registered under their own pids; once the foreground pid has been set it is
    valid, and it has been set when `init` says that it has launched the first shell. -/
structure ForegroundInv (m : Machine) : Prop where
  ownPid : ∀ pid p, processLookup m.k pid = some p → (m.k.proc p).pid = pid
  code : EveryInstr (fun i => i.launchesForeground) m
  valid : m.k.foregroundPid ≠ -1 → ForegroundValid m.k
  launched : m.k.foregroundPid ≠ -1 ∨
    m.k.shellCreated = false ∧ EveryInstr (fun i => i.launched = false) m

namespace ForegroundInv

variable {m m' : Machine}

/-- A step that registers nobody but under its own pid. -/
theorem ownPid_step (h : ForegroundInv m) {a : Action} (hg : KeepsForeground m a)
    (hs : m.step a = some m') {pid : Nat} {p : Addr} (hp : processLookup m.k pid = some p) :
    (m'.k.proc p).pid = pid := by
  rcases Machine.step_pid hs p with hpid | hfresh
  · exact hpid.trans (h.ownPid pid p hp)
  · exact absurd ⟨pid, hp⟩ (hg.makes p hfresh)

/-- Whoever has the foreground pid after a step that leaves it and its slot alone is not
    `TERMINATED` either, if the step does not end it. -/
theorem valid_keep (h : ForegroundInv m) {a : Action} (hs : m.step a = some m')
    (hfg : m'.k.foregroundPid = m.k.foregroundPid)
    (hlookup : ∀ pid p, m.k.foregroundPid = ((pid : Nat) : Int) → processLookup m.k pid = some p →
      processLookup m'.k pid = some p)
    (hexit : ∀ p, m.Executes a (.processExit p) → m.k.foregroundPid ≠ ((m.k.proc p).pid : Int))
    (hset : m'.k.foregroundPid ≠ -1) : ForegroundValid m'.k := by
  obtain ⟨pid, p, hheld, hp, hst⟩ := h.valid (hfg ▸ hset)
  refine ⟨pid, p, hfg.trans hheld, hlookup pid p hheld hp, fun hterm => ?_⟩
  rcases Machine.terminated_before hs hterm with hterm | hex
  · exact hst hterm
  · exact hexit p hex (by rw [h.ownPid pid p hp, hheld])

/-- The instructions other than `int 0x20`. -/
theorem exec (h : ForegroundInv m) {i : Instr} (hn : m.next = some i) (hi : i ≠ .int20)
    (hg : KeepsForeground m .exec) (hs : m.step .exec = some m')
    (hk : m'.k = (TpSo.exec m.k m.thread.regs i).k) (hset : m'.k.foregroundPid ≠ -1) :
    ForegroundValid m'.k := by
  have hlookup : ∀ pid p, (∀ c, i = .reapUnregister c → pid ≠ (m.k.proc c).pid) →
      processLookup m.k pid = some p → processLookup m'.k pid = some p := by
    intro pid p hreap hp
    rw [hk]
    rcases exec_keeps (r := m.thread.regs) (i := i) hp with hkeep | ⟨c, rfl, rfl⟩
    · exact hkeep
    · exact absurd rfl (hreap c rfl)
  have hends : ∀ p, (m'.k.proc p).state = .terminated → (m.k.proc p).state = .terminated ∨
      i = .processExit p := by
    intro p hp
    refine (Machine.terminated_before hs hp).imp_right fun hex => ?_
    exact Option.some.inj (hn.symm.trans hex.2)
  have hcase := exec_foreground m.k m.thread.regs i
  rw [← hk] at hcase
  cases hcase with
  | kept hfg hno =>
      refine h.valid_keep hs hfg ?_ ?_ hset
      · intro pid p hheld hp
        refine hlookup pid p ?_ hp
        rintro c rfl rfl
        exact hg.reaps c ⟨rfl, hn⟩ hheld
      · intro p hex
        exact hno p (Option.some.inj (hn.symm.trans hex.2))
  | @passed p hheld hfg =>
      obtain ⟨hown, q, hq, hne, hst⟩ := hg.exits p ⟨rfl, hn⟩ hheld
      have hppid : (m'.k.proc p).ppid = (m.k.proc p).ppid := by
        rw [hk]
        exact exitFirstHalf_ppid m.k hown
      refine ⟨(m.k.proc p).ppid, q, hfg.trans (by rw [hppid]), hlookup _ q nofun hq, fun hterm => ?_⟩
      rcases hends q hterm with hterm | hex
      · exact hst hterm
      · cases hex
        exact hne rfl
  | @created c hforeground hfg =>
      obtain ⟨hreg, hst⟩ := hg.creates c ⟨rfl, hn⟩ hforeground
      refine ⟨_, c.process, hfg, hlookup _ c.process nofun hreg, fun hterm => ?_⟩
      rcases hends c.process hterm with hterm | hex
      · exact hst hterm
      · cases hex
  | @given pid p hheld hp hfg =>
      have hst := hg.gives pid p ⟨rfl, hn⟩ hheld hp
      refine ⟨pid, p, hfg, hlookup pid p nofun hp, fun hterm => ?_⟩
      rcases hends p hterm with hterm | hex
      · exact hst hterm
      · cases hex

/-- A foreground pid is never taken back. -/
theorem exec_set {k : Kernel} {r : Regs} {i : Instr} (h : k.foregroundPid ≠ -1) :
    (TpSo.exec k r i).k.foregroundPid ≠ -1 := by
  cases exec_foreground k r i with
  | kept hfg => rwa [hfg]
  | passed _ hfg => omega
  | created _ hfg => omega
  | given _ _ hfg => omega

/-- A step that leaves the kernel's data about it as they are. -/
theorem launched_same (h : ForegroundInv m) {a : Action} (hs : m.step a = some m')
    (hshell : m'.k.shellCreated = m.k.shellCreated) (hfg : m'.k.foregroundPid = m.k.foregroundPid)
    (hcode : ∀ i, m.Executes a i → (TpSo.exec m.k m.thread.regs i).code = []) :
    m'.k.foregroundPid ≠ -1 ∨
      m'.k.shellCreated = false ∧ EveryInstr (fun i => i.launched = false) m' := by
  refine h.launched.imp (fun hset => by rwa [hfg]) ?_
  rintro ⟨hno, hevery⟩
  refine ⟨hshell.trans hno, hevery.step_of startsUnlaunched hs fun i hi j hj => ?_⟩
  rw [hcode i hi] at hj
  cases hj

/-- `init` says that it has launched the first shell after `createProcess` has given it the foreground. -/
theorem launched_exec (h : ForegroundInv m) {i : Instr} (hn : m.next = some i)
    (hs : m.step .exec = some m') (hk : m'.k = (TpSo.exec m.k m.thread.regs i).k) :
    m'.k.foregroundPid ≠ -1 ∨
      m'.k.shellCreated = false ∧ EveryInstr (fun i => i.launched = false) m' := by
  rcases h.launched with hset | ⟨hno, hevery⟩
  · exact .inl (hk ▸ exec_set hset)
  -- the first shell is created in the foreground
  · by_cases hf : ∃ c, i = .createForeground c ∧ c.args.foreground = true
    · obtain ⟨c, rfl, hforeground⟩ := hf
      refine .inl ?_
      rw [hk]
      simp only [TpSo.exec, createForeground, hforeground, if_true]
      omega
    · refine .inr ⟨?_, hevery.step_of startsUnlaunched hs fun i' hi' j hj => ?_⟩
      · rw [hk]
        refine ((exec_shellCreated m.k m.thread.regs i).resolve_right fun hl => ?_).trans hno
        exact absurd (hl.symm.trans (hevery.next hn)) (by decide)
      · obtain rfl : i = i' := Option.some.inj (hn.symm.trans hi'.2)
        by_cases hc : ∃ c, i = .createForeground c
        · obtain ⟨c, rfl⟩ := hc
          cases List.mem_singleton.mp hj
          have huse := h.code.next hn
          simp only [Instr.launchesForeground, Bool.or_eq_true] at huse
          have hne := huse.resolve_right fun hforeground => hf ⟨c, rfl, hforeground⟩
          simpa [Instr.launched] using hne
        · exact exec_launched (fun c hc' => hc ⟨c, hc'⟩) j hj

/-- **Step lemma.** -/
theorem step (h : ForegroundInv m) {a : Action} (hg : KeepsForeground m a)
    (hs : m.step a = some m') : ForegroundInv m' where
  code := h.code.step launchesForeground_handedOn hs
  ownPid pid p hp := by
    rcases Machine.step_lookup hs hp with hold | ⟨c, attached, ⟨rfl, hn⟩, -, rfl, rfl⟩
    · exact h.ownPid_step hg hs hold
    · refine (Machine.step_pid hs c.process).resolve_right fun hfresh => ?_
      simp only [Machine.stepActs, hn] at hfresh
      cases mem_schedActs hfresh
  valid hset := by
    have hidle : (m'.k.foregroundPid = m.k.foregroundPid ∧ m'.k.processes = m.k.processes) →
        (∀ p, ¬ m.Executes a (.processExit p)) → ForegroundValid m'.k := by
      rintro ⟨hfg, hproc⟩ hno
      refine h.valid_keep hs hfg ?_ ?_ hset
      · intro pid p _ hp
        exact (processLookup_congr hproc pid).trans hp
      · intro p hex
        exact absurd hex (hno p)
    cases a with
    | exec =>
        obtain ⟨i, hn, -, rfl⟩ := Machine.step_exec hs
        by_cases hi : i = .int20
        · subst hi
          have hout := SameRest.of_outside (scheduleTick_outside m.k m.cpu)
          refine hidle ⟨hout.foregroundPid, hout.processes⟩ fun p hex => ?_
          cases hn.symm.trans hex.2
        · exact h.exec hn hi hg hs (m.execInstr_k hi) hset
    | tick =>
        obtain ⟨-, rfl⟩ := Machine.step_tick hs
        have hout := SameRest.of_outside (scheduleTick_outside (timerHandler m.k) m.cpu)
        exact hidle ⟨hout.foregroundPid.trans (timerHandler_pcb m.k).2,
          hout.processes.trans (timerHandler_processes m.k)⟩ fun _ hex => Action.noConfusion hex.1
    | syscall c =>
        obtain ⟨-, -, -, rfl⟩ := Machine.step_syscall hs
        exact hidle ⟨rfl, rfl⟩ fun _ hex => Action.noConfusion hex.1
    | ret =>
        obtain ⟨-, -, rfl⟩ := Machine.step_ret hs
        exact hidle ⟨rfl, rfl⟩ fun _ hex => Action.noConfusion hex.1
    | exception =>
        obtain ⟨-, -, rfl⟩ := Machine.step_exception hs
        exact hidle ⟨rfl, rfl⟩ fun _ hex => Action.noConfusion hex.1
    | key e =>
        obtain ⟨-, rfl⟩ := Machine.step_key hs
        exact hidle ⟨rfl, rfl⟩ fun _ hex => Action.noConfusion hex.1
  launched := by
    cases a with
    | exec =>
        obtain ⟨i, hn, -, rfl⟩ := Machine.step_exec hs
        by_cases hi : i = .int20
        · subst hi
          have hout := SameRest.of_outside (scheduleTick_outside m.k m.cpu)
          refine h.launched_same hs hout.shellCreated hout.foregroundPid fun i hex => ?_
          cases hn.symm.trans hex.2
          rfl
        · exact h.launched_exec hn hs (m.execInstr_k hi)
    | tick =>
        have hs' := hs
        obtain ⟨-, rfl⟩ := Machine.step_tick hs'
        have hout := SameRest.of_outside (scheduleTick_outside (timerHandler m.k) m.cpu)
        obtain ⟨hshell, hfg⟩ := timerHandler_pcb m.k
        exact h.launched_same hs (hout.shellCreated.trans hshell) (hout.foregroundPid.trans hfg)
          fun _ hex => Action.noConfusion hex.1
    | syscall c =>
        have hs' := hs
        obtain ⟨-, -, -, rfl⟩ := Machine.step_syscall hs'
        exact h.launched_same hs rfl rfl fun _ hex => Action.noConfusion hex.1
    | ret =>
        have hs' := hs
        obtain ⟨-, -, rfl⟩ := Machine.step_ret hs'
        exact h.launched_same hs rfl rfl fun _ hex => Action.noConfusion hex.1
    | exception =>
        have hs' := hs
        obtain ⟨-, -, rfl⟩ := Machine.step_exception hs'
        exact h.launched_same hs rfl rfl fun _ hex => Action.noConfusion hex.1
    | key e =>
        have hs' := hs
        obtain ⟨-, rfl⟩ := Machine.step_key hs'
        exact h.launched_same hs rfl rfl fun _ hex => Action.noConfusion hex.1

theorem boot (memAnswers : Nat → Option Addr) : ForegroundInv (Boot.machine memAnswers) where
  ownPid pid p hp := by
    obtain ⟨h1, -, h3⟩ := processLookup_eq_some.mp hp
    change (Boot.kernel memAnswers).processes (pid - PROCESS_FIRST_PID) = some p at h3
    simp only [Boot.kernel] at h3
    split at h3
    · cases h3
      exact (show pid = 1 by unfold PROCESS_FIRST_PID at *; omega).symm
    · split at h3
      · cases h3
        exact (show pid = 2 by unfold PROCESS_FIRST_PID at *; omega).symm
      · cases h3
  code := .boot launchesForeground_handedOn.toStartsWith memAnswers
  valid h := absurd rfl h
  launched := .inr ⟨rfl, .boot startsUnlaunched memAnswers⟩

end ForegroundInv

/-- **The foreground is valid** once the first shell has been launched, in every run that hands it
    to live processes only. -/
theorem foreground_valid {memAnswers : Nat → Option Addr} {as : List Action} {m : Machine}
    (hrun : GuardedRun Machine.step KeepsForeground (Boot.machine memAnswers) as m)
    (hshell : m.k.shellCreated = true) : ForegroundValid m.k := by
  have hinv : ForegroundInv m :=
    hrun.invariant ForegroundInv (fun _ _ _ h hg hs => h.step hg hs) (.boot memAnswers)
  refine hinv.valid (hinv.launched.resolve_right fun hno => ?_)
  exact absurd (hshell.symm.trans hno.1) (by decide)

/-! ## Hand-overs to the living and to the dead -/

/-- The process is there and not `TERMINATED`. -/
def handsTo (k : Kernel) (pid : Nat) (but : Option Addr) : Bool :=
  (processLookup k pid).any (fun q => decide (some q ≠ but) && decide ((k.proc q).state ≠ .terminated))

/-- The conditions on the instruction the processor is at. -/
def handsOver (m : Machine) (a : Action) : Bool :=
  match a, m.next with
  | .exec, some (.processExit p) =>
    decide (m.k.foregroundPid ≠ ((m.k.proc p).pid : Int)) ||
      decide (p ∉ (m.k.proc p).children.getD []) && handsTo m.k (m.k.proc p).ppid (some p)
  | .exec, some (.sys (.processGiveForeground pid)) =>
    (processLookup m.k pid).all (fun p => decide ((m.k.proc p).state ≠ .terminated))
  | .exec, some (.createForeground c) => handsTo m.k (m.k.proc c.process).pid none &&
      decide (processLookup m.k (m.k.proc c.process).pid = some c.process)
  | .exec, some (.reapUnregister p) => decide (m.k.foregroundPid ≠ ((m.k.proc p).pid : Int))
  | _, _ => true

/-- A process object is made on top of no registered process. -/
def makesApart (k : Kernel) : SchedAct → Bool
  | .fresh p => (List.range PROCESS_MAX_PROCESSES).all (fun i => decide (k.processes i ≠ some p))
  | _ => true

theorem keepsForeground_of_check {m : Machine} {a : Action} (hh : handsOver m a)
    (hm : (m.stepActs a).all (makesApart m.k)) : KeepsForeground m a where
  exits p hex hheld := by
    obtain ⟨rfl, hn⟩ := hex
    simp only [handsOver, hn, hheld, ne_eq, not_true_eq_false, decide_false, Bool.false_or,
      Bool.and_eq_true, decide_eq_true_eq] at hh
    obtain ⟨q, hq, hlive⟩ := (Option.any_eq_true _ _).mp hh.2
    simp only [Bool.and_eq_true, decide_eq_true_eq] at hlive
    exact ⟨hh.1, q, hq, fun h => hlive.1 (h ▸ rfl), hlive.2⟩
  gives pid p hex _ hp := by
    obtain ⟨rfl, hn⟩ := hex
    simpa [handsOver, hn, hp] using hh
  creates c hex _ := by
    obtain ⟨rfl, hn⟩ := hex
    simp only [handsOver, hn, handsTo, Bool.and_eq_true, decide_eq_true_eq] at hh
    obtain ⟨hany, hreg⟩ := hh
    rw [hreg, Option.any_some] at hany
    exact ⟨hreg, by simpa using hany⟩
  reaps p hex := by
    obtain ⟨rfl, hn⟩ := hex
    simpa [handsOver, hn] using hh
  makes p hp := by
    rintro ⟨pid, hreg⟩
    obtain ⟨-, hlt, hslot⟩ := processLookup_eq_some.mp hreg
    have hall := List.all_eq_true.mp hm _ hp
    simp only [makesApart, List.all_eq_true, decide_eq_true_eq] at hall
    exact hall _ (List.mem_range.mpr hlt) hslot

/-- The shell creates a child in the foreground, which exits. -/
def childExits : List Action :=
  startShell ++
  .syscall (.processCreate 0 0 true (KERNEL_BASE * 4)) :: List.replicate 45 .exec ++
  List.replicate 4 .tick ++ .exec :: .syscall (.processExit 0) :: List.replicate 72 .exec

set_option maxRecDepth 100000 in
/-- The foreground is the shell's again. -/
theorem foreground_valid_shell : ∃ m,
    GuardedRun Machine.step KeepsForeground (Boot.machine freshBlocks) childExits m ∧
      m.k.foregroundPid = 3 ∧ ForegroundValid m.k := by
  obtain ⟨m, hm, hfacts⟩ := (Option.any_eq_true (fun m : Machine =>
    decide (m.k.foregroundPid = 3) && decide (m.k.shellCreated = true))
    (GuardedRun.check Machine.step
      (fun m a => (handsOver m a && (m.stepActs a).all (makesApart m.k)) = true)
      (Boot.machine freshBlocks) childExits)).mp (by decide +kernel)
  simp only [Bool.and_eq_true, decide_eq_true_eq] at hfacts
  have hrun : GuardedRun Machine.step KeepsForeground (Boot.machine freshBlocks) childExits m := by
    refine (GuardedRun.of_check hm).mono fun m a hcheck => ?_
    obtain ⟨hh, ha⟩ := Bool.and_eq_true_iff.mp hcheck
    exact keepsForeground_of_check hh ha
  exact ⟨m, hrun, hfacts.1, foreground_valid hrun hfacts.2⟩

/-- The shell kills a child and gives it the foreground. -/
def giveToZombie : List Action :=
  startShell ++
  .syscall (.processCreate 0 0 false (KERNEL_BASE * 4)) :: List.replicate 45 .exec ++
  .syscall (.processKill 4) :: List.replicate 66 .exec ++
  [.syscall (.processGiveForeground 4), .exec]

set_option maxRecDepth 100000 in
/-- The foreground pid is that of the `TERMINATED` child. -/
theorem zombie_in_foreground :
    ¬ ∀ (memAnswers : Nat → Option Addr) (as : List Action) (m : Machine),
      Reaches memAnswers as m → m.k.shellCreated = true → ForegroundValid m.k := by
  intro h
  obtain ⟨m, hm, hfacts⟩ := (Option.any_eq_true (fun m : Machine =>
    decide (m.k.shellCreated = true) && decide (m.k.foregroundPid = 4) &&
      decide (processLookup m.k 4 = some (KERNEL_BASE + 114)) &&
      decide ((m.k.proc (KERNEL_BASE + 114)).state = .terminated))
    ((Boot.machine freshBlocks).run giveToZombie)).mp (by decide +kernel)
  simp only [Bool.and_eq_true, decide_eq_true_eq] at hfacts
  obtain ⟨⟨⟨hshell, hfg⟩, hlookup⟩, hterm⟩ := hfacts
  obtain ⟨pid, p, hheld, hp, hst⟩ := h _ _ m hm hshell
  have hpid : pid = 4 := by
    rw [hfg] at hheld
    exact_mod_cast hheld.symm
  rw [hpid, hlookup] at hp
  cases hp
  exact hst hterm

end TpSo
