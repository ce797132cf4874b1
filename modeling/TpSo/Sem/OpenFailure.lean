import TpSo.Mvar.Program
import TpSo.Pipes.OpenPipe

set_option autoImplicit false

/-! # A `semOpen` that fails

`sys_sem_open` returns -1 on each of its failures, and `semOpen` casts that to a `void *`. The programs
that open semaphores compare the pointer with `NULL`. -/

namespace TpSo

/-! ## The programs -/

/-- A `void *` that `semOpen` has returned. -/
abbrev Handle := Int

/-- `semOpen`: a cast of what `sys_sem_open` returned. -/
def semOpen (ret : Int) : Handle := ret

namespace SemUsers

def NULL : Handle := 0

/-- A semaphore call, with the handle it is made on. -/
inductive SemCall
  | wait (sem : Handle)
  | post (sem : Handle)
  | close (sem : Handle)

def SemCall.handle : SemCall → Handle
  | wait sem | post sem | close sem => sem

/-- The test behind the calls of `semOpen`: one of the handles is `NULL`. -/
def openFailed (handles : List Handle) : Bool := handles.any (fun h => decide (h = NULL))

/-- The semaphore calls of a loop that waits on one semaphore and then posts on another. -/
def turns (n : Nat) (waited posted : Handle) : List SemCall :=
  (List.replicate n [.wait waited, .post posted]).flatten

/-- `mvar_writer`: its semaphore calls in its first `n` turns. -/
def mvarWriter (emptySem fullSem : Handle) (n : Nat) : List SemCall :=
  if openFailed [emptySem, fullSem] then [] else turns n emptySem fullSem

/-- `mvar_reader`, likewise. -/
def mvarReader (emptySem fullSem : Handle) (n : Nat) : List SemCall :=
  if openFailed [emptySem, fullSem] then [] else turns n fullSem emptySem

/-- How `mvar` ends. -/
inductive MvarOutcome
  | notPositive
  | noSemaphores
  | tooMany
  /-- It has gone on to create its writers and readers. -/
  | creates (writers readers : Int)

/-- `mvar`, once its arguments have been read. -/
def mvar (writers readers : Int) (emptySem fullSem : Handle) : MvarOutcome :=
  if writers ≤ 0 ∨ readers ≤ 0 then .notPositive
  else if openFailed [emptySem, fullSem] then .noSemaphores
  else if writers > Mvar.MVAR_MAX_WRITERS ∨ readers > Mvar.MVAR_MAX_READERS then .tooMany
  else .creates writers readers

/-- `process_inc` with `use_sem`. -/
def processInc (syncSem : Handle) (iterations : Nat) : List SemCall :=
  if openFailed [syncSem] then [] else turns iterations syncSem syncSem

/-- What `test_sync` does with `sync_sem`: the calls of the processes it could create, one list for each,
    and its own. -/
def testSync (syncSem : Handle) (iterations : Nat) (created : Nat) : List (List SemCall) × List SemCall :=
  if openFailed [syncSem] then ([], [])
  else (List.replicate created (processInc syncSem iterations), [.close syncSem])

theorem openFailed_eq_false {handles : List Handle} (h : ∀ sem ∈ handles, sem ≠ NULL) :
    openFailed handles = false := by
  simp only [openFailed, List.any_eq_false, decide_eq_true_eq]
  exact h

theorem mem_turns {n : Nat} (hn : 0 < n) (waited posted : Handle) :
    .wait waited ∈ turns n waited posted ∧ .post posted ∈ turns n waited posted := by
  have hmem : [.wait waited, .post posted] ∈ List.replicate n [SemCall.wait waited, .post posted] :=
    List.mem_replicate.mpr ⟨Nat.pos_iff_ne_zero.mp hn, rfl⟩
  exact ⟨List.mem_flatten.mpr ⟨_, hmem, by simp⟩, List.mem_flatten.mpr ⟨_, hmem, by simp⟩⟩

end SemUsers

open SemUsers

/-! ## Handles -/

/-- The handle is that of an allocated semaphore. -/
def Denotes (k : Kernel) (h : Handle) : Prop :=
  ∃ a : Addr, h = (a : Int) ∧ (k.live a = some .semaphore ∨ k.live a = some .userSemaphore)

/-- What the programs do with the handle `h` of a failed `semOpen`, whatever their other semaphore: none of
    their tests notices, and all but `mvar` go on to calls on `h`, which denotes no semaphore. -/
structure Undetected (k : Kernel) (h : Handle) : Prop where
  dangling : ¬ Denotes k h
  mvar : ∀ (writers readers : Int) other, other ≠ NULL → 0 < writers → writers ≤ Mvar.MVAR_MAX_WRITERS →
    0 < readers → readers ≤ Mvar.MVAR_MAX_READERS →
      SemUsers.mvar writers readers h other = .creates writers readers ∧
        SemUsers.mvar writers readers other h = .creates writers readers
  mvarWriter : ∀ other n, other ≠ NULL → 0 < n →
    .wait h ∈ SemUsers.mvarWriter h other n ∧ .post h ∈ SemUsers.mvarWriter other h n
  mvarReader : ∀ other n, other ≠ NULL → 0 < n →
    .post h ∈ SemUsers.mvarReader h other n ∧ .wait h ∈ SemUsers.mvarReader other h n
  testSync : ∀ iterations created, .close h ∈ (SemUsers.testSync h iterations created).2 ∧
    (0 < iterations → ∀ calls ∈ (SemUsers.testSync h iterations created).1, .wait h ∈ calls)

/-- No semaphore has the address -1, which is not `NULL` either. -/
theorem undetected_of_neg_one (k : Kernel) : Undetected k (semOpen (-1)) := by
  have hpair : ∀ other, other ≠ NULL →
      openFailed [semOpen (-1), other] = false ∧ openFailed [other, semOpen (-1)] = false := by
    intro other hother
    constructor <;> refine openFailed_eq_false fun sem hsem => ?_ <;>
      simp only [List.mem_cons, List.not_mem_nil, or_false] at hsem <;>
      rcases hsem with rfl | rfl <;> first | exact hother | decide
  have hone : openFailed [semOpen (-1)] = false := rfl
  refine ⟨?_, ?_, ?_, ?_, ?_⟩
  · rintro ⟨a, ha, -⟩
    change (-1 : Int) = a at ha
    omega
  · intro writers readers other hother hw hw' hr hr'
    obtain ⟨hfirst, hsecond⟩ := hpair other hother
    have hpos : ¬ (writers ≤ 0 ∨ readers ≤ 0) := by omega
    have hmax : ¬ (writers > Mvar.MVAR_MAX_WRITERS ∨ readers > Mvar.MVAR_MAX_READERS) := by omega
    simp [SemUsers.mvar, hpos, hmax, hfirst, hsecond]
  · intro other n hother hn
    obtain ⟨hfirst, hsecond⟩ := hpair other hother
    simp only [SemUsers.mvarWriter, hfirst, hsecond, Bool.false_eq_true, if_false]
    exact ⟨(mem_turns hn _ _).1, (mem_turns hn _ _).2⟩
  · intro other n hother hn
    obtain ⟨hfirst, hsecond⟩ := hpair other hother
    simp only [SemUsers.mvarReader, hfirst, hsecond, Bool.false_eq_true, if_false]
    exact ⟨(mem_turns hn _ _).2, (mem_turns hn _ _).1⟩
  · intro iterations created
    simp only [SemUsers.testSync, SemUsers.processInc, hone, Bool.false_eq_true, if_false]
    refine ⟨List.mem_singleton.mpr rfl, fun hi calls hcalls => ?_⟩
    rw [(List.mem_replicate.mp hcalls).2]
    exact (mem_turns hi _ _).1

/-! ## The call -/

/-- `sys_sem_open` does not find what it needs: the name is unknown and is not to be created, or there is no
    memory for the semaphore, its name or its waiting queue. -/
def semOpenFails (k : Kernel) (name : Name) (createIfMissing : Bool) : Bool :=
  (findRegistered k name).isNone &&
    (!createIfMissing ||
      match k.memAlloc .userSemaphore with
      | (none, _) => true
      | (some _, k) => !semInitFits k)

/-- The call of the running process in `m` returns in `m'`; meanwhile the others do as they like. -/
structure CallReturns (m : Machine) (rest : List Instr) (as : List Action) (m' : Machine) : Prop where
  run : GuardedRun Machine.step (Machine.InCall m.cpu rest) m as m'
  cpu : m'.cpu = m.cpu
  returned : (m'.threads m.cpu).sys = rest

/-- What is left of a failing `sys_sem_open` after its first instruction. -/
inductive SemOpenFailCase (o : Outcome) : Prop
  | spins (code : o.code = [.spin])
  | failed (code : o.code = []) (ret : o.r.rax = -1)
  | check (sem : Addr) (code : o.code = [.semOpenCheck sem])
      (unfit : (o.k.sem sem).name.isNone ∨ (o.k.sem sem).waitingProcesses.isNone)

theorem semOpen_failCase {k : Kernel} {name : Name} {createIfMissing : Bool} (count : Nat) (r : Regs)
    (h : semOpenFails k name createIfMissing) :
    SemOpenFailCase (exec k r (.sys (.semOpen name count createIfMissing))) := by
  simp only [semOpenFails, Bool.and_eq_true, Option.isNone_iff_eq_none, Bool.or_eq_true,
    Bool.not_eq_true'] at h
  obtain ⟨hfind, hfails⟩ := h
  have hexec : exec k r (.sys (.semOpen name count createIfMissing)) =
      sysCode k r (.semOpen name count createIfMissing) := rfl
  cases hlock : k.registryLock with
  | true => exact .spins (by simp [hexec, sysCode, hlock])
  | false =>
  cases createIfMissing with
  | false =>
      rw [hexec]
      exact .failed (by simp [sysCode, hlock, hfind]) (by simp [sysCode, hlock, hfind])
  | true =>
      simp only [Bool.true_eq_false, false_or] at hfails
      rcases memAlloc_cases k .userSemaphore with hnone | ⟨sem, -, -, hsome⟩
      · rw [hexec]
        exact .failed (by simp [sysCode, hlock, hfind, hnone]) (by simp [sysCode, hlock, hfind, hnone])
      · rw [hsome] at hfails
        refine .check sem (by simp [hexec, sysCode, hlock, hfind, hsome]) ?_
        simp only [hexec, sysCode, hlock, hfind, hsome, not_true_eq_false, Bool.false_eq_true, if_false]
        exact semInit_unfit (Bool.not_eq_true' _ ▸ hfails) sem name count

/-- The way out after a `sem_init` without memory. -/
theorem semOpenCheck_fails (sem : Addr) : (callCode fun _ _ => True).Triple (fun _ _ => True)
    (fun x => (x.1.sem sem).name.isNone ∨ (x.1.sem sem).waitingProcesses.isNone) [.semOpenCheck sem]
    (fun x => x.2.rax = -1) := by
  refine .instr (by simp [callCode]) fun x hx => ⟨trivial, ?_⟩
  have hcode : ((callCode fun _ _ => True).run x (.semOpenCheck sem)).2 =
      [.semDestroy sem, .semFree sem] ++ [.setRax (-1)] := by
    show (exec x.1 x.2 (.semOpenCheck sem)).code = _
    simp only [exec, if_pos hx]
    rfl
  rw [hcode]
  refine .append (m := fun _ => True) ?_ (.simple (by simp [callCode]) (fun _ _ => rfl)
    (fun _ _ => trivial) fun _ _ => rfl)
  -- what becomes of the semaphore does not matter any more
  exact .conseq (.invariant (fun _ => True) (fun _ _ => trivial) (fun _ _ _ _ _ => ⟨trivial, fun _ _ => trivial⟩)
    (fun _ _ _ _ => trivial) fun _ _ _ _ => trivial) (fun _ _ => trivial) fun _ h => h

/-- A `sem_find` that finds `registry_lock` taken. -/
theorem semOpen_spins : (callCode fun _ _ => True).Triple (fun _ _ => True) (fun _ => True) [.spin]
    (fun _ => False) :=
  .spin (by simp [callCode]) (fun _ _ => trivial) fun _ _ => .inl rfl

/-- **Every failure of `sys_sem_open` returns -1.** -/
theorem semOpen_returns_neg_one {m m' : Machine} {rest : List Instr} {name : Name} {count : Nat}
    {createIfMissing : Bool} {as : List Action}
    (hcall : (m.threads m.cpu).sys = .sys (.semOpen name count createIfMissing) :: rest)
    (hfails : semOpenFails m.k name createIfMissing) (h : CallReturns m rest as m') :
    (m'.threads m.cpu).regs.rax = -1 := by
  set i : Instr := .sys (.semOpen name count createIfMissing) with hi
  have hplain : i.isPlain := rfl
  obtain ⟨hcpu, hthread⟩ :=
    Machine.execInstr_thread hcall (Instr.isPlain_ne hplain).1 (Instr.isPlain_spawn hplain _ _)
  rw [Machine.thread, hcpu] at hthread
  have hk := m.execInstr_k (Instr.isPlain_ne hplain).1
  obtain ⟨as', hrun⟩ : ∃ as', GuardedRun Machine.step (Machine.InCall m.cpu rest) (m.execInstr i) as' m' := by
    cases h.run with
    | nil =>
        have hlen := congrArg List.length (hcall.symm.trans h.returned)
        simp at hlen
    | cons _ hs hrest =>
        obtain ⟨-, rfl⟩ := Machine.step_of_sys hcall hs
        exact ⟨_, hrest⟩
  -- what is left after it is a path of its code
  have hpath : ∀ {code}, (exec m.k m.thread.regs i).code = code → (∀ j ∈ code, j.spawns = false) →
      (callCode fun _ _ => True).Path (((exec m.k m.thread.regs i).k, (exec m.k m.thread.regs i).r), code)
        ((m'.k, (m'.threads m.cpu).regs), []) := by
    rintro code rfl hspawns
    have hrelies : GuardedRun Machine.step (fun t a => t.InCall m.cpu rest a ∧
        t.Relies (fun _ _ => True) m.cpu a) (m.execInstr i) as' m' :=
      hrun.mono fun _ _ hg => ⟨hg, fun _ _ _ => trivial⟩
    have hpath := Machine.path_of_call (fun _ _ _ _ _ => trivial) (fun _ _ => trivial) hrelies hcpu
      (congrArg (·.sys) hthread) hspawns h.cpu h.returned
    rwa [hk, hthread] at hpath
  have hcase := semOpen_failCase count m.thread.regs hfails
  rw [← hi] at hcase
  cases hcase with
  -- with `registry_lock` taken the call does not return
  | spins hcode => exact absurd ((semOpen_spins _ trivial _ _ (hpath hcode (by simp [Instr.spawns]))).1 rfl) id
  | failed hcode hret =>
      have hsys : ((m.execInstr i).threads m.cpu).sys = rest := by
        rw [hthread]
        show (exec m.k m.thread.regs i).code ++ rest = rest
        rw [hcode]
        rfl
      obtain ⟨-, rfl⟩ := Machine.InCall.over hrun hsys
      rw [hthread]
      exact hret
  -- the handle was made and does not fit: `semOpenCheck` undoes it, and others may run meanwhile
  | check sem hcode hunfit =>
      exact (semOpenCheck_fails sem _ hunfit _ _ (hpath hcode (by simp [Instr.spawns]))).1 rfl

/-- **No failure of `semOpen` is detected.** -/
theorem failed_semOpen_undetected {m m' : Machine} {rest : List Instr} {name : Name} {count : Nat}
    {createIfMissing : Bool} {as : List Action}
    (hcall : (m.threads m.cpu).sys = .sys (.semOpen name count createIfMissing) :: rest)
    (hfails : semOpenFails m.k name createIfMissing) (h : CallReturns m rest as m') :
    Undetected m'.k (semOpen (m'.threads m.cpu).regs.rax) := by
  rw [semOpen_returns_neg_one hcall hfails h]
  exact undetected_of_neg_one m'.k

/-! ## A name nobody has registered -/

/-- The shell asks for a semaphore that does not exist. -/
def shellAsks : List Action := startShell ++ [.syscall (.semOpen ['x'] 0 false)]

/-- The processor is about to execute a failing `sys_sem_open` of this name, and nothing after it. -/
def Machine.asksFor (m : Machine) (name : Name) : Bool :=
  match (m.threads m.cpu).sys with
  | [.sys (.semOpen asked 0 false)] => decide (asked = name) && semOpenFails m.k name false
  | _ => false

theorem Machine.sys_of_asksFor {m : Machine} {name : Name} (h : m.asksFor name) :
    (m.threads m.cpu).sys = [.sys (.semOpen name 0 false)] ∧ semOpenFails m.k name false := by
  unfold asksFor at h
  split at h
  · next hsys =>
    simp only [Bool.and_eq_true, decide_eq_true_eq] at h
    exact ⟨h.1 ▸ hsys, h.2⟩
  · cases h

theorem CallReturns.of_alone {m m' : Machine} {as : List Action}
    (h : GuardedRun Machine.step (Machine.Alone m.cpu) m as m') (hcpu : m'.cpu = m.cpu)
    (hret : (m'.threads m.cpu).sys = []) : CallReturns m [] as m' :=
  ⟨h.mono fun _ _ h => h.2, hcpu, hret⟩

set_option maxRecDepth 100000 in
theorem shell_asks : ∃ m m' : Machine, Reaches freshBlocks shellAsks m ∧
    (m.threads m.cpu).sys = [.sys (.semOpen ['x'] 0 false)] ∧ semOpenFails m.k ['x'] false ∧
      CallReturns m [] [.exec] m' := by
  obtain ⟨x, hx, hfacts⟩ := (Option.any_eq_true (fun x : Machine × Machine =>
    x.1.asksFor ['x'] && decide (x.2.cpu = x.1.cpu) && (x.2.threads x.1.cpu).sys.isEmpty)
    (callRun freshBlocks Machine.Alone shellAsks [.exec])).mp (by decide +kernel)
  simp only [Bool.and_eq_true, decide_eq_true_eq, List.isEmpty_iff] at hfacts
  obtain ⟨⟨hcall, hcpu⟩, hret⟩ := hfacts
  obtain ⟨hreach, hrun⟩ := callRun_eq_some hx
  obtain ⟨hsys, hfails⟩ := Machine.sys_of_asksFor hcall
  exact ⟨x.1, x.2, hreach, hsys, hfails, .of_alone hrun hcpu hret⟩

/-- Its handle passes every test. -/
theorem failed_semOpen_undetected_unknown : ∃ m m' : Machine, Reaches freshBlocks shellAsks m ∧
    CallReturns m [] [.exec] m' ∧ Undetected m'.k (semOpen (m'.threads m.cpu).regs.rax) := by
  obtain ⟨m, m', hreach, hcall, hfails, hreturns⟩ := shell_asks
  exact ⟨m, m', hreach, hreturns, failed_semOpen_undetected hcall hfails hreturns⟩

/-- No test finds `NULL` there. -/
theorem failed_semOpen_not_recognised : ¬ ∀ (memAnswers : Nat → Option Addr) (before : List Action)
    (m m' : Machine) (rest : List Instr) (as : List Action) (name : Name) (count : Nat)
    (createIfMissing : Bool), Reaches memAnswers before m →
    (m.threads m.cpu).sys = .sys (.semOpen name count createIfMissing) :: rest →
    semOpenFails m.k name createIfMissing → CallReturns m rest as m' →
    openFailed [semOpen (m'.threads m.cpu).regs.rax] = true := by
  intro hall
  obtain ⟨m, m', hreach, hcall, hfails, hreturns⟩ := shell_asks
  have hfound := hall _ _ _ _ _ _ _ _ _ hreach hcall hfails hreturns
  rw [semOpen_returns_neg_one hcall hfails hreturns] at hfound
  exact absurd hfound (by decide)

end TpSo
