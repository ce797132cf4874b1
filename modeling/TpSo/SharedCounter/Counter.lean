import TpSo.Scheduler.Ops
import TpSo.SharedCounter.Exclusion

set_option autoImplicit false

/-! # The counter

The steps of the running process, in its system calls and in its program, keep the invariant too, and
`shared_value` is the start value and all the increments that have been written. -/

namespace TpSo

/-- In user code. -/
theorem Machine.in_user {m : Machine} (hif : m.interruptsEnabled)
    (hnext : (m.next matches some .user) = true) :
    (m.threads m.cpu).sys = [] ∧ ∃ rest, (m.threads m.cpu).base = .user :: rest := by
  have hsys : (m.threads m.cpu).sys = [] := by
    simpa [interruptsEnabled, thread] using hif
  have hn := next_user hnext
  unfold next thread at hn
  rw [hsys] at hn
  refine ⟨hsys, ?_⟩
  cases hbase : (m.threads m.cpu).base with
  | nil =>
      rw [hbase] at hn
      cases hn
  | cons i rest =>
      rw [hbase] at hn
      cases hn
      exact ⟨rest, rfl⟩

/-- What a step of the program does: where the process was, and where it goes on with which
    variables. -/
inductive SyncTest.UserCase (T : Team) (σ : SyncTest) (w : Addr) : SyncTest → Prop
  | starts : (σ.worker w).pc = .start → σ.m.k.current = some w ∧ (σ.m.k.proc w).state = .running →
      UserCase T σ w (σ.goOn w { σ.worker w with pc := .loop })
  | waits {σ' : SyncTest} : (σ.worker w).pc = .loop → (σ.worker w).i < T.iterations w →
      σ.call (.semWait T.sem) w { σ.worker w with pc := .read } = some σ' →
      σ'.worker = Function.update σ.worker w { σ.worker w with pc := .read } →
      σ'.value = σ.value → UserCase T σ w σ'
  | ends : (σ.worker w).pc = .loop → ¬ (σ.worker w).i < T.iterations w →
      UserCase T σ w (σ.goOn w { σ.worker w with pc := .done })
  | reads : (σ.worker w).pc = .read →
      UserCase T σ w (σ.goOn w { σ.worker w with pc := .yield, tmp := σ.value })
  | yields {σ' : SyncTest} : (σ.worker w).pc = .yield →
      σ.call .processYield w { σ.worker w with pc := .write } = some σ' →
      σ'.worker = Function.update σ.worker w { σ.worker w with pc := .write } →
      σ'.value = σ.value → UserCase T σ w σ'
  | writes : (σ.worker w).pc = .write →
      UserCase T σ w { σ.goOn w { σ.worker w with pc := .post } with
        value := (σ.worker w).tmp + T.delta w }
  | posts {σ' : SyncTest} : (σ.worker w).pc = .post →
      σ.call (.semPost T.sem) w { σ.worker w with pc := .loop, i := (σ.worker w).i + 1 } = some σ' →
      σ'.worker = Function.update σ.worker w
        { σ.worker w with pc := .loop, i := (σ.worker w).i + 1 } →
      σ'.value = σ.value → UserCase T σ w σ'

/-- **Every step** of the program. -/
theorem SyncTest.userStep_cases {T : Team} {σ σ' : SyncTest} {w : Addr}
    (hs : σ.userStep T w = some σ') : UserCase T σ w σ' := by
  have hcall : ∀ {c : Syscall} {y : Worker}, σ.call c w y = some σ' →
      σ'.worker = Function.update σ.worker w y ∧ σ'.value = σ.value := by
    intro c y hc
    obtain ⟨m', -, rfl⟩ := Option.map_eq_some_iff.mp hc
    exact ⟨rfl, rfl⟩
  simp only [userStep] at hs
  split at hs
  · next hpc =>
    obtain ⟨hcur, hσ⟩ := Option.ite_none_right_eq_some.mp hs
    cases hσ
    exact .starts hpc hcur
  · next hpc =>
    split at hs
    · next hlt => exact .waits hpc hlt hs (hcall hs).1 (hcall hs).2
    · next hlt =>
      cases hs
      exact .ends hpc hlt
  · next hpc =>
    cases hs
    exact .reads hpc
  · next hpc => exact .yields hpc hs (hcall hs).1 (hcall hs).2
  · next hpc =>
    cases hs
    exact .writes hpc
  · next hpc => exact .posts hpc hs (hcall hs).1 (hcall hs).2
  · cases hs

namespace Exclusion

variable {T : Team} {σ σ' : SyncTest} {stage : Addr → Stage} {owner : Option Addr} {ws : List Addr}
  {m' : Machine}

/-! ## The system calls of the running process -/

/-- Two stages of one system call: the program waits at the same place, and the token stays where it
    is. -/
structure Alike (x y : Stage) : Prop where
  pc : y.pc = x.pc
  waits : x.waits = false ∧ y.waits = false
  holds : y.holds = x.holds
  locked : x.locked = false

/-- An instruction that changes nothing in the kernel. -/
theorem passes (h : Exclusion T σ stage owner ws) (hin : σ.InLoop T σ.m.cpu) {x y : Stage}
    (hst : stage σ.m.cpu = x) (hxy : Alike x y) {i : Instr} {rest : List Instr}
    (hcode : x.code T.sem = i :: rest) (hi : i ≠ .int20)
    (hno : ∀ args use, i ≠ .createProcess args use) (hs : σ.m.step .exec = some m')
    (hk : (exec σ.m.k σ.m.thread.regs i).k = σ.m.k)
    (hnew : (exec σ.m.k σ.m.thread.regs i).code ++ rest = y.code T.sem)
    (hacts : schedActs σ.m.k i = []) :
    ∃ stage' owner' ws', Exclusion T { σ with m := m' } stage' owner' ws' := by
  subst hst
  have hfree := h.unlocked fun _ => hxy.locked
  refine ⟨_, _, _, h.moves hin hcode hi hno hs hnew hxy.pc hxy.waits hxy.holds hacts ?_ ?_ ?_
    fun hl => ?_⟩
  · rw [hk]
    exact SameSched.refl _
  · rw [hk]
  · rw [hk]
  · rw [hk, hfree] at hl
    cases hl

/-- The spin lock is free: nobody else is in the code under it. -/
theorem locks (h : Exclusion T σ stage owner ws) (hin : σ.InLoop T σ.m.cpu) {x y : Stage}
    (hst : stage σ.m.cpu = x) (hxy : Alike x y) {rest : List Instr}
    (hcode : x.code T.sem = .semLock T.sem :: rest) (hs : σ.m.step .exec = some m')
    (hnew : rest = y.code T.sem) (hy : y.locked) :
    ∃ stage' owner' ws', Exclusion T { σ with m := m' } stage' owner' ws' := by
  subst hst
  have hfree := h.unlocked fun _ => hxy.locked
  have hexec : exec σ.m.k σ.m.thread.regs (.semLock T.sem) =
      { k := σ.m.k.modSem T.sem (fun s => { s with lock := true }), r := σ.m.thread.regs } := by
    simp [exec, hfree]
  refine ⟨_, _, _, h.moves hin hcode (by simp) (by simp) hs ?_ hxy.pc hxy.waits hxy.holds rfl ?_ ?_ ?_
    fun _ => hy⟩ <;> rw [hexec]
  · exact hnew
  · exact .of_eq rfl rfl rfl rfl rfl
  · simp [Kernel.modSem]
  · simp [Kernel.modSem]

/-- **A step of the running process** in `sem_wait`, `process_yield` or `sem_post`. -/
theorem own (hT : T.Proper) (hsem : T.sem ≠ 0) (h : Exclusion T σ stage owner ws)
    (hin : σ.InLoop T σ.m.cpu) (hs : σ.m.step .exec = some m') :
    ∃ stage' owner' ws', Exclusion T { σ with m := m' } stage' owner' ws' := by
  have hm := h.member _ hin
  have huser : (stage σ.m.cpu).code T.sem ≠ [] := by
    intro hcode
    obtain ⟨i, hi, hne, -⟩ := Machine.step_exec hs
    obtain ⟨rest, hbase⟩ := hm.base
    have hnext : σ.m.next = some .user := by
      unfold Machine.next Machine.thread
      rw [hm.sys, hcode, hbase]
    cases hnext.symm.trans hi
    exact hne rfl
  cases hst : stage σ.m.cpu with
  | loop | read | yield | write | post =>
      rw [hst] at huser
      exact absurd rfl huser
  -- `sem_wait`
  | waitSys =>
      refine h.passes (y := .waitCall) hin hst ⟨rfl, ⟨rfl, rfl⟩, rfl, rfl⟩ rfl (by simp) (by simp) hs ?_ ?_ rfl
      · simp [exec, sysCode, hsem]
      · simp [exec, sysCode, hsem, Stage.code]
  | waitCall =>
      exact h.passes (y := .waitLock) hin hst ⟨rfl, ⟨rfl, rfl⟩, rfl, rfl⟩ rfl (by simp) (by simp) hs rfl rfl rfl
  | waitLock =>
      exact h.locks (y := .waitLocked) hin hst ⟨rfl, ⟨rfl, rfl⟩, rfl, rfl⟩ rfl hs rfl rfl
  | waitLocked =>
      by_cases hcount : (σ.m.k.sem T.sem).count = 0
      · exact ⟨_, _, _, h.sleeps hT hin hst hs hcount⟩
      · exact ⟨_, _, _, h.takes hin hst hs hcount⟩
  | waitGiven =>
      exact h.passes (y := .read) hin hst ⟨rfl, ⟨rfl, rfl⟩, rfl, rfl⟩ rfl (by simp) (by simp) hs rfl rfl rfl
  | waitLeaves =>
      exact ⟨_, _, _, h.leaves (x := .waitAsleep) hT hin (by rw [hst]; rfl) hs rfl (by rw [hst]; rfl)
        (by rw [hst]; rfl) (by rw [hst]; rfl) (by rw [hst]; exact ⟨rfl, rfl⟩) rfl⟩
  | waitAsleep => exact absurd rfl (hm.asleep hst)
  -- `process_yield`
  | yieldSys =>
      exact h.passes (y := .yieldCall) hin hst ⟨rfl, ⟨rfl, rfl⟩, rfl, rfl⟩ rfl (by simp) (by simp) hs rfl rfl rfl
  | yieldCall =>
      exact ⟨_, _, _, h.yields (x := .yieldLeaves) hin (by rw [hst]; rfl) hs rfl (by rw [hst]; rfl)
        (by rw [hst]; exact ⟨rfl, rfl⟩) (by rw [hst]; rfl) (by rw [hst]; rfl)⟩
  | yieldLeaves =>
      exact ⟨_, _, _, h.leaves (x := .yieldBack) hT hin (by rw [hst]; rfl) hs rfl (by rw [hst]; rfl)
        (by rw [hst]; rfl) (by rw [hst]; rfl) (by rw [hst]; exact ⟨rfl, rfl⟩) rfl⟩
  | yieldBack =>
      exact h.passes (y := .write) hin hst ⟨rfl, ⟨rfl, rfl⟩, rfl, rfl⟩ rfl (by simp) (by simp) hs rfl rfl rfl
  -- `sem_post`
  | postSys =>
      refine h.passes (y := .postCall) hin hst ⟨rfl, ⟨rfl, rfl⟩, rfl, rfl⟩ rfl (by simp) (by simp) hs ?_ ?_ rfl
      · simp [exec, sysCode, hsem]
      · simp [exec, sysCode, hsem, Stage.code]
  | postCall =>
      exact h.passes (y := .postLock) hin hst ⟨rfl, ⟨rfl, rfl⟩, rfl, rfl⟩ rfl (by simp) (by simp) hs rfl rfl rfl
  | postLock =>
      exact h.locks (y := .postLocked) hin hst ⟨rfl, ⟨rfl, rfl⟩, rfl, rfl⟩ rfl hs rfl rfl
  | postLocked =>
      cases hws : ws with
      | nil => exact ⟨_, _, _, h.returns hin hst hs hws⟩
      | cons v rest =>
          obtain ⟨y, hy⟩ := h.handsOver hin hst hs hT hws
          exact ⟨_, _, _, hy⟩
  | postYields =>
      exact ⟨_, _, _, h.yields (x := .postLeaves) hin (by rw [hst]; rfl) hs rfl (by rw [hst]; rfl)
        (by rw [hst]; exact ⟨rfl, rfl⟩) (by rw [hst]; rfl) (by rw [hst]; rfl)⟩
  | postLeaves =>
      exact ⟨_, _, _, h.leaves (x := .loop) hT hin (by rw [hst]; rfl) hs rfl (by rw [hst]; rfl)
        (by rw [hst]; rfl) (by rw [hst]; rfl) (by rw [hst]; exact ⟨rfl, rfl⟩) rfl⟩

/-! ## The program of the running process -/

/-- **The rule for a step of a program**: it leaves the kernel alone and comes to the stage `x`. -/
theorem programmed (h : Exclusion T σ stage owner ws) {x : Stage} {y : Worker}
    (hk : σ'.m.k = σ.m.k) (hcpu : σ'.m.cpu = σ.m.cpu) (hsane : Sane σ'.m)
    (hthreads : ∀ v, v ≠ σ.m.cpu → σ'.m.threads v = σ.m.threads v)
    (hworker : σ'.worker = Function.update σ.worker σ.m.cpu y)
    (hbase : ∃ rest, (σ'.m.threads σ.m.cpu).base = .user :: rest)
    (hsys : (σ'.m.threads σ.m.cpu).sys = x.code T.sem) (hpc : σ'.InLoop T σ.m.cpu → y.pc = x.pc)
    (hrun : σ.m.k.current = some σ.m.cpu ∧ (σ.m.k.proc σ.m.cpu).state = .running)
    (hx : x.waits = false ∧ x.locked = false)
    (hfrom : σ.InLoop T σ.m.cpu → (stage σ.m.cpu).waits = false ∧ (stage σ.m.cpu).locked = false)
    (hholds : σ'.InLoop T σ.m.cpu ∧ x.holds ↔ σ.InLoop T σ.m.cpu ∧ (stage σ.m.cpu).holds) :
    Exclusion T σ' (Function.update stage σ.m.cpu x) owner ws := by
  have hself : σ'.worker σ.m.cpu = y := by
    rw [hworker, Function.update_self]
  have hothers : ∀ v, v ≠ σ.m.cpu → σ'.worker v = σ.worker v := fun v hv => by
    rw [hworker, Function.update_of_ne hv]
  have hfree := h.unlocked fun hin => (hfrom hin).2
  refine h.ran hcpu hsane (fun v hv _ => hthreads v hv) hothers (fun hin => ?_) (fun v hv hvin => ?_) ?_
  · rw [Function.update_self]
    refine ⟨hbase, hsys, hself ▸ hpc hin, ⟨fun _ => ?_, fun hne => absurd hcpu hne⟩, fun _ => hcpu, ?_⟩
    · rw [hk, hx.1]
      exact hrun
    · rintro rfl
      cases hx.1
  · rw [Function.update_of_ne hv, hk]
    exact ⟨.inl rfl, (h.member v hvin).seat⟩
  · refine h.tokens.relabel ?_ ?_ (fun hl => ?_) (fun v hv => ?_) ?_ hholds
    · rw [hk]
    · rw [hk]
    · rw [hk, hfree] at hl
      cases hl
    · unfold SyncTest.InLoop
      rw [hothers v hv]
    · refine ⟨fun hw => ?_, fun hw => ?_⟩
      · rw [hx.1] at hw
        cases hw.2
      · rw [(hfrom hw.1).1] at hw
        cases hw.2

section User
variable (h : Exclusion T σ stage owner ws) (hif : σ.m.interruptsEnabled)

include h hif

/-- In user code the stage is that of the program. -/
theorem in_user (hin : σ.InLoop T σ.m.cpu) :
    (stage σ.m.cpu).waits = false ∧ (stage σ.m.cpu).locked = false ∧
      (stage σ.m.cpu).holds = decide ((σ.worker σ.m.cpu).pc ≠ .loop) := by
  have hm := h.member _ hin
  have hsys : (σ.m.threads σ.m.cpu).sys = [] := by
    simpa [Machine.interruptsEnabled, Machine.thread] using hif
  obtain ⟨-, hlocked, hwaits, hholds⟩ := Stage.of_user (hm.sys.symm.trans hsys)
  exact ⟨hwaits, hlocked, hm.pc ▸ hholds⟩

/-- A process in its loop that is in user code is current. -/
theorem runs (hin : σ.InLoop T σ.m.cpu) :
    σ.m.k.current = some σ.m.cpu ∧ (σ.m.k.proc σ.m.cpu).state = .running := by
  have hseat := (h.member _ hin).seat
  rw [(h.in_user hif hin).1] at hseat
  exact hseat.on rfl

variable (hnext : (σ.m.next matches some .user) = true)
  (hrun : σ.m.k.current = some σ.m.cpu ∧ (σ.m.k.proc σ.m.cpu).state = .running)

include hnext hrun

/-- The program goes on in user code. -/
theorem goesOn {x : Stage} {y : Worker} (hm : σ'.m = σ.m)
    (hworker : σ'.worker = Function.update σ.worker σ.m.cpu y) (hcode : x.code T.sem = [])
    (hpc : σ'.InLoop T σ.m.cpu → y.pc = x.pc)
    (hholds : σ'.InLoop T σ.m.cpu ∧ x.holds ↔ σ.InLoop T σ.m.cpu ∧ (stage σ.m.cpu).holds) :
    ∃ stage' owner' ws', Exclusion T σ' stage' owner' ws' := by
  obtain ⟨hsys, hbase⟩ := Machine.in_user hif hnext
  obtain ⟨-, hlocked, hwaits, -⟩ := Stage.of_user hcode
  refine ⟨_, _, _, h.programmed (x := x) (y := y) ?_ ?_ ?_ ?_ hworker ?_ ?_ hpc hrun ⟨hwaits, hlocked⟩
    (fun hin => ⟨(h.in_user hif hin).1, (h.in_user hif hin).2.1⟩) hholds⟩ <;> rw [hm]
  · exact h.sane
  · exact fun _ _ => rfl
  · exact hbase
  · exact hsys.trans hcode.symm

/-- The program makes a system call. -/
theorem calls {x : Stage} {y : Worker} {c : Syscall} (hs : σ.call c σ.m.cpu y = some σ')
    (hcode : x.code T.sem = [.sys c]) (hpc : y.pc = x.pc) (hx : x.waits = false ∧ x.locked = false)
    (hholds : σ'.InLoop T σ.m.cpu ∧ x.holds ↔ σ.InLoop T σ.m.cpu ∧ (stage σ.m.cpu).holds) :
    ∃ stage' owner' ws', Exclusion T σ' stage' owner' ws' := by
  obtain ⟨hsys, hbase⟩ := Machine.in_user hif hnext
  obtain ⟨m', hstep, rfl⟩ := Option.map_eq_some_iff.mp hs
  have hsane := h.sane.step hstep (by simp [Machine.stepActs]) (by simp [Machine.stepActs])
  obtain ⟨-, -, -, rfl⟩ := Machine.step_syscall hstep
  refine ⟨_, _, _, h.programmed (x := x) (y := y) rfl rfl hsane (fun v hv => ?_) rfl ?_ ?_ (fun _ => hpc) hrun
    hx (fun hin => ⟨(h.in_user hif hin).1, (h.in_user hif hin).2.1⟩) hholds⟩
  · exact Function.update_of_ne hv ..
  · rw [show ((σ.m.enter [.sys c]).threads σ.m.cpu) = _ from Function.update_self ..]
    exact hbase
  · rw [show ((σ.m.enter [.sys c]).threads σ.m.cpu) = _ from Function.update_self .., hcode]

end User

/-- **A step of the program** of the running process. -/
theorem user (h : Exclusion T σ stage owner ws) (hmem : σ.m.cpu ∈ T.members)
    (hif : σ.m.interruptsEnabled) (hnext : (σ.m.next matches some .user) = true)
    (hs : σ.userStep T σ.m.cpu = some σ') : ∃ stage' owner' ws', Exclusion T σ' stage' owner' ws' := by
  have hin : σ.InLoop T σ.m.cpu ↔
      (σ.worker σ.m.cpu).pc ≠ .start ∧ (σ.worker σ.m.cpu).pc ≠ .done := and_iff_right hmem
  have hin' : ∀ y, σ'.worker = Function.update σ.worker σ.m.cpu y →
      (σ'.InLoop T σ.m.cpu ↔ y.pc ≠ .start ∧ y.pc ≠ .done) := by
    intro y hy
    unfold SyncTest.InLoop
    rw [hy, Function.update_self]
    exact and_iff_right hmem
  have hholds := fun hi => (h.in_user hif hi).2.2
  have hrun := h.runs hif
  -- the program steps read and write only between `sem_wait` and `sem_post`, where it has the token
  cases SyncTest.userStep_cases hs with
  | starts hpc hcur =>
      refine h.goesOn (x := .loop) hif hnext hcur rfl rfl rfl (fun _ => rfl) ?_
      simp [hin, hpc, Stage.holds]
  | ends hpc _ =>
      have hloop : σ.InLoop T σ.m.cpu := hin.mpr (by simp [hpc])
      refine h.goesOn (x := .loop) hif hnext (hrun hloop) rfl rfl rfl (fun hi => ?_) ?_
      · simp [hin' _ rfl] at hi
      · rw [hholds hloop, hpc]
        simp [hloop, Stage.holds]
  | reads hpc =>
      have hloop : σ.InLoop T σ.m.cpu := hin.mpr (by simp [hpc])
      refine h.goesOn (x := .yield) hif hnext (hrun hloop) rfl rfl rfl (fun _ => rfl) ?_
      rw [hholds hloop, hpc]
      simp [hin' _ rfl, hloop, Stage.holds]
  | writes hpc =>
      have hloop : σ.InLoop T σ.m.cpu := hin.mpr (by simp [hpc])
      refine h.goesOn (x := .post) hif hnext (hrun hloop) rfl rfl rfl (fun _ => rfl) ?_
      rw [hholds hloop, hpc]
      simp [hin' _ rfl, hloop, Stage.holds]
  | waits hpc _ hs hworker =>
      have hloop : σ.InLoop T σ.m.cpu := hin.mpr (by simp [hpc])
      refine h.calls (x := .waitSys) hif hnext (hrun hloop) hs rfl rfl ⟨rfl, rfl⟩ ?_
      rw [hholds hloop, hpc]
      simp [hin' _ hworker, hloop, Stage.holds]
  | yields hpc hs hworker =>
      have hloop : σ.InLoop T σ.m.cpu := hin.mpr (by simp [hpc])
      refine h.calls (x := .yieldSys) hif hnext (hrun hloop) hs rfl rfl ⟨rfl, rfl⟩ ?_
      rw [hholds hloop, hpc]
      simp [hin' _ hworker, hloop, Stage.holds]
  | posts hpc hs hworker =>
      have hloop : σ.InLoop T σ.m.cpu := hin.mpr (by simp [hpc])
      refine h.calls (x := .postSys) hif hnext (hrun hloop) hs rfl rfl ⟨rfl, rfl⟩ ?_
      rw [hholds hloop, hpc]
      simp [hin' _ hworker, hloop, Stage.holds]

/-! ## Every step -/

/-- **Step lemma.** -/
theorem step (hT : T.Proper) (hsem : T.sem ≠ 0) (h : Exclusion T σ stage owner ws) {a : SyncAction}
    (hg : Undisturbed T σ a) (hs : σ.step T a = some σ') :
    ∃ stage' owner' ws', Exclusion T σ' stage' owner' ws' := by
  cases a with
  | user =>
      obtain ⟨⟨hmem, hif, hnext⟩, hs⟩ := Option.ite_none_right_eq_some.mp hs
      exact h.user hmem hif hnext hs
  | kernel a =>
      obtain ⟨hfree, hs⟩ := Option.ite_none_left_eq_some.mp hs
      obtain ⟨m', hm, rfl⟩ := Option.map_eq_some_iff.mp hs
      by_cases hown : a = .exec ∧ σ.InLoop T σ.m.cpu
      · obtain ⟨rfl, hin⟩ := hown
        exact h.own hT hsem hin hm
      · obtain ⟨halone, hsame⟩ := hg hown
        refine ⟨_, _, _, h.disturbed hT hm (fun hin => ?_) halone hsame⟩
        cases a with
        | exec => exact absurd ⟨rfl, hin⟩ hown
        | tick => rfl
        | _ => exact absurd ⟨hin, by simp⟩ hfree

/-- Who is past its `semWait` owns the token. -/
theorem holds_of_pc (h : Exclusion T σ stage owner ws) {w : Addr} (hw : w ∈ T.members)
    (hpc : (σ.worker w).pc ∈ [.yield, .write, .post]) : σ.InLoop T w ∧ (stage w).holds := by
  have hin : σ.InLoop T w := by
    refine ⟨hw, ?_, ?_⟩ <;>
    · intro he
      simp [he] at hpc
  refine ⟨hin, ?_⟩
  rw [(h.member w hin).pc] at hpc
  cases hst : stage w <;> first | rfl | (rw [hst] at hpc; simp [Stage.pc] at hpc)

/-- **Mutual exclusion.** -/
theorem exclusive (h : Exclusion T σ stage owner ws) {u w : Addr} (hu : σ.InCritical T u)
    (hw : σ.InCritical T w) : u = w := by
  have hholds : ∀ x, σ.InCritical T x → σ.InLoop T x ∧ (stage x).holds := by
    rintro x ⟨hx, hcrit⟩
    split at hcrit
    · next hpc =>
      have hin : σ.InLoop T x := ⟨hx, by simp [hpc], by simp [hpc]⟩
      have hm := h.member x hin
      obtain ⟨-, -, -, hholds⟩ := Stage.of_user (hm.sys.symm.trans hcrit)
      refine ⟨hin, ?_⟩
      rw [hholds, ← hm.pc, hpc]
      rfl
    · next hpc => exact h.holds_of_pc hx (by simp [hpc])
    · next hpc => exact h.holds_of_pc hx (by simp [hpc])
    · next hpc => exact h.holds_of_pc hx (by simp [hpc])
    · cases hcrit
    · cases hcrit
    · cases hcrit
  obtain ⟨hin, hu'⟩ := hholds u hu
  obtain ⟨hin', hw'⟩ := hholds w hw
  exact h.unique hin hin' hu' hw'

end Exclusion

/-! ## The value -/

/-- The increments the process has written. -/
def Worker.written (x : Worker) : Nat := x.i + if x.pc = .post then 1 else 0

/-- The value is the start value and what has been written; who is between its read and its write has
    read the present value. -/
structure Values (T : Team) (v : BitVec 64) (σ : SyncTest) : Prop where
  value : σ.value = v + ∑ w ∈ T.members, (σ.worker w).written • T.delta w
  read : ∀ w ∈ T.members, (σ.worker w).pc = .yield ∨ (σ.worker w).pc = .write →
    (σ.worker w).tmp = σ.value
  bound : ∀ w ∈ T.members, (σ.worker w).i ≤ T.iterations w ∧
    ((σ.worker w).pc ∈ [.read, .yield, .write, .post] → (σ.worker w).i < T.iterations w) ∧
    ((σ.worker w).pc = .done → (σ.worker w).i = T.iterations w)

namespace Values

variable {T : Team} {v : BitVec 64} {σ σ' : SyncTest} {stage : Addr → Stage} {owner : Option Addr}
  {ws : List Addr} {w : Addr}

/-- The process `w` goes on with the variables `y`, and adds `d` to the value. -/
theorem goesOn (h : Values T v σ) (hw : w ∈ T.members) {y : Worker} {d : BitVec 64}
    (hworker : σ'.worker = Function.update σ.worker w y) (hvalue : σ'.value = σ.value + d)
    (hwritten : y.written • T.delta w = (σ.worker w).written • T.delta w + d)
    (hread : y.pc = .yield ∨ y.pc = .write → y.tmp = σ'.value)
    (hothers : d = 0 ∨ ∀ u ∈ T.members, u ≠ w →
      ¬ ((σ.worker u).pc = .yield ∨ (σ.worker u).pc = .write))
    (hbound : y.i ≤ T.iterations w ∧
      (y.pc ∈ [.read, .yield, .write, .post] → y.i < T.iterations w) ∧
      (y.pc = .done → y.i = T.iterations w)) : Values T v σ' := by
  have hself : σ'.worker w = y := by
    rw [hworker, Function.update_self]
  have hother : ∀ u, u ≠ w → σ'.worker u = σ.worker u := fun u hu => by
    rw [hworker, Function.update_of_ne hu]
  refine ⟨?_, fun u hu hpc => ?_, fun u hu => ?_⟩
  · have hrest : ∑ u ∈ T.members.erase w, (σ'.worker u).written • T.delta u =
        ∑ u ∈ T.members.erase w, (σ.worker u).written • T.delta u :=
      Finset.sum_congr rfl fun u hu => by rw [hother u (Finset.ne_of_mem_erase hu)]
    rw [hvalue, h.value, ← Finset.add_sum_erase T.members _ hw,
      ← Finset.add_sum_erase T.members (fun u => (σ'.worker u).written • T.delta u) hw, hrest, hself,
      hwritten]
    ac_rfl
  · by_cases huw : u = w
    · subst huw
      rw [hself] at hpc ⊢
      exact hread hpc
    · rw [hother u huw] at hpc ⊢
      rcases hothers with hd | hnone
      · rw [hvalue, hd, add_zero]
        exact h.read u hu hpc
      · exact absurd hpc (hnone u hu huw)
  · by_cases huw : u = w
    · subst huw
      rw [hself]
      exact hbound
    · rw [hother u huw]
      exact h.bound u hu

/-- **A step of the program.** -/
theorem user (h : Values T v σ) (hx : Exclusion T σ stage owner ws) (hmem : w ∈ T.members)
    (hs : σ.userStep T w = some σ') : Values T v σ' := by
  obtain ⟨hle, hlt, -⟩ := h.bound w hmem
  cases SyncTest.userStep_cases hs with
  | starts hpc _ =>
      refine h.goesOn (d := 0) hmem rfl (BitVec.add_zero _).symm ?_ (by simp) (.inl rfl) ?_
      · simp [Worker.written, hpc]
      · simpa using hle
  | waits hpc hi _ hworker hvalue =>
      refine h.goesOn (d := 0) hmem hworker (hvalue.trans (BitVec.add_zero _).symm) ?_ (by simp) (.inl rfl) ?_
      · simp [Worker.written, hpc]
      · exact ⟨hle, fun _ => hi, by simp⟩
  | ends hpc hi =>
      refine h.goesOn (d := 0) hmem rfl (BitVec.add_zero _).symm ?_ (by simp) (.inl rfl) ?_
      · simp [Worker.written, hpc]
      · exact ⟨hle, by simp, fun _ => Nat.le_antisymm hle (Nat.le_of_not_lt hi)⟩
  | reads hpc =>
      refine h.goesOn (d := 0) hmem rfl (BitVec.add_zero _).symm ?_ (fun _ => rfl) (.inl rfl) ?_
      · simp [Worker.written, hpc]
      · exact ⟨hle, fun _ => hlt (by simp [hpc]), by simp⟩
  | yields hpc _ hworker hvalue =>
      refine h.goesOn (d := 0) hmem hworker (hvalue.trans (BitVec.add_zero _).symm) ?_ (fun _ => ?_)
        (.inl rfl) ?_
      · simp [Worker.written, hpc]
      · exact (h.read w hmem (.inl hpc)).trans hvalue.symm
      · exact ⟨hle, fun _ => hlt (by simp [hpc]), by simp⟩
  | writes hpc =>
      refine h.goesOn (d := T.delta w) hmem rfl ?_ ?_ (by simp) (.inr fun u hu huw hupc => ?_) ?_
      · exact congrArg (· + T.delta w) (h.read w hmem (.inr hpc))
      · have hone : ({ σ.worker w with pc := .post } : Worker).written = (σ.worker w).written + 1 := by
          simp [Worker.written, hpc]
        rw [hone, succ_nsmul]
      · -- whoever is between its read and its write owns the token, and so does the writer
        have hloop : ∀ u ∈ T.members, (σ.worker u).pc = .yield ∨ (σ.worker u).pc = .write →
            σ.InLoop T u ∧ (stage u).holds := by
          intro u hu hpc
          refine hx.holds_of_pc hu ?_
          rcases hpc with hpc | hpc <;> simp [hpc]
        obtain ⟨hin, hholds⟩ := hloop u hu hupc
        obtain ⟨hin', hholds'⟩ := hloop w hmem (.inr hpc)
        exact huw (hx.unique hin hin' hholds hholds')
      · exact ⟨hle, fun _ => hlt (by simp [hpc]), by simp⟩
  | posts hpc _ hworker hvalue =>
      refine h.goesOn (d := 0) hmem hworker (hvalue.trans (BitVec.add_zero _).symm) ?_ (by simp) (.inl rfl) ?_
      · simp [Worker.written, hpc]
      · exact ⟨hlt (by simp [hpc]), by simp, by simp⟩

end Values

/-! ## Every run -/

/-- At boot. -/
theorem Sane.boot {memAnswers : Nat → Option Addr} (hmem : ∀ n, (memAnswers n).isSome) :
    Sane (Boot.machine memAnswers) := by
  refine ⟨⟨fun i => Option.some_ne_none _, hmem⟩, (SchedInv.boot memAnswers).placed, ?_,
    Stacks.boot memAnswers⟩
  rintro ⟨i, hi⟩
  rw [show entries (Boot.machine memAnswers).k i = _ from entries_boot memAnswers i] at hi
  split at hi
  · exact absurd (List.mem_singleton.mp hi) (by decide)
  · cases hi

/-- **The machine is sane** in every run from boot in which memory lasts and idle is left alone. -/
theorem Sane.reached {memAnswers : Nat → Option Addr} (hmem : ∀ n, (memAnswers n).isSome)
    {as : List Action} {m : Machine}
    (h : GuardedRun Machine.step (LeavesAlone (· = Boot.idle)) (Boot.machine memAnswers) as m) :
    Sane m := by
  refine h.invariant Sane (fun s a s' hsane hg hs => ?_) (.boot hmem)
  exact hsane.step hs (fun act hact => hg.spares act hact _ rfl) hg.fresh

/-- **The counter.** From a state with the semaphore as `sem_init` leaves it with count 1, and no process
    of the team in its loop yet. -/
theorem counter_exclusive {T : Team} (hT : T.Proper) (hsem : T.sem ≠ 0)
    {memAnswers : Nat → Option Addr} (hmem : ∀ n, (memAnswers n).isSome)
    {as : List Action} {m : Machine}
    (hboot : GuardedRun Machine.step (LeavesAlone (· = Boot.idle)) (Boot.machine memAnswers) as m)
    (hopened : (m.k.sem T.sem).count = 1 ∧ (m.k.sem T.sem).waitingProcesses = some [] ∧
      (m.k.sem T.sem).lock = false) {v : BitVec 64} {bs : List SyncAction} {σ : SyncTest}
    (hrun : GuardedRun (SyncTest.step T) (Undisturbed T) (.start m v) bs σ) :
    (∀ u w, σ.InCritical T u → σ.InCritical T w → u = w) ∧
      ((∀ w ∈ T.members, (σ.worker w).pc = .done) →
        σ.value = v + ∑ w ∈ T.members, T.iterations w • T.delta w) := by
  have hout : ∀ w, ¬ (SyncTest.start m v).InLoop T w := fun w hw => hw.2.1 rfl
  have hinv : (∃ stage owner ws, Exclusion T σ stage owner ws) ∧ Values T v σ := by
    -- the sum is carried along: each process adds its delta once for every iteration behind it
    refine hrun.invariant (fun σ => (∃ stage owner ws, Exclusion T σ stage owner ws) ∧ Values T v σ) ?_ ?_
    · rintro σ a σ' ⟨⟨stage, owner, ws, hx⟩, hv⟩ hg hs
      refine ⟨hx.step hT hsem hg hs, ?_⟩
      cases a with
      | user =>
          obtain ⟨⟨hmem, -, -⟩, hs⟩ := Option.ite_none_right_eq_some.mp hs
          exact hv.user hx hmem hs
      | kernel a =>
          obtain ⟨-, hs⟩ := Option.ite_none_left_eq_some.mp hs
          obtain ⟨m', -, rfl⟩ := Option.map_eq_some_iff.mp hs
          exact ⟨hv.value, hv.read, hv.bound⟩
    · obtain ⟨hcount, hqueue, hlock⟩ := hopened
      refine ⟨⟨fun _ => .loop, none, [], Sane.reached hmem hboot, fun w hw => absurd hw (hout w), ?_⟩, ?_⟩
      · refine ⟨hqueue, fun w => ?_, List.nodup_nil, fun w => ?_, hcount, fun hne => absurd rfl hne,
          fun hl => ?_⟩
        · exact ⟨fun hm => absurd hm List.not_mem_nil, fun hw => absurd hw.1 (hout w)⟩
        · exact ⟨nofun, fun hw => absurd hw.1 (hout w)⟩
        · exact absurd (hlock.symm.trans hl) (by simp)
      · refine ⟨?_, fun w _ hpc => ?_, fun w _ => ?_⟩
        · simp [SyncTest.start, Worker.written]
        · simp [SyncTest.start] at hpc
        · simp [SyncTest.start]
  obtain ⟨⟨stage, owner, ws, hx⟩, hv⟩ := hinv
  refine ⟨fun u w hu hw => hx.exclusive hu hw, fun hdone => ?_⟩
  rw [hv.value]
  refine congrArg (v + ·) (Finset.sum_congr rfl fun w hw => ?_)
  rw [Worker.written, hdone w hw, (hv.bound w hw).2.2 (hdone w hw)]
  rfl

/-! ## A run -/

/-- The operation spares the processes that meet `P`. -/
def SchedAct.spares (P : Addr → Prop) [DecidablePred P] : SchedAct → Bool
  | .block q | .unblock q | .exit q | .ready q | .fresh q => !decide (P q)
  | .setPriority _ _ => true

theorem SchedAct.Spares.of_spares {P : Addr → Prop} [DecidablePred P] {act : SchedAct}
    (h : act.spares P) : ∀ p, P p → act.Spares p := by
  intro p hp
  cases act <;> first | exact trivial | (rintro rfl; simp [SchedAct.spares, hp] at h)

/-- Idle is left alone: a new process object is not in the ready queue of its old priority. -/
def sparesIdle (m : Machine) (a : Action) : Bool :=
  (m.stepActs a).all fun act => act.spares (· = Boot.idle) &&
    match act with
    | .fresh q => decide (q ∉ entries m.k (priorityIndex (m.k.proc q).priority))
    | _ => true

theorem leavesAlone_of_sparesIdle {m : Machine} {a : Action} (hm : Sane m) (h : sparesIdle m a) :
    LeavesAlone (· = Boot.idle) m a := by
  have hall := List.all_eq_true.mp h
  refine ⟨fun act hact => .of_spares (Bool.and_eq_true_iff.mp (hall act hact)).1, fun q hq => ?_⟩
  obtain ⟨hspare, hnot⟩ := Bool.and_eq_true_iff.mp (hall _ hq)
  rintro ⟨i, hi⟩
  have hidle : m.k.idle ≠ some q := by
    rw [hm.owners.idle]
    exact fun he => SchedAct.Spares.of_spares hspare _ rfl (Option.some.inj he).symm
  rw [(hm.placed.entry i q hi hidle).2] at hi
  exact of_decide_eq_true hnot hi

deriving instance DecidableEq for Sem

/-- The team and its semaphore are left alone, and no process is made. -/
def sparesTeam (T : Team) (σ : SyncTest) : SyncAction → Bool
  | .kernel a =>
    (a matches .exec && decide (σ.InLoop T σ.m.cpu)) ||
      ((σ.m.stepActs a).all fun act => act.spares (fun p => p = Boot.idle ∨ σ.InLoop T p) &&
        !(act matches .fresh _)) &&
      decide ((σ.m.prepared a).sem T.sem = σ.m.k.sem T.sem)
  | .user => true

theorem undisturbed_of_sparesTeam {T : Team} {σ : SyncTest} {a : SyncAction} (h : sparesTeam T σ a) :
    Undisturbed T σ a := by
  cases a with
  | user => trivial
  | kernel a =>
      intro hown
      rcases Bool.or_eq_true_iff.mp h with h | h
      · obtain ⟨hexec, hin⟩ := Bool.and_eq_true_iff.mp h
        refine absurd ⟨?_, of_decide_eq_true hin⟩ hown
        cases a <;> first | rfl | cases hexec
      · obtain ⟨hacts, hsem⟩ := Bool.and_eq_true_iff.mp h
        have hall := List.all_eq_true.mp hacts
        refine ⟨⟨fun act hact => .of_spares (Bool.and_eq_true_iff.mp (hall act hact)).1, fun q hq => ?_⟩,
          of_decide_eq_true hsem⟩
        cases (Bool.and_eq_true_iff.mp (hall _ hq)).2

/-- The shell opens a semaphore with one token and creates a child. -/
def openShared : List Action :=
  startShell ++
  .syscall (.semOpen ['s'] 1 true) :: List.replicate 2 .exec ++
  .syscall (.processCreate 0 0 false (KERNEL_BASE * 4)) :: List.replicate 45 .exec

/-- The two of them add 5 and 7. -/
def pair : Team where
  sem := KERNEL_BASE + 114
  members := {KERNEL_BASE + 100, KERNEL_BASE + 118}
  iterations _ := 1
  delta w := if w = KERNEL_BASE + 100 then 5 else 7

/-- The shell yields in `slow_increment`, and the child waits for the semaphore. -/
def bothAdd : List SyncAction :=
  let steps (n : Nat) := List.replicate n (SyncAction.kernel .exec)
  let ticks := List.replicate 4 (SyncAction.kernel .tick)
  let user := List.replicate 2 SyncAction.user
  user ++ steps 5 ++ user ++ steps 4 ++ user ++ steps 12 ++ user ++ steps 4 ++ [.user] ++ ticks ++
    steps 7 ++ user ++ steps 3 ++ ticks ++ steps 7 ++ user ++ steps 4 ++ [.user]

set_option maxRecDepth 100000 in
theorem counter_exclusive_pair : ∃ m σ,
    GuardedRun (SyncTest.step pair) (Undisturbed pair) (.start m 0) bothAdd σ ∧ σ.value = 12 := by
  obtain ⟨m, hm, hrest⟩ := (Option.any_eq_true (fun m : Machine =>
      decide ((m.k.sem pair.sem).count = 1) &&
      decide ((m.k.sem pair.sem).waitingProcesses = some []) && !(m.k.sem pair.sem).lock &&
      (GuardedRun.check (SyncTest.step pair) (fun σ a => sparesTeam pair σ a) (.start m 0) bothAdd).any
        fun σ : SyncTest => decide (∀ w ∈ pair.members, (σ.worker w).pc = .done))
    (GuardedRun.check Machine.step (fun m a => sparesIdle m a) (Boot.machine freshBlocks)
      openShared)).mp (by decide +kernel)
  simp only [Bool.and_eq_true, decide_eq_true_eq, Bool.not_eq_true'] at hrest
  obtain ⟨⟨⟨hcount, hqueue⟩, hlock⟩, hteam⟩ := hrest
  obtain ⟨σ, hσ, hdone⟩ := (Option.any_eq_true _ _).mp hteam
  have hboot : GuardedRun Machine.step (LeavesAlone (· = Boot.idle)) (Boot.machine freshBlocks) openShared m := by
    refine (GuardedRun.of_check hm).strengthen Sane (fun s a s' hsane hg hs => ?_)
      (Sane.boot (show ∀ n, (freshBlocks n).isSome from fun _ => rfl))
    have halone := leavesAlone_of_sparesIdle hsane hg
    exact ⟨halone, hsane.step hs (fun act hact => halone.spares act hact _ rfl) halone.fresh⟩
  have hrun := (GuardedRun.of_check hσ).mono fun _ _ h => undisturbed_of_sparesTeam h
  have hproper : pair.Proper := by
    unfold Team.Proper
    decide
  refine ⟨m, σ, hrun, ((counter_exclusive hproper (by decide) (fun _ => rfl) hboot ⟨hcount, hqueue, hlock⟩
    hrun).2 (of_decide_eq_true hdone)).trans (by decide)⟩

end TpSo
