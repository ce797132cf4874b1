import TpSo.Machine.Uninterrupted
import TpSo.Sem.Waiters
import TpSo.SharedCounter.Stage

set_option autoImplicit false

/-! # Mutual exclusion

Every step of the system keeps the invariant: steps of others, the stretches of `sem_wait`,
`process_yield` and `sem_post`, and the steps of the program. So at most one process is between
`semWait` and `semPost`, and `shared_value` is the sum of what all have added. -/

namespace TpSo

namespace Exclusion

variable {T : Team} {σ : SyncTest} {stage : Addr → Stage} {owner : Option Addr} {ws : List Addr}
  {m' : Machine}

/-! ## Steps of others, and ticks -/

/-- A step that is none of a process in its loop. -/
theorem disturbed (hT : T.Proper) (h : Exclusion T σ stage owner ws) {a : Action}
    (hs : σ.m.step a = some m') (hown : σ.InLoop T σ.m.cpu → a = .tick)
    (hg : LeavesAlone (fun p => p = Boot.idle ∨ σ.InLoop T p) σ.m a)
    (hsem : (σ.m.prepared a).sem T.sem = σ.m.k.sem T.sem) :
    Exclusion T { σ with m := m' } stage owner ws := by
  have hacts := σ.m.prepared_acts a
  have hsane := h.sane.step hs (fun act hact => hg.spares act hact _ (.inl rfl)) hg.fresh
  have hseat : ∀ w, σ.InLoop T w → Seat (σ.m.prepared a) σ.m.cpu w (stage w).waits := fun w hw =>
    (h.member w hw).seat.spared hacts h.sane.lossless fun act hact => hg.spares act hact w (.inr hw)
  have hthreads : ∀ v, v ≠ σ.m.cpu → σ.InLoop T v → m'.threads v = σ.m.threads v := by
    intro v hv hin
    refine Machine.step_thread_of_ne hs hv fun hsp => ?_
    exact hg.spares _ (fresh_of_spawns hsp) v (.inr hin) rfl
  cases Machine.step_cases hs with
  | stays hno hk hcpu =>
      have hfree : ¬ σ.InLoop T σ.m.cpu := by
        intro hin
        cases hown hin
        exact hno trivial
      refine h.ran hcpu hsane hthreads (fun _ _ => rfl) (fun hin => absurd hin hfree) ?_ ?_
      · intro v _ hv
        refine ⟨.inl rfl, ?_⟩
        show Seat m'.k _ _ _
        rw [hk]
        exact hseat v hv
      · show Tokens (m'.k.sem T.sem) _ _ _ _
        rw [hk, hsem]
        exact h.tokens
  | switched _ hk hcpu =>
      have hself := @switched T σ { σ with m := m' } stage owner ws hT h _ _ (stage σ.m.cpu)
        rfl hk hcpu rfl hsane (hacts.lossless h.sane.lossless)
        (hacts.placed_of_fresh h.sane.placed fun q hq => ⟨fresh_alone hq, hg.fresh q hq⟩)
        (hacts.idle_not_queued h.sane.owners.idle (fun act hact => hg.spares act hact _ (.inl rfl))
          h.sane.idle) hsem hseat (fun v hv hne => hthreads v hne hv) ?_
      · rwa [Function.update_eq_self] at hself
      · intro hin
        cases hown hin
        obtain ⟨hif, rfl⟩ := Machine.step_tick hs
        have hm := h.member _ hin
        have hsys : (σ.m.threads σ.m.cpu).sys = [] := by
          simpa [Machine.interruptsEnabled, Machine.thread] using hif
        obtain ⟨hon, hlocked, -, -⟩ := Stage.of_user (hm.sys.symm.trans hsys)
        exact ⟨hm.base, hm.sys, rfl, rfl, rfl, hlocked, hlocked, hon⟩

/-! ## The running process executes its system call -/

/-- **The rule for an instruction** of the running process: it comes to the stage `x`. -/
theorem executes (h : Exclusion T σ stage owner ws) (hin : σ.InLoop T σ.m.cpu) {i : Instr}
    (rest : List Instr) (hcode : (stage σ.m.cpu).code T.sem = i :: rest) (hi : i ≠ .int20)
    (hno : ∀ args use, i ≠ .createProcess args use) (hs : σ.m.step .exec = some m')
    {stage' : Addr → Stage} {owner' : Option Addr} {ws' : List Addr}
    (hnew : (exec σ.m.k σ.m.thread.regs i).code ++ rest = (stage' σ.m.cpu).code T.sem)
    (hpc : (stage' σ.m.cpu).pc = (stage σ.m.cpu).pc) (has : stage' σ.m.cpu ≠ .waitAsleep)
    (hidle : ∀ act ∈ schedActs σ.m.k i, act.Spares Boot.idle ∧ ∀ q, act ≠ .fresh q)
    (hseat : Seat (exec σ.m.k σ.m.thread.regs i).k σ.m.cpu σ.m.cpu (stage' σ.m.cpu).waits)
    (hother : ∀ v, v ≠ σ.m.cpu → σ.InLoop T v →
      (stage' v = stage v ∨ stage v = .waitAsleep ∧ stage' v = .waitGiven) ∧
        Seat (exec σ.m.k σ.m.thread.regs i).k σ.m.cpu v (stage' v).waits)
    (htokens : Tokens ((exec σ.m.k σ.m.thread.regs i).k.sem T.sem) (σ.InLoop T) stage' owner' ws') :
    Exclusion T { σ with m := m' } stage' owner' ws' := by
  have hm := h.member _ hin
  have hsys : (σ.m.threads σ.m.cpu).sys = i :: rest := hm.sys.trans hcode
  have hnext : σ.m.next = some i := Machine.next_of_sys hsys
  have hacts : σ.m.stepActs .exec = schedActs σ.m.k i := by simp only [Machine.stepActs, hnext]
  have hspawned := spawned_eq_none σ.m.k σ.m.thread.regs hno
  have hspawn : (exec σ.m.k σ.m.thread.regs i).spawn = none := Option.map_eq_none_iff.mp hspawned
  have hsane : Sane m' := by
    refine h.sane.step hs (fun act hact => ?_) fun q hq => ?_
    · rw [hacts] at hact
      exact (hidle act hact).1
    · rw [hacts] at hq
      exact absurd rfl ((hidle _ hq).2 q)
  have hthreads : ∀ v, v ≠ σ.m.cpu → m'.threads v = σ.m.threads v := by
    intro v hv
    refine Machine.step_thread_of_ne hs hv ?_
    rintro ⟨j, ⟨-, hj⟩, hsp⟩
    cases hnext.symm.trans hj
    cases hspawned.symm.trans hsp
  obtain ⟨j, hj, -, rfl⟩ := Machine.step_exec hs
  cases hnext.symm.trans hj
  obtain ⟨hself, hbase⟩ := Machine.execInstr_self hsys hi hspawn
  have hk := σ.m.execInstr_k hi
  have hcpu := σ.m.execInstr_cpu hi
  refine h.ran hcpu hsane (fun v hv _ => hthreads v hv) (fun _ _ => rfl) (fun _ => ?_) ?_ ?_
  · refine ⟨?_, hself.trans hnew, hm.pc.trans hpc.symm, ?_, fun _ => hcpu, fun h => absurd h has⟩
    · show ∃ rest, ((σ.m.execInstr i).threads σ.m.cpu).base = _
      rw [hbase]
      exact hm.base
    · show Seat (σ.m.execInstr i).k (σ.m.execInstr i).cpu _ _
      rw [hk, hcpu]
      exact hseat
  · intro v hv hvin
    obtain ⟨hstage, hs'⟩ := hother v hv hvin
    refine ⟨hstage, ?_⟩
    show Seat (σ.m.execInstr i).k _ _ _
    rw [hk]
    exact hs'
  · show Tokens ((σ.m.execInstr i).k.sem T.sem) _ _ _ _
    rw [hk]
    exact htokens

/-- An instruction that the scheduler does not see and that moves no token. -/
theorem moves (h : Exclusion T σ stage owner ws) (hin : σ.InLoop T σ.m.cpu) {i : Instr} {rest : List Instr}
    (hcode : (stage σ.m.cpu).code T.sem = i :: rest) (hi : i ≠ .int20)
    (hno : ∀ args use, i ≠ .createProcess args use) (hs : σ.m.step .exec = some m') {x : Stage}
    (hnew : (exec σ.m.k σ.m.thread.regs i).code ++ rest = x.code T.sem)
    (hpc : x.pc = (stage σ.m.cpu).pc) (hwaits : (stage σ.m.cpu).waits = false ∧ x.waits = false)
    (hholds : x.holds = (stage σ.m.cpu).holds) (hacts : schedActs σ.m.k i = [])
    (hsame : SameSched σ.m.k (exec σ.m.k σ.m.thread.regs i).k)
    (hq : ((exec σ.m.k σ.m.thread.regs i).k.sem T.sem).waitingProcesses =
      (σ.m.k.sem T.sem).waitingProcesses)
    (hc : ((exec σ.m.k σ.m.thread.regs i).k.sem T.sem).count = (σ.m.k.sem T.sem).count)
    (hlock : ((exec σ.m.k σ.m.thread.regs i).k.sem T.sem).lock → x.locked) :
    Exclusion T { σ with m := m' } (Function.update stage σ.m.cpu x) owner ws := by
  have hseat : ∀ v, σ.InLoop T v →
      Seat (exec σ.m.k σ.m.thread.regs i).k σ.m.cpu v (stage v).waits := fun v hv =>
    (h.member v hv).seat.congr (hsame.state v) (hsame.rsp v) hsame.current
      fun _ hq => (hsame.queued v).mpr hq
  refine h.executes hin _ hcode hi hno hs ?_ ?_ ?_ ?_ ?_ (fun v hv hvin => ?_)
    (h.tokens.relabel hq hc (fun hl => ⟨hin, hlock hl⟩) (fun _ _ => Iff.rfl) ?_ ?_)
  · rw [Function.update_self]
    exact hnew
  · rw [Function.update_self]
    exact hpc
  · rw [Function.update_self]
    rintro rfl
    cases hwaits.2
  · rw [hacts]
    exact fun act hact => absurd hact List.not_mem_nil
  · rw [Function.update_self, hwaits.2, ← hwaits.1]
    exact hseat _ hin
  · rw [Function.update_of_ne hv]
    exact ⟨.inl rfl, hseat v hvin⟩
  · rw [hwaits.1, hwaits.2]
  · rw [hholds]

/-- `process_yield` leaves the rest of the quantum unused. -/
theorem yields (h : Exclusion T σ stage owner ws) (hin : σ.InLoop T σ.m.cpu) {rest : List Instr}
    (hcode : (stage σ.m.cpu).code T.sem = .processYield :: rest) (hs : σ.m.step .exec = some m')
    {x : Stage} (hnew : .int20 :: rest = x.code T.sem) (hpc : x.pc = (stage σ.m.cpu).pc)
    (hwaits : (stage σ.m.cpu).waits = false ∧ x.waits = false)
    (hholds : x.holds = (stage σ.m.cpu).holds) (hlocked : (stage σ.m.cpu).locked = false) :
    Exclusion T { σ with m := m' } (Function.update stage σ.m.cpu x) owner ws := by
  have hcur := ((h.member _ hin).seat.on rfl).1
  have hexec : exec σ.m.k σ.m.thread.regs .processYield =
      { k := σ.m.k.modProc σ.m.cpu Process.endQuantum, r := σ.m.thread.regs, code := [.int20] } := by
    simp only [exec, hcur]
  refine h.moves hin hcode (by simp) (by simp) hs ?_ hpc hwaits hholds rfl ?_ ?_ ?_ ?_ <;> rw [hexec]
  · exact hnew
  · exact .modProc _ _ _ rfl rfl rfl
  · rfl
  · rfl
  · intro hl
    exact absurd ((h.unlocked fun _ => hlocked).symm.trans hl) (by simp)

/-- `int 0x20`. -/
theorem leaves (hT : T.Proper) (h : Exclusion T σ stage owner ws) (hin : σ.InLoop T σ.m.cpu)
    {rest : List Instr} (hcode : (stage σ.m.cpu).code T.sem = .int20 :: rest)
    (hs : σ.m.step .exec = some m') {x : Stage} (hnew : rest = x.code T.sem)
    (hpc : x.pc = (stage σ.m.cpu).pc) (hwaits : x.waits = (stage σ.m.cpu).waits)
    (hholds : x.holds = (stage σ.m.cpu).holds)
    (hlocked : (stage σ.m.cpu).locked = false ∧ x.locked = false) (hon : x.onCpu = false) :
    Exclusion T { σ with m := m' } (Function.update stage σ.m.cpu x) owner ws := by
  have hm := h.member _ hin
  have hsys : (σ.m.threads σ.m.cpu).sys = .int20 :: rest := hm.sys.trans hcode
  have hnext : σ.m.next = some .int20 := Machine.next_of_sys hsys
  have hacts : σ.m.stepActs .exec = [] := by
    simp only [Machine.stepActs, hnext]
    rfl
  have hprep : σ.m.prepared .exec = σ.m.k := by
    simp only [Machine.prepared, hnext]
    rfl
  have hsane : Sane m' := by
    refine h.sane.step hs ?_ ?_ <;> simp [hacts]
  obtain ⟨i, hi, -, rfl⟩ := Machine.step_exec hs
  cases hnext.symm.trans hi
  have hthreads : ∀ v, (σ.m.execInstr .int20).threads v = if v = σ.m.cpu then σ.m.advance [] else
      σ.m.threads v := fun v => Function.update_apply ..
  have hadvance : σ.m.advance [] = { σ.m.thread with sys := rest } := by
    unfold Machine.advance Machine.thread
    rw [hsys]
    rfl
  refine @switched T σ { σ with m := σ.m.execInstr .int20 } stage owner ws hT h _ _ _ hprep.symm rfl rfl rfl hsane
    h.sane.lossless h.sane.placed h.sane.idle rfl (fun w hw => (h.member w hw).seat) ?_ fun _ => ?_
  · intro v _ hv
    exact (hthreads v).trans (if_neg hv)
  · have hself := (hthreads σ.m.cpu).trans ((if_pos rfl).trans hadvance)
    refine ⟨?_, ?_, hpc, hwaits, hholds, hlocked.1, hlocked.2, hon⟩
    · show ∃ rest, ((σ.m.execInstr .int20).threads σ.m.cpu).base = _
      rw [hself]
      exact hm.base
    · show ((σ.m.execInstr .int20).threads σ.m.cpu).sys = _
      rw [hself]
      exact hnew

/-! ## `sem_wait` and `sem_post` under the lock -/

/-- `sem_wait` finds the token. -/
theorem takes (h : Exclusion T σ stage owner ws) (hin : σ.InLoop T σ.m.cpu)
    (hstage : stage σ.m.cpu = .waitLocked) (hs : σ.m.step .exec = some m')
    (hcount : (σ.m.k.sem T.sem).count ≠ 0) :
    Exclusion T { σ with m := m' } (Function.update stage σ.m.cpu .waitGiven) (some σ.m.cpu) ws := by
  have hfree : owner = none := by
    cases ho : owner with
    | none => rfl
    | some w =>
        refine absurd h.tokens.count ?_
        rw [ho]
        exact hcount
  have hbody : semWaitBody σ.m.k T.sem = (0, false, σ.m.k.modSem T.sem Sem.takeToken) := by
    unfold semWaitBody
    rw [if_pos (Nat.pos_of_ne_zero hcount)]
  have hexec : (exec σ.m.k σ.m.thread.regs (.semWaitLocked T.sem)).k =
        σ.m.k.modSem T.sem Sem.takeToken ∧
      (exec σ.m.k σ.m.thread.regs (.semWaitLocked T.sem)).code = [.semWaitReturn T.sem 0] := by
    simp [exec, hbody]
  have hsem : (σ.m.k.modSem T.sem Sem.takeToken).sem T.sem = (σ.m.k.sem T.sem).takeToken :=
    Function.update_self ..
  have hseat : ∀ v, σ.InLoop T v → Seat (σ.m.k.modSem T.sem Sem.takeToken) σ.m.cpu v (stage v).waits :=
    fun v hv => (h.member v hv).seat.congr rfl rfl rfl fun _ hq => hq
  have hacts : schedActs σ.m.k (.semWaitLocked T.sem) = [] := if_pos (Nat.pos_of_ne_zero hcount)
  refine h.executes (i := .semWaitLocked T.sem) hin [] (by rw [hstage]; rfl) (by simp)
    (by simp) hs ?_ ?_ ?_ ?_ ?_ (fun v hv hvin => ?_) ?_
  · rw [hexec.2, Function.update_self]
    rfl
  · rw [Function.update_self, hstage]
    rfl
  · rw [Function.update_self]
    exact Stage.noConfusion
  · rw [hacts]
    exact fun act hact => absurd hact List.not_mem_nil
  · have hself := hseat _ hin
    rw [hstage] at hself
    rw [hexec.1, Function.update_self]
    exact hself
  · rw [hexec.1, Function.update_of_ne hv]
    exact ⟨.inl rfl, hseat v hvin⟩
  · rw [hexec.1, hsem]
    have hcount' : (σ.m.k.sem T.sem).count = 1 := by
      rw [h.tokens.count, hfree]
      rfl
    refine ⟨h.tokens.queue, fun v => ?_, h.tokens.once, fun v => ?_, ?_, fun _ => rfl, fun hl => ?_⟩
    · rw [h.tokens.waiting v]
      by_cases hv : v = σ.m.cpu
      · subst hv
        rw [Function.update_self, hstage]
        rfl
      · rw [Function.update_of_ne hv]
    · by_cases hv : v = σ.m.cpu
      · subst hv
        rw [Function.update_self]
        exact ⟨fun _ => ⟨hin, rfl⟩, fun _ => rfl⟩
      · rw [Function.update_of_ne hv, ← h.tokens.holds v, hfree]
        exact ⟨fun he => absurd (Option.some.inj he).symm hv, fun he => absurd he (by simp)⟩
    · simp [Sem.takeToken, hcount']
    · cases hl

/-- `sem_wait` finds no token: the process goes to the end of the queue. -/
theorem sleeps (hT : T.Proper) (h : Exclusion T σ stage owner ws) (hin : σ.InLoop T σ.m.cpu)
    (hstage : stage σ.m.cpu = .waitLocked) (hs : σ.m.step .exec = some m')
    (hcount : (σ.m.k.sem T.sem).count = 0) :
    Exclusion T { σ with m := m' } (Function.update stage σ.m.cpu .waitLeaves) owner
      (ws ++ [σ.m.cpu]) := by
  have hm := h.member _ hin
  obtain ⟨hcur, hrun⟩ := hm.seat.on rfl
  rw [hstage] at hrun
  have hrun' : (σ.m.k.proc σ.m.cpu).state ≠ .blocked := by
    rw [hrun]
    decide
  -- a count of 0 means that somebody in the loop has the token
  have hbusy : owner.isSome := by
    rw [← Bool.not_eq_false, ← Bool.not_eq_true]
    intro hno
    have hc := h.tokens.count
    rw [hcount, if_neg hno] at hc
    cases hc
  have hmoved : ((enqueueWaiter σ.m.k T.sem σ.m.cpu).proc σ.m.cpu).state ≠ .blocked := by
    rwa [(enqueueWaiter_same σ.m.k T.sem σ.m.cpu).state σ.m.cpu]
  have hcode : (exec σ.m.k σ.m.thread.regs (.semWaitLocked T.sem)).code =
      [.int20, .semWaitReturn T.sem 0] := by
    simp [exec, semWaitBody, hcount, hcur, processBlock, hmoved]
  have hacts : schedActs σ.m.k (.semWaitLocked T.sem) = [.block σ.m.cpu] := by
    simp only [schedActs, waitActs, hcount, hcur, gt_iff_lt, Nat.lt_irrefl, if_false]
    rfl
  have hsched := exec_acts σ.m.k σ.m.thread.regs (.semWaitLocked T.sem)
  rw [hacts] at hsched
  have hblocked : ((exec σ.m.k σ.m.thread.regs (.semWaitLocked T.sem)).k.proc σ.m.cpu).state = .blocked :=
    semWait_blocked σ.m.thread.regs hcount hcur
  have hsem : (exec σ.m.k σ.m.thread.regs (.semWaitLocked T.sem)).k.sem T.sem =
      { σ.m.k.sem T.sem with waitingProcesses := some (ws ++ [σ.m.cpu]), lock := false } := by
    rw [show (exec σ.m.k σ.m.thread.regs (.semWaitLocked T.sem)).k.sem = _ from
      sem_of_outside (semWaitBody_outside σ.m.k T.sem)]
    simp [Kernel.modSem, waitedSem, hcount, hcur, h.tokens.queue,
      queuePush_ok _ _ _ h.sane.lossless.allocOk]
  -- it cannot be in the queue twice: who waits is asleep, and this one runs
  have hnotWaiting : σ.m.cpu ∉ ws := by
    intro hmem
    have hw := ((h.tokens.waiting _).mp hmem).2
    rw [hstage] at hw
    cases hw
  refine h.executes (i := .semWaitLocked T.sem) hin [] (by rw [hstage]; rfl) (by simp)
    (by simp) hs ?_ ?_ ?_ ?_ ?_ (fun v hv hvin => ?_) ?_
  · rw [hcode, Function.update_self]
    rfl
  · rw [Function.update_self, hstage]
    rfl
  · rw [Function.update_self]
    exact Stage.noConfusion
  · rw [hacts]
    intro act hact
    cases List.mem_singleton.mp hact
    exact ⟨(hT _ hin.1).2, fun q hq => SchedAct.noConfusion hq⟩
  · rw [Function.update_self]
    exact ⟨fun _ => ⟨hsched.current.trans hcur, hblocked⟩, fun hne => absurd rfl hne⟩
  · rw [Function.update_of_ne hv]
    refine ⟨.inl rfl, (h.member v hvin).seat.spared hsched h.sane.lossless fun act hact => ?_⟩
    cases List.mem_singleton.mp hact
    exact Ne.symm hv
  · rw [hsem]
    refine ⟨rfl, fun v => ?_, ?_, fun v => ?_, h.tokens.count, fun _ => hbusy, fun hl => ?_⟩
    · rw [List.mem_append, List.mem_singleton, h.tokens.waiting v]
      by_cases hv : v = σ.m.cpu
      · subst hv
        rw [Function.update_self]
        exact ⟨fun _ => ⟨hin, rfl⟩, fun _ => .inr rfl⟩
      · rw [Function.update_of_ne hv]
        exact ⟨fun he => he.resolve_right hv, .inl⟩
    · exact List.nodup_append.mpr ⟨h.tokens.once, List.nodup_singleton _, fun a ha b hb hab =>
        hnotWaiting (List.mem_singleton.mp hb ▸ hab ▸ ha)⟩
    · rw [h.tokens.holds v]
      by_cases hv : v = σ.m.cpu
      · subst hv
        rw [Function.update_self, hstage]
        rfl
      · rw [Function.update_of_ne hv]
    · cases hl

/-- Where a process that waits is, seen from another process on the processor. -/
theorem waiter_asleep (h : Exclusion T σ stage owner ws) {v : Addr} (hv : v ∈ ws)
    (hne : v ≠ σ.m.cpu) : σ.InLoop T v ∧ stage v = .waitAsleep ∧ (σ.m.k.proc v).state = .blocked := by
  obtain ⟨hin, hwaits⟩ := (h.tokens.waiting v).mp hv
  have hstage : stage v = .waitAsleep := by
    rcases Stage.waits_cases hwaits with hs | hs
    · have hoff := h.not_onCpu hin hne
      rw [hs] at hoff
      cases hoff
    · exact hs
  have hstate := ((h.member v hin).seat.away (Ne.symm hne)).2.2.1
  rw [hwaits] at hstate
  exact ⟨hin, hstage, hstate⟩

section Post
variable (h : Exclusion T σ stage owner ws) (hin : σ.InLoop T σ.m.cpu)
  (hstage : stage σ.m.cpu = .postLocked) (hs : σ.m.step .exec = some m')

include h hin hstage hs

/-- `sem_post` finds nobody who waits. -/
theorem returns (hempty : ws = []) :
    Exclusion T { σ with m := m' } (Function.update stage σ.m.cpu .loop) none [] := by
  have hqueue := h.tokens.queue
  rw [hempty] at hqueue
  have hnobody : firstBlocked σ.m.k (waiters σ.m.k T.sem) = none := by
    rw [waiters, hqueue]
    rfl
  have howner : owner = some σ.m.cpu := (h.tokens.holds _).mpr ⟨hin, by rw [hstage]; rfl⟩
  have hcode : (exec σ.m.k σ.m.thread.regs (.semPostLocked T.sem)).code = [] := by
    simp [exec, semPostBody_fst, hnobody]
  have hsched := exec_acts σ.m.k σ.m.thread.regs (.semPostLocked T.sem)
  have hacts : schedActs σ.m.k (.semPostLocked T.sem) = [] := by
    simp only [schedActs, postActs, hnobody]
    rfl
  rw [hacts] at hsched
  have hsem : (exec σ.m.k σ.m.thread.regs (.semPostLocked T.sem)).k.sem T.sem =
      Sem.addToken (σ.m.k.sem T.sem) := by
    rw [show (exec σ.m.k σ.m.thread.regs (.semPostLocked T.sem)).k.sem = _ from
      sem_of_outside (semPostBody_outside σ.m.k T.sem)]
    simp only [Kernel.modSem, Function.update_self, postedSem, hnobody, hqueue, Option.map_some]
    rw [← hqueue]
  have hseat : ∀ v, σ.InLoop T v → Seat (exec σ.m.k σ.m.thread.regs (.semPostLocked T.sem)).k σ.m.cpu v
      (stage v).waits := fun v hv =>
    (h.member v hv).seat.spared hsched h.sane.lossless fun act hact => absurd hact List.not_mem_nil
  refine h.executes (i := .semPostLocked T.sem) hin [] (by rw [hstage]; rfl) (by simp)
    (by simp) hs ?_ ?_ ?_ ?_ ?_ (fun v hv hvin => ?_) ?_
  · rw [hcode, Function.update_self]
    rfl
  · rw [Function.update_self, hstage]
    rfl
  · rw [Function.update_self]
    exact Stage.noConfusion
  · rw [hacts]
    exact fun act hact => absurd hact List.not_mem_nil
  · have hself := hseat _ hin
    rw [hstage] at hself
    rw [Function.update_self]
    exact hself
  · rw [Function.update_of_ne hv]
    exact ⟨.inl rfl, hseat v hvin⟩
  · rw [hsem]
    -- the token it gives back was the only one, so the count comes to exactly 1
    have hcount : (σ.m.k.sem T.sem).count = 0 := by
      rw [h.tokens.count, howner]
      rfl
    refine ⟨hqueue, fun v => ?_, List.nodup_nil, fun v => ?_, ?_, fun hne => absurd rfl hne, fun hl => ?_⟩
    · have hwaiting := h.tokens.waiting v
      rw [hempty] at hwaiting
      by_cases hv : v = σ.m.cpu
      · subst hv
        rw [Function.update_self]
        exact ⟨fun hmem => absurd hmem List.not_mem_nil, fun hw => Bool.noConfusion hw.2⟩
      · rwa [Function.update_of_ne hv]
    · by_cases hv : v = σ.m.cpu
      · subst hv
        rw [Function.update_self]
        exact ⟨(by simp), fun hw => Bool.noConfusion hw.2⟩
      · rw [Function.update_of_ne hv, ← h.tokens.holds v, howner]
        exact ⟨(by simp), fun he => absurd (Option.some.inj he).symm hv⟩
    · simp [Sem.addToken, hcount]
    · cases hl

/-- **`sem_post` hands the token over** to the first process that waits. -/
theorem handsOver (hT : T.Proper) {v : Addr} {rest : List Addr} (hws : ws = v :: rest) : ∃ y,
    Exclusion T { σ with m := m' }
      (Function.update (Function.update stage σ.m.cpu y) v .waitGiven) (some v) rest := by
  have hqueue := h.tokens.queue
  have honce := h.tokens.once
  have hmem : v ∈ ws := by
    rw [hws]
    exact List.mem_cons_self
  have hvc : v ≠ σ.m.cpu := by
    rintro rfl
    have hw := ((h.tokens.waiting _).mp hmem).2
    rw [hstage] at hw
    cases hw
  obtain ⟨hvin, hvstage, hblocked⟩ := h.waiter_asleep hmem hvc
  rw [hws] at hqueue honce
  have hfirst : firstBlocked σ.m.k (waiters σ.m.k T.sem) = some v := by
    rw [waiters, hqueue]
    simp [firstBlocked, hblocked]
  have hrest : afterFirstBlocked σ.m.k (waiters σ.m.k T.sem) = rest := by
    rw [waiters, hqueue]
    simp [afterFirstBlocked, hblocked]
  have howner : owner = some σ.m.cpu := (h.tokens.holds _).mpr ⟨hin, by rw [hstage]; rfl⟩
  have hsched := exec_acts σ.m.k σ.m.thread.regs (.semPostLocked T.sem)
  have hacts : schedActs σ.m.k (.semPostLocked T.sem) = [.unblock v] := by
    simp only [schedActs, postActs, hfirst]
    rfl
  rw [hacts] at hsched
  have hspares : ∀ w, w ≠ v → ∀ act ∈ [SchedAct.unblock v], act.Spares w := by
    intro w hw act hact
    cases List.mem_singleton.mp hact
    exact Ne.symm hw
  have hsem : (exec σ.m.k σ.m.thread.regs (.semPostLocked T.sem)).k.sem T.sem =
      { σ.m.k.sem T.sem with waitingProcesses := some rest, lock := false } := by
    rw [show (exec σ.m.k σ.m.thread.regs (.semPostLocked T.sem)).k.sem = _ from
      sem_of_outside (semPostBody_outside σ.m.k T.sem)]
    simp only [Kernel.modSem, Function.update_self, postedSem, hfirst, hrest]
  -- the waiter is in a ready queue now
  have hwoken : Seat (exec σ.m.k σ.m.thread.regs (.semPostLocked T.sem)).k σ.m.cpu v false := by
    refine ⟨fun he => absurd he.symm hvc, fun hne => ?_⟩
    obtain ⟨hcur, hrsp, -, -⟩ := (h.member v hvin).seat.away hne
    obtain ⟨hstate, hrsp', hqueued⟩ := hsched.woken h.sane.lossless hblocked
    exact ⟨hsched.current ▸ hcur, hrsp'.trans hrsp, hstate, fun _ => hqueued⟩
  set y : Stage := if σ.m.k.timerMasked then .postYields else .loop with hy
  have hcode : (exec σ.m.k σ.m.thread.regs (.semPostLocked T.sem)).code = y.code T.sem := by
    rw [hy]
    simp only [exec, semPostBody_fst, hfirst, Option.isSome_some, true_and]
    cases σ.m.k.timerMasked <;> rfl
  have hyloop : y.pc = .loop ∧ y.waits = false ∧ y.holds = false ∧ y ≠ .waitAsleep := by
    rw [hy]
    cases σ.m.k.timerMasked <;> exact ⟨rfl, rfl, rfl, Stage.noConfusion⟩
  have hself : Function.update (Function.update stage σ.m.cpu y) v .waitGiven σ.m.cpu = y := by
    rw [Function.update_of_ne (Ne.symm hvc), Function.update_self]
  have hother : ∀ w, w ≠ σ.m.cpu → w ≠ v →
      Function.update (Function.update stage σ.m.cpu y) v .waitGiven w = stage w := fun w hwc hwv => by
    rw [Function.update_of_ne hwv, Function.update_of_ne hwc]
  refine ⟨y, h.executes (i := .semPostLocked T.sem) hin [] (by rw [hstage]; rfl) (by simp)
    (by simp) hs ?_ ?_ ?_ ?_ ?_ (fun w hwc hwin => ?_) ?_⟩
  · rw [hcode, hself, List.append_nil]
  · rw [hself, hyloop.1, hstage]
    rfl
  · rw [hself]
    exact hyloop.2.2.2
  · rw [hacts]
    intro act hact
    cases List.mem_singleton.mp hact
    exact ⟨(hT v hvin.1).2, fun q hq => SchedAct.noConfusion hq⟩
  · have hseat := (h.member _ hin).seat.spared hsched h.sane.lossless (hspares _ (Ne.symm hvc))
    rw [hstage] at hseat
    rw [hself, hyloop.2.1]
    exact hseat
  · by_cases hwv : w = v
    · subst hwv
      rw [Function.update_self]
      exact ⟨.inr ⟨hvstage, rfl⟩, hwoken⟩
    · rw [hother w hwc hwv]
      exact ⟨.inl rfl, (h.member w hwin).seat.spared hsched h.sane.lossless (hspares w hwv)⟩
  · rw [hsem]
    have hnot : v ∉ rest := (List.nodup_cons.mp honce).1
    refine ⟨rfl, fun w => ?_, (List.nodup_cons.mp honce).2, fun w => ?_, ?_, fun _ => rfl, fun hl => ?_⟩
    · have hwaiting := h.tokens.waiting w
      rw [hws, List.mem_cons] at hwaiting
      by_cases hwv : w = v
      · subst hwv
        rw [Function.update_self]
        exact ⟨fun hm => absurd hm hnot, fun hw => Bool.noConfusion hw.2⟩
      · by_cases hwc : w = σ.m.cpu
        · subst hwc
          rw [hself, hyloop.2.1]
          refine ⟨fun hm => ?_, fun hw => Bool.noConfusion hw.2⟩
          have hw := (hwaiting.mp (.inr hm)).2
          rw [hstage] at hw
          cases hw
        · rw [hother w hwc hwv, ← hwaiting]
          exact ⟨.inr, fun hm => hm.resolve_left hwv⟩
    · by_cases hwv : w = v
      · subst hwv
        rw [Function.update_self]
        exact ⟨fun _ => ⟨hvin, rfl⟩, fun _ => rfl⟩
      · by_cases hwc : w = σ.m.cpu
        · subst hwc
          rw [hself, hyloop.2.2.1]
          exact ⟨fun he => absurd (Option.some.inj he).symm hwv, fun hw => Bool.noConfusion hw.2⟩
        · rw [hother w hwc hwv, ← h.tokens.holds w, howner]
          exact ⟨fun he => absurd (Option.some.inj he).symm hwv,
            fun he => absurd (Option.some.inj he).symm hwc⟩
    · rw [h.tokens.count, howner]
      rfl
    · cases hl

end Post

end Exclusion

end TpSo
