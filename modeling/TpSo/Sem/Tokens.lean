import TpSo.Machine.Progress
import TpSo.Machine.Stacks
import TpSo.Sem.Ledger

set_option autoImplicit false

/-! # No `sem_wait` returns without a token

A process that finds no token is suspended with the 0 already in hand that its `sem_wait` will return.
The proof follows each call from the token it is given, by finding one or by a `sem_post`, to its
return: `Ledger` counts the tokens given and not yet returned. -/

namespace TpSo

/-! ## Calls in progress -/

namespace Machine

/-- On the stack `a` a `sem_wait` on `s` is in progress that will return 0. -/
def Pending (m : Machine) (a s : Addr) : Prop := ∃ i ∈ m.code a, i.returnsTo s = true

/-- The step executes the part of a `sem_post` on `s` under its lock. -/
def Posts (m : Machine) (a : Action) (s : Addr) : Prop := ∃ i, m.Executes a i ∧ PostsOn m.k i s

/-- The step initialises the semaphore at `s`. -/
def Inits (m : Machine) (a : Action) (s : Addr) : Prop :=
  ∃ i, m.Executes a i ∧ ∃ e ∈ (exec m.k m.thread.regs i).events, e.inits s ≠ none

end Machine

/-! ## The condition -/

/-- The process is `BLOCKED` or `TERMINATED`. -/
def Down (k : Kernel) (p : Addr) : Prop :=
  (k.proc p).state = .blocked ∨ (k.proc p).state = .terminated

/-- The step lets a process out of a `sem_wait` only with a token, and gives away no memory that a
    call in progress refers to. -/
structure HonoursWaits (m : Machine) (a : Action) : Prop where
  /-- A `BLOCKED` process in a `sem_wait` is woken by a `sem_post` on that semaphore only. -/
  woken : ∀ p s, .unblock p ∈ m.stepActs a → (m.k.proc p).state = .blocked → m.Pending p s → m.Posts a s
  /-- A `sem_wait` without a token is called by a current process other than idle, on its own stack,
      that is not `BLOCKED`, and not in such a call already if it is `TERMINATED`. -/
  called : ∀ s c, m.Executes a (.semWaitLocked s) → (m.k.sem s).count = 0 → m.k.current = some c →
    m.cpu = c ∧ c ≠ 0 ∧ c ≠ Boot.idle ∧ (m.k.proc c).state ≠ .blocked ∧
      ((m.k.proc c).state = .terminated → ∀ t, ¬ m.Pending c t)
  /-- `schedule_tick` does not fall back to idle on the stack of a process suspended in such a call. -/
  notTakenOver : m.switches a → NothingToRun (m.prepared a) m.cpu → Down (m.prepared a) m.cpu →
    ∀ s, ¬ m.Pending m.cpu s
  /-- A new process is not made ready with such a call on its stack. -/
  readied : ∀ p s, .ready p ∈ m.stepActs a → ¬ m.Pending p s
  /-- A process object is made where such a call was left only if its stack is made anew too. -/
  rebuilt : ∀ p s, .fresh p ∈ m.stepActs a → m.Pending p s → m.Spawns a p
  /-- A semaphore is not initialised while such a call on it is in progress. -/
  renewed : ∀ s, m.Inits a s → ∀ p, ¬ m.Pending p s
  /-- `sem_set_value` does not raise the count without a `sem_post`. -/
  lowered : ∀ s v, m.Executes a (.semStoreValue s v) → v ≤ (m.k.sem s).count

/-! ## Suspended processes -/

/-- Scheduler operations that neither wake nor make a process leave it down. -/
theorem SchedActs.down {k k' : Kernel} {as : List SchedAct} (h : SchedActs k as k') {p : Addr}
    (hp : Down k p) (hu : .unblock p ∉ as) (hr : .ready p ∉ as) (hf : .fresh p ∉ as) : Down k' p := by
  induction h with
  | done hs => exact hp.imp (hs.state p).trans (hs.state p).trans
  | act hs ha _ ih =>
      refine ih ?_ (fun h => hu (.tail _ h)) (fun h => hr (.tail _ h)) fun h => hf (.tail _ h)
      have hp' := hp.imp (hs.state p).trans (hs.state p).trans
      rcases ha.spec.state p with h | ⟨-, h⟩ | ⟨rfl, -, -⟩ | ⟨-, h⟩ | ⟨rfl | rfl, -⟩
      · exact hp'.imp h.trans h.trans
      · exact .inl h
      · exact absurd List.mem_cons_self hu
      · exact .inr h
      · exact absurd List.mem_cons_self hr
      · exact absurd List.mem_cons_self hf

/-- A switch leaves every process down that was so, except idle. -/
theorem scheduleTick_down {k : Kernel} {p : Addr} (rsp : Nat) (hidle : k.idle ≠ some p)
    (h : Down k p) : Down (scheduleTick k rsp).2 p := by
  have hleft : leftState k p = (k.proc p).state := by
    unfold leftState
    rw [if_neg]
    rintro ⟨-, hc | hc⟩
    · exact hidle hc
    · rcases h with h | h <;> exact absurd (h.symm.trans hc) (by decide)
  have hsame : ∀ {x : ProcessState}, x = leftState k p → x = .blocked ∨ x = .terminated := by
    rintro x rfl
    rw [hleft]
    exact h
  cases scheduleTick_cases k rsp with
  | keep c _ _ _ now _ _ => exact h.imp (now p).trans (now p).trans
  | dispatch n _ ready _ _ _ now _ _ =>
      have hpn : p ≠ n := by
        rintro rfl
        rcases h with h | h <;> rcases ready with ⟨-, hr⟩ | ⟨-, hr⟩ <;>
          exact absurd (h.symm.trans hr) (by decide)
      exact hsame ((now p).trans (if_neg hpn))
  | idle d isIdle _ _ _ now _ _ =>
      have hpd : p ≠ d := by
        rintro rfl
        exact hidle isIdle
      exact hsame ((now p).trans (if_neg hpd))
  | nobody _ _ _ now _ _ => exact hsame (now p)

/-! ## The ledger -/

/-- Tokens and calls: `waits` names the semaphore at which a stack's process is suspended without a
    token, `given` lists the tokens of calls that have not returned yet. -/
structure Ledger (start : Addr → Nat) (m : Machine) (waits : Addr → Option Addr)
    (given : List (Addr × Addr)) : Prop where
  tokens : ∀ s, waitReturns s m.log + given.countP (fun g => g.2 = s) + (m.k.sem s).count ≤
    initialCount s (start s) m.log + postCalls s m.log
  pending : ∀ a s, (m.code a).countP (Instr.returnsTo s) ≤
    given.count (a, s) + if waits a = some s then 1 else 0
  inProgress : ∀ a s, waits a = some s → m.Pending a s
  suspended : ∀ a s, waits a = some s → Down m.k a
  nobody : waits 0 = none ∧ waits Boot.idle = none

/-- A process that has just been suspended comes to an `int 0x20` before it could return. -/
def LeavesFirst (m : Machine) (waits : Addr → Option Addr) (given : List (Addr × Addr)) : Prop :=
  ∀ s, waits m.cpu = some s → ∃ front back, m.code m.cpu = front ++ .int20 :: back ∧
    front.countP (Instr.returnsTo s) ≤ given.count (m.cpu, s) ∧ ∃ i ∈ back, i.returnsTo s = true

theorem pending_iff {m : Machine} {a s : Addr} :
    m.Pending a s ↔ 0 < (m.code a).countP (Instr.returnsTo s) := by
  rw [List.countP_pos_iff]
  rfl

namespace Ledger

variable {start : Addr → Nat} {m m' : Machine} {waits : Addr → Option Addr} {given : List (Addr × Addr)}

/-! ## A switch -/

/-- Who is suspended is not resumed by `schedule_tick`, and stays suspended. -/
theorem switch (h : Ledger start m waits given) (hst : Stacks m) {a : Action}
    (hg : HonoursWaits m a) (hsw : m.switches a) (hs : m.step a = some m')
    (hdown : ∀ p s, waits p = some s → Down (m.prepared a) p) :
    waits m'.cpu = none ∧ ∀ p s, waits p = some s → Down m'.k p := by
  obtain ⟨-, hcur, hidle⟩ := hst.prepared a
  have hne : ∀ p s, waits p = some s → (m.prepared a).idle ≠ some p := by
    intro p s hp hi
    rw [hidle, hst.idle] at hi
    cases hi
    exact absurd (hp.symm.trans h.nobody.2) (by simp)
  have hup : ∀ p, ¬ Down (m.prepared a) p → waits p = none := by
    intro p hp
    cases hw : waits p with
    | none => rfl
    | some s => exact absurd (hdown p s hw) hp
  have hrun : ∀ p, ((m.prepared a).proc p).state = .running → ¬ Down (m.prepared a) p := by
    rintro p hr (hd | hd) <;> exact absurd (hr.symm.trans hd) (by decide)
  cases Machine.step_cases hs with
  | stays hno _ _ => exact absurd hsw hno
  | switched _ hk hcpu =>
      refine ⟨?_, fun p s hp => by rw [hk]; exact scheduleTick_down _ (hne p s hp) (hdown p s hp)⟩
      rw [hcpu]
      -- whoever gets the processor was RUNNING or READY, which nobody suspended is
      cases scheduleTick_cases (m.prepared a) m.cpu with
      | keep c keeps resume _ _ _ _ =>
          rw [resume]
          rcases hst.cpu c (hcur ▸ keeps.1) (hidle ▸ keeps.2.1) with hc | hc
          · rw [hc]
            exact hup c (hrun c keeps.2.2.1)
          · rw [hc]
            exact h.nobody.1
      | dispatch n notIdle ready _ resume _ _ _ _ =>
          rw [resume]
          rcases hst.leftRsp a notIdle with hn | hn
          · rw [hn]
            refine hup n ?_
            rcases ready with ⟨-, hr⟩ | ⟨-, hr⟩
            · rintro (hd | hd) <;> exact absurd (hr.symm.trans hd) (by decide)
            · exact hrun n hr
          · rw [hn]
            exact h.nobody.1
      | idle d _ nothing resume _ _ _ _ =>
          rw [resume]
          cases hw : waits m.cpu with
          | none => rfl
          | some s => exact absurd (h.inProgress _ s hw) (hg.notTakenOver hsw nothing (hdown _ s hw) s)
      | nobody noIdle _ _ _ _ _ =>
          exact absurd (noIdle.symm.trans (hidle.trans hst.idle)) (by simp)

/-- Nobody who is suspended is woken, unless by a `sem_post`. -/
theorem down_prepared (h : Ledger start m waits given) {a : Action} (hg : HonoursWaits m a)
    {p s : Addr} (hp : waits p = some s) (hposts : .unblock p ∈ m.stepActs a → ¬ m.Posts a s)
    (hfresh : .fresh p ∈ m.stepActs a → ¬ m.Spawns a p)
    (hkind : .unblock p ∈ m.stepActs a → .block p ∉ m.stepActs a) : Down (m.prepared a) p := by
  have hacts := m.prepared_acts a
  have hpend := h.inProgress p s hp
  have hr : .ready p ∉ m.stepActs a := fun hr => hg.readied p s hr hpend
  have hf : .fresh p ∉ m.stepActs a := fun hf => hfresh hf (hg.rebuilt p s hf hpend)
  by_cases hu : .unblock p ∈ m.stepActs a
  · rcases h.suspended p s hp with hb | ht
    · exact absurd (hg.woken p s hu hb hpend) (hposts hu)
    · exact .inr (hacts.terminated ht (hkind hu) hr hf)
  · exact hacts.down (h.suspended p s hp) hu hr hf

/-- A tick. -/
theorem tick (h : Ledger start m waits given) (hst : Stacks m) (hg : HonoursWaits m .tick)
    (hs : m.step .tick = some m') : Ledger start m' waits given ∧ LeavesFirst m' waits given := by
  have hdown : ∀ p s, waits p = some s → Down (m.prepared .tick) p := by
    intro p s hp
    have honly : ∀ act ∈ m.stepActs .tick, ∃ q, act = .unblock q := by
      intro act hact
      obtain ⟨e, -, q, -, -, rfl⟩ := mem_sleeperActs hact
      exact ⟨q, rfl⟩
    refine h.down_prepared hg hp ?_ (fun hf => ?_) fun _ hb => ?_
    · rintro - ⟨i, ⟨ha, -⟩, -⟩
      cases ha
    · obtain ⟨q, hq⟩ := honly _ hf
      cases hq
    · obtain ⟨q, hq⟩ := honly _ hb
      cases hq
  obtain ⟨hcpu, hdown'⟩ := h.switch hst hg trivial hs hdown
  obtain ⟨-, rfl⟩ := Machine.step_tick hs
  have hsem : (scheduleTick (timerHandler m.k) m.cpu).2.sem = m.k.sem :=
    (sem_of_outside (scheduleTick_outside _ _)).trans (timerHandler_objects m.k).sem
  refine ⟨⟨fun s => ?_, h.pending, h.inProgress, hdown', h.nobody⟩, fun s hw => ?_⟩
  · have htok := h.tokens s
    rw [← hsem] at htok
    exact htok
  · exact absurd (hw.symm.trans hcpu) (by simp)

/-- `int 0x20`. -/
theorem int20 (h : Ledger start m waits given) (hst : Stacks m) (hg : HonoursWaits m .exec)
    (hn : m.next = some .int20) (hs : m.step .exec = some m') :
    Ledger start m' waits given ∧ LeavesFirst m' waits given := by
  have hprep : m.prepared .exec = m.k := by
    simp only [Machine.prepared, hn]
    rfl
  obtain ⟨hcpu, hdown'⟩ := h.switch hst hg hn hs fun p s hp => hprep ▸ h.suspended p s hp
  obtain ⟨i, hi, -, rfl⟩ := Machine.step_exec hs
  cases hn.symm.trans hi
  obtain ⟨rest, hcode, hrest⟩ := Machine.code_of_next hn
  have hcount : ∀ a s, ((m.execInstr .int20).code a).countP (Instr.returnsTo s) =
      (m.code a).countP (Instr.returnsTo s) := by
    intro a s
    have hset := m.code_setThread (m.advance []) a
    rw [hrest] at hset
    rw [show (m.execInstr .int20).code a = (m.setThread (m.advance [])).code a from rfl, hset]
    split
    · next ha =>
      rw [ha, hcode]
      simp [Instr.returnsTo]
    · rfl
  have hsem : (scheduleTick m.k m.cpu).2.sem = m.k.sem := sem_of_outside (scheduleTick_outside _ _)
  refine ⟨⟨fun s => ?_, fun a s => ?_, fun a s ha => ?_, hdown', h.nobody⟩, fun s hw => ?_⟩
  · have htok := h.tokens s
    rw [← hsem] at htok
    exact htok
  · rw [hcount]
    exact h.pending a s
  · rw [pending_iff, hcount, ← pending_iff]
    exact h.inProgress a s ha
  · exact absurd (hw.symm.trans hcpu) (by simp)

/-! ## Handlers, and the return to the kernel's code -/

/-- The running stack gets other code on top; nothing else changes. -/
theorem push (h : Ledger start m waits given) (hl : LeavesFirst m waits given) {t : Thread}
    (new old rest : List Instr) (ht : t.sys ++ t.base = new ++ rest) (hcode : m.code m.cpu = old ++ rest)
    (hnew : ∀ s, new.countP (Instr.returnsTo s) = 0) (hold : ∀ s, old.countP (Instr.returnsTo s) = 0)
    (hint : .int20 ∉ old) :
    Ledger start (m.setThread t) waits given ∧ LeavesFirst (m.setThread t) waits given := by
  have hcount : ∀ a s, ((m.setThread t).code a).countP (Instr.returnsTo s) =
      (m.code a).countP (Instr.returnsTo s) := by
    intro a s
    rw [m.code_setThread]
    split
    · next ha =>
      rw [ha, ht, hcode, List.countP_append, List.countP_append, hnew, hold]
    · rfl
  refine ⟨⟨h.tokens, fun a s => ?_, fun a s ha => ?_, h.suspended, h.nobody⟩, fun s hw => ?_⟩
  · rw [hcount]
    exact h.pending a s
  · rw [pending_iff, hcount, ← pending_iff]
    exact h.inProgress a s ha
  · obtain ⟨front, back, hfb, hfront, hback⟩ := hl s hw
    have hself : (m.setThread t).code m.cpu = new ++ rest := by
      rw [m.code_setThread, if_pos rfl, ht]
    -- the first `int 0x20` is behind the code that was replaced
    have hprefix : ∃ front', front = old ++ front' := by
      rw [hcode] at hfb
      rcases List.append_eq_append_iff.mp hfb with ⟨c, hc, -⟩ | ⟨c, hc, hc'⟩
      · exact ⟨c, hc⟩
      · cases c with
        | nil => exact ⟨[], by simpa using hc.symm⟩
        | cons j c =>
            rw [List.cons_append] at hc'
            cases hc'
            exact absurd (hc ▸ List.mem_append_right _ List.mem_cons_self) hint
    obtain ⟨front', rfl⟩ := hprefix
    rw [hcode, List.append_assoc] at hfb
    refine ⟨new ++ front', back, ?_, ?_, hback⟩
    · exact hself.trans (by rw [List.append_cancel_left hfb, List.append_assoc])
    · rw [List.countP_append, hnew]
      rw [List.countP_append, hold] at hfront
      exact hfront

theorem enter (h : Ledger start m waits given) (hl : LeavesFirst m waits given) {new : List Instr}
    (hif : m.interruptsEnabled) (hnew : ∀ s, new.countP (Instr.returnsTo s) = 0) :
    Ledger start (m.enter new) waits given ∧ LeavesFirst (m.enter new) waits given := by
  have hsys : (m.threads m.cpu).sys = [] := by simpa [Machine.interruptsEnabled, Machine.thread] using hif
  refine h.push hl new [] (m.threads m.cpu).base rfl ?_ hnew (fun _ => rfl)
    List.not_mem_nil
  simp [Machine.code, hsys]

end Ledger

end TpSo
