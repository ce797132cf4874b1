import TpSo.Machine.Seats
import TpSo.SharedCounter.Program

set_option autoImplicit false

/-! # Where the token is

The invariant behind mutual exclusion. A process in its loop is at one of the stages below, down to
the instruction of the system call it is in; a stage says whether the process owns the semaphore's
token. `Tokens` relates the semaphore to the stages: one process owns the token, or it lies in the
count. -/

namespace TpSo

/-! ## Stages -/

/-- Where a process in its loop is: in its own code, or in `sem_wait`, `process_yield` or
    `sem_post`. -/
inductive Stage
  | loop | read | yield | write | post
  | waitSys | waitCall | waitLock | waitLocked
  /-- The token was there, or it has been handed over. -/
  | waitGiven
  /-- No token was there: on the way to the `int 0x20`, and behind it. -/
  | waitLeaves | waitAsleep
  | yieldSys | yieldCall | yieldLeaves | yieldBack
  | postSys | postCall | postLock | postLocked
  /-- A waiter has been woken while the timer is masked. -/
  | postYields | postLeaves

namespace Stage

/-- The code of the handler on the stack. -/
def code (s : Addr) : Stage → List Instr
  | loop | read | yield | write | post => []
  | waitSys => [.sys (.semWait s)]
  | waitCall => [.semWait s]
  | waitLock => [.semLock s, .semWaitLocked s]
  | waitLocked => [.semWaitLocked s]
  | waitLeaves => [.int20, .semWaitReturn s 0]
  | waitGiven | waitAsleep => [.semWaitReturn s 0]
  | yieldSys => [.sys .processYield]
  | yieldCall => [.processYield, .setRax 0]
  | yieldLeaves => [.int20, .setRax 0]
  | yieldBack => [.setRax 0]
  | postSys => [.sys (.semPost s)]
  | postCall => [.semPost s]
  | postLock => [.semLock s, .semPostLocked s]
  | postLocked => [.semPostLocked s]
  | postYields => [.processYield]
  | postLeaves => [.int20]

/-- Where the program goes on. -/
def pc : Stage → Pc
  | loop | postSys | postCall | postLock | postLocked | postYields | postLeaves => .loop
  | read | waitSys | waitCall | waitLock | waitLocked | waitGiven | waitLeaves | waitAsleep => .read
  | yield => .yield
  | write | yieldSys | yieldCall | yieldLeaves | yieldBack => .write
  | post => .post

/-- The process owns the token. -/
def holds : Stage → Bool
  | read | yield | write | post | waitGiven | yieldSys | yieldCall | yieldLeaves | yieldBack
  | postSys | postCall | postLock | postLocked => true
  | _ => false

/-- The process waits for the token, in the semaphore's queue. -/
def waits : Stage → Bool
  | waitLeaves | waitAsleep => true
  | _ => false

/-- The process holds the semaphore's lock. -/
def locked : Stage → Bool
  | waitLocked | postLocked => true
  | _ => false

/-- The code is not interrupted here: the process is on the processor. -/
def onCpu : Stage → Bool
  | loop | read | yield | write | post | waitGiven | waitAsleep | yieldBack => false
  | _ => true

theorem not_waits_of_holds {x : Stage} (h : x.holds) : x.waits = false := by
  cases x <;> first | rfl | cases h

theorem onCpu_of_locked {x : Stage} (h : x.locked) : x.onCpu := by
  cases x <;> first | rfl | cases h

theorem waits_cases {x : Stage} (h : x.waits) : x = waitLeaves ∨ x = waitAsleep := by
  cases x <;> first | exact .inl rfl | exact .inr rfl | cases h

/-- Where the program is in user code, the stage is that of the program. -/
theorem of_user {x : Stage} {s : Addr} (h : x.code s = []) :
    x.onCpu = false ∧ x.locked = false ∧ x.waits = false ∧ x.holds = decide (x.pc ≠ .loop) := by
  cases x <;> first | exact ⟨rfl, rfl, rfl, rfl⟩ | cases h

end Stage

/-! ## The invariant -/

/-- A process in its loop is at the stage. -/
structure Member (T : Team) (σ : SyncTest) (x : Stage) (w : Addr) : Prop where
  base : ∃ rest, (σ.m.threads w).base = .user :: rest
  sys : (σ.m.threads w).sys = x.code T.sem
  pc : (σ.worker w).pc = x.pc
  seat : Seat σ.m.k σ.m.cpu w x.waits
  here : x.onCpu → σ.m.cpu = w
  asleep : x = .waitAsleep → σ.m.cpu ≠ w

/-- The semaphore `x` of a group of processes: its queue `ws` holds those that wait, its token is
    owned by `owner` or lies in the count. -/
structure Tokens (x : Sem) (group : Addr → Prop) (stage : Addr → Stage) (owner : Option Addr)
    (ws : List Addr) : Prop where
  queue : x.waitingProcesses = some ws
  waiting : ∀ w, w ∈ ws ↔ group w ∧ (stage w).waits
  once : ws.Nodup
  holds : ∀ w, owner = some w ↔ group w ∧ (stage w).holds
  count : x.count = if owner.isSome then 0 else 1
  busy : ws ≠ [] → owner.isSome
  locked : x.lock → ∃ w, group w ∧ (stage w).locked

/-- Another stage for one process, where the token stays with whom it is and nobody starts or stops
    to wait. -/
theorem Tokens.relabel {x x' : Sem} {group group' : Addr → Prop} {stage : Addr → Stage}
    {owner : Option Addr} {ws : List Addr} (h : Tokens x group stage owner ws) {w : Addr} {y : Stage}
    (hq : x'.waitingProcesses = x.waitingProcesses) (hc : x'.count = x.count)
    (hlock : x'.lock → group' w ∧ y.locked) (hgroup : ∀ v, v ≠ w → (group' v ↔ group v))
    (hwaits : group' w ∧ y.waits ↔ group w ∧ (stage w).waits)
    (hholds : group' w ∧ y.holds ↔ group w ∧ (stage w).holds) :
    Tokens x' group' (Function.update stage w y) owner ws := by
  have hother : ∀ v, v ≠ w → Function.update stage w y v = stage v := fun v hv =>
    Function.update_of_ne hv ..
  refine ⟨hq.trans h.queue, fun v => ?_, h.once, fun v => ?_, hc.trans h.count, h.busy, fun hl => ?_⟩
  · rw [h.waiting v]
    by_cases hv : v = w
    · subst hv
      rw [Function.update_self]
      exact hwaits.symm
    · rw [hother v hv, hgroup v hv]
  · rw [h.holds v]
    by_cases hv : v = w
    · subst hv
      rw [Function.update_self]
      exact hholds.symm
    · rw [hother v hv, hgroup v hv]
  · obtain ⟨hw, hy⟩ := hlock hl
    exact ⟨w, hw, by rw [Function.update_self]; exact hy⟩

/-- **The invariant.** -/
structure Exclusion (T : Team) (σ : SyncTest) (stage : Addr → Stage) (owner : Option Addr)
    (ws : List Addr) : Prop where
  sane : Sane σ.m
  member : ∀ w, σ.InLoop T w → Member T σ (stage w) w
  tokens : Tokens (σ.m.k.sem T.sem) (σ.InLoop T) stage owner ws

/-- The processes are neither idle nor at address 0. -/
def Team.Proper (T : Team) : Prop := ∀ w ∈ T.members, w ≠ 0 ∧ w ≠ Boot.idle

namespace Exclusion

variable {T : Team} {σ σ' : SyncTest} {stage stage' : Addr → Stage} {owner owner' : Option Addr}
  {ws ws' : List Addr}

/-- At most one process owns the token. -/
theorem unique (h : Exclusion T σ stage owner ws) {v w : Addr} (hv : σ.InLoop T v)
    (hw : σ.InLoop T w) (hhv : (stage v).holds) (hhw : (stage w).holds) : v = w :=
  Option.some.inj (((h.tokens.holds v).mpr ⟨hv, hhv⟩).symm.trans ((h.tokens.holds w).mpr ⟨hw, hhw⟩))

/-- Nobody else is in code that is not interrupted. -/
theorem not_onCpu (h : Exclusion T σ stage owner ws) {w : Addr} (hw : σ.InLoop T w)
    (hne : w ≠ σ.m.cpu) : (stage w).onCpu = false := by
  rw [← Bool.not_eq_true]
  exact fun hon => hne ((h.member w hw).here hon).symm

/-- The lock is free, unless the running process holds it. -/
theorem unlocked (h : Exclusion T σ stage owner ws)
    (hno : σ.InLoop T σ.m.cpu → (stage σ.m.cpu).locked = false) : (σ.m.k.sem T.sem).lock = false := by
  rw [← Bool.not_eq_true]
  intro hlock
  obtain ⟨w, hw, hl⟩ := h.tokens.locked hlock
  have hcpu := (h.member w hw).here (Stage.onCpu_of_locked hl)
  subst hcpu
  exact absurd (hno hw) (by simp [hl])

/-- **The rule for a step of the running process**: the others stay where they are, but one that waits
    may be given the token. -/
theorem ran (h : Exclusion T σ stage owner ws) (hcpu : σ'.m.cpu = σ.m.cpu) (hsane : Sane σ'.m)
    (hthreads : ∀ v, v ≠ σ.m.cpu → σ.InLoop T v → σ'.m.threads v = σ.m.threads v)
    (hworker : ∀ v, v ≠ σ.m.cpu → σ'.worker v = σ.worker v)
    (hself : σ'.InLoop T σ.m.cpu → Member T σ' (stage' σ.m.cpu) σ.m.cpu)
    (hother : ∀ v, v ≠ σ.m.cpu → σ.InLoop T v →
      (stage' v = stage v ∨ stage v = .waitAsleep ∧ stage' v = .waitGiven) ∧
        Seat σ'.m.k σ.m.cpu v (stage' v).waits)
    (htokens : Tokens (σ'.m.k.sem T.sem) (σ'.InLoop T) stage' owner' ws') :
    Exclusion T σ' stage' owner' ws' := by
  refine ⟨hsane, fun v hv => ?_, htokens⟩
  by_cases hvc : v = σ.m.cpu
  · subst hvc
    exact hself hv
  · have hin : σ.InLoop T v := by
      unfold SyncTest.InLoop at hv ⊢
      rwa [hworker v hvc] at hv
    obtain ⟨hstage, hseat⟩ := hother v hvc hin
    have hm := h.member v hin
    have hoff := h.not_onCpu hin hvc
    refine ⟨?_, ?_, ?_, hcpu ▸ hseat, fun hon => ?_, fun _ => ?_⟩
    · rw [hthreads v hvc hin]
      exact hm.base
    · rw [hthreads v hvc hin, hm.sys]
      rcases hstage with hs | ⟨hs, hs'⟩
      · rw [hs]
      · rw [hs, hs']
        rfl
    · rw [hworker v hvc, hm.pc]
      rcases hstage with hs | ⟨hs, hs'⟩
      · rw [hs]
      · rw [hs, hs']
        rfl
    · rcases hstage with hs | ⟨hs, hs'⟩
      · rw [hs, hoff] at hon
        cases hon
      · rw [hs'] at hon
        cases hon
    · rw [hcpu]
      exact fun he => hvc he.symm

/-! ## Switches -/

/-- **The rule for a switch**: the kernel `k` goes through `schedule_tick`, and the running process, if
    it is in its loop, is at a stage `next` where it can be interrupted. -/
theorem switched (hT : T.Proper) (h : Exclusion T σ stage owner ws) {k : Kernel} {a : Action} {next : Stage}
    (hk : k = σ.m.prepared a)
    (hkernel : σ'.m.k = (scheduleTick k σ.m.cpu).2) (hcpu : σ'.m.cpu = (scheduleTick k σ.m.cpu).1)
    (hworker : σ'.worker = σ.worker) (hsane : Sane σ'.m)
    (hl : Lossless k) (hpl : Placed k) (hout : ¬ Queued k Boot.idle)
    (hsem : k.sem T.sem = σ.m.k.sem T.sem)
    (hseat : ∀ w, σ.InLoop T w → Seat k σ.m.cpu w (stage w).waits)
    (hthreads : ∀ v, σ.InLoop T v → v ≠ σ.m.cpu → σ'.m.threads v = σ.m.threads v)
    (hself : σ.InLoop T σ.m.cpu → (∃ rest, (σ'.m.threads σ.m.cpu).base = .user :: rest) ∧
      (σ'.m.threads σ.m.cpu).sys = next.code T.sem ∧ next.pc = (stage σ.m.cpu).pc ∧
      next.waits = (stage σ.m.cpu).waits ∧ next.holds = (stage σ.m.cpu).holds ∧
      (stage σ.m.cpu).locked = false ∧ next.locked = false ∧ next.onCpu = false) :
    Exclusion T σ' (Function.update stage σ.m.cpu next) owner ws := by
  set stage' := Function.update stage σ.m.cpu next with hstage'
  obtain ⟨-, hcurrent, hidle⟩ := h.sane.owners.prepared a
  have hstage : ∀ v, σ.InLoop T v → (stage' v).waits = (stage v).waits ∧
      (stage' v).holds = (stage v).holds ∧ (stage' v).pc = (stage v).pc ∧
      (stage' v).locked = (stage v).locked ∧ (stage' v).onCpu = false := by
    intro v hv
    by_cases hvc : v = σ.m.cpu
    · subst hvc
      obtain ⟨-, -, hpc, hw, hh, hlk, hlk', hon⟩ := hself hv
      rw [hstage', Function.update_self]
      exact ⟨hw, hh, hpc, hlk'.trans hlk.symm, hon⟩
    · rw [hstage', Function.update_of_ne hvc]
      exact ⟨rfl, rfl, rfl, rfl, h.not_onCpu hv hvc⟩
  have hin : ∀ v, σ'.InLoop T v ↔ σ.InLoop T v := fun v => by
    unfold SyncTest.InLoop
    rw [hworker]
  -- the tick moves a process between the processor and the queues, and never takes it from both
  have hseats : ∀ w, σ.InLoop T w → Seat σ'.m.k σ'.m.cpu w (stage w).waits ∧
      ((stage w).waits = true → σ'.m.cpu ≠ w) := by
    intro w hw
    rw [hkernel, hcpu]
    refine scheduleTick_seats hl hpl
      ?_ hout ?_ (fun v hv => hT v hv.1) hseat ?_ hw
    · rw [hk, hidle]
      exact h.sane.owners.idle
    · intro p hp
      rw [hk]
      refine h.sane.owners.leftRsp a fun hi => hp ?_
      rw [hidle, h.sane.owners.idle] at hi
      exact (Option.some.inj hi).symm
    · -- while anybody waits, the owner of the token is ready
      intro hin hwait
      have hmem := (h.tokens.waiting _).mpr ⟨hin, hwait⟩
      obtain ⟨v, hv⟩ := Option.isSome_iff_exists.mp (h.tokens.busy (List.ne_nil_of_mem hmem))
      obtain ⟨hvin, hholds⟩ := (h.tokens.holds v).mp hv
      exact ⟨v, hvin, Stage.not_waits_of_holds hholds⟩
  refine ⟨hsane, fun v hv => ?_, ?_⟩
  · have hv' := (hin v).mp hv
    have hm := h.member v hv'
    obtain ⟨hw, -, hpc, -, hon⟩ := hstage v hv'
    obtain ⟨hs, hne⟩ := hseats v hv'
    refine ⟨?_, ?_, ?_, hw ▸ hs, fun h => ?_, fun has => ?_⟩
    · by_cases hvc : v = σ.m.cpu
      · subst hvc
        exact (hself hv').1
      · rw [hthreads v hv' hvc]
        exact hm.base
    · by_cases hvc : v = σ.m.cpu
      · subst hvc
        rw [hstage', Function.update_self]
        exact (hself hv').2.1
      · rw [hthreads v hv' hvc, hstage', Function.update_of_ne hvc]
        exact hm.sys
    · rw [hworker, hm.pc, hpc]
    · rw [hon] at h
      cases h
    · refine hne ?_
      rw [← hw, has]
      rfl
  · have hx : σ'.m.k.sem T.sem = σ.m.k.sem T.sem := by
      rw [hkernel, sem_of_outside (scheduleTick_outside _ _), hsem]
    rw [hx]
    refine ⟨h.tokens.queue, fun w => ?_, h.tokens.once, fun w => ?_, h.tokens.count, h.tokens.busy,
      fun hlock => ?_⟩
    · rw [h.tokens.waiting w, hin]
      exact and_congr_right fun hw => by rw [(hstage w hw).1]
    · rw [h.tokens.holds w, hin]
      exact and_congr_right fun hw => by rw [(hstage w hw).2.1]
    · obtain ⟨w, hw, hlk⟩ := h.tokens.locked hlock
      exact ⟨w, (hin w).mpr hw, by rw [(hstage w hw).2.2.2.1]; exact hlk⟩

end Exclusion

end TpSo
