import TpSo.Kernel.Machine
import TpSo.Machine.ExecActs
import TpSo.Machine.Objects
import TpSo.Library.Run

set_option autoImplicit false

/-! # A step of the machine

Every step is the same two things in a row: some scheduler operations, and possibly a switch by
`schedule_tick`. `step_cases` says so for all actions. -/

namespace TpSo

/-! ## The timer handler -/

/-- The scheduler operations of `timer_handler`: the processes of expired entries are unblocked. -/
def sleeperActs (k : Kernel) (entries : List SleepingProcess) : List SchedAct :=
  entries.filterMap (fun e =>
    if e.wakeTime ≤ k.ticks then (processLookup k e.pid).map .unblock else none)

theorem mem_sleeperActs {k : Kernel} {es : List SleepingProcess} {a : SchedAct}
    (h : a ∈ sleeperActs k es) : ∃ e ∈ es, ∃ p, e.wakeTime ≤ k.ticks ∧
      processLookup k e.pid = some p ∧ a = .unblock p := by
  obtain ⟨e, he, hact⟩ := List.mem_filterMap.mp h
  obtain ⟨hwake, hact⟩ := Option.ite_none_right_eq_some.mp hact
  obtain ⟨p, hp, rfl⟩ := Option.map_eq_some_iff.mp hact
  exact ⟨e, he, p, hwake, hp, rfl⟩

/-- `timer_handler`'s first assignment: `ticks++`. -/
def nextTick (k : Kernel) : Kernel := { k with ticks := (k.ticks + 1) % 2 ^ 64 }

theorem sleeperActs_congr {k k' : Kernel} (h : k'.outer = k.outer) (ht : k'.ticks = k.ticks)
    (entries : List SleepingProcess) : sleeperActs k' entries = sleeperActs k entries := by
  unfold sleeperActs
  simp only [ht, processLookup_of_outer h]

theorem ticks_of_outer {k k' : Kernel} (h : k'.outer = k.outer) : k'.ticks = k.ticks :=
  show k'.outer.ticks = k.outer.ticks from congrArg Kernel.ticks h

theorem wakeSleepers_acts (entries : List SleepingProcess) :
    ∀ k : Kernel, SchedActs k (sleeperActs k entries) (wakeSleepers k entries) := by
  induction entries with
  | nil => exact fun k => .done (.refl k)
  | cons e rest ih =>
      intro k
      unfold wakeSleepers sleeperActs
      rw [List.filterMap_cons]
      by_cases he : e.wakeTime ≤ k.ticks
      · simp only [if_pos he]
        cases hp : processLookup k e.pid with
        | none => exact ih k
        | some p =>
            have hout := outer_of_outside (processUnblock_outside k p)
            refine .act (.refl k) (a := .unblock p) rfl ?_
            have hrest := ih (processUnblock k p).2
            rwa [sleeperActs_congr hout (ticks_of_outer hout)] at hrest
      · simp only [if_neg he]
        exact ih k

theorem wakeSleepers_outside (entries : List SleepingProcess) :
    ∀ k : Kernel, (wakeSleepers k entries).outside = k.outside := by
  induction entries with
  | nil => exact fun _ => rfl
  | cons e rest ih =>
      intro k
      unfold wakeSleepers
      refine (ih _).trans ?_
      split
      · split
        · rfl
        · next p _ => exact processUnblock_outside k p
      · rfl

theorem dropSleepers_kernel (entries : List SleepingProcess) :
    ∀ k : Kernel, dropSleepers k entries = { k with
      sleepingQueue := (dropSleepers k entries).sleepingQueue
      live := (dropSleepers k entries).live } := by
  induction entries with
  | nil => exact fun _ => rfl
  | cons e rest ih =>
      intro k
      unfold dropSleepers
      dsimp only
      rw [ih]
      split <;> rfl

/-- `timer_handler` wakes processes; the rest is between its queue and the allocator. -/
theorem timerHandler_kernel (k : Kernel) : timerHandler k =
    { wakeSleepers (nextTick k) (k.sleepingQueue.getD []) with
      sleepingQueue := (timerHandler k).sleepingQueue, live := (timerHandler k).live } :=
  dropSleepers_kernel _ _

theorem timerHandler_objects (k : Kernel) : SameObjects k (timerHandler k) := by
  have hwake := SameObjects.of_outside
    (wakeSleepers_outside (k.sleepingQueue.getD []) (nextTick k))
  rw [timerHandler_kernel]
  exact ⟨hwake.sem, hwake.pipe, hwake.pipes⟩

theorem timerHandler_processes (k : Kernel) : (timerHandler k).processes = k.processes := by
  have hwake := processes_of_outer
    (outer_of_outside (wakeSleepers_outside (k.sleepingQueue.getD []) (nextTick k)))
  rw [timerHandler_kernel]
  exact hwake

/-- **The timer handler** as scheduler operations. -/
theorem timerHandler_acts (k : Kernel) :
    SchedActs k (sleeperActs (nextTick k) (k.sleepingQueue.getD [])) (timerHandler k) := by
  have hstart : SameSched k (nextTick k) := .of_eq rfl rfl rfl rfl rfl
  have hwake := wakeSleepers_acts (k.sleepingQueue.getD []) (nextTick k)
  have hdrop : SameSched (wakeSleepers (nextTick k) (k.sleepingQueue.getD [])) (timerHandler k) := by
    rw [timerHandler_kernel]
    exact .of_eq rfl rfl rfl rfl rfl
  exact .same_trans hstart (hwake.trans_same hdrop)

/-- A switch neither blocks nor ends a process. -/
theorem scheduleTick_state {k : Kernel} {rsp : Nat} {p : Addr} {state : ProcessState}
    (hst : state = .blocked ∨ state = .terminated)
    (h : ((scheduleTick k rsp).2.proc p).state = state) : (k.proc p).state = state := by
  have hready : state ≠ .ready := by
    rcases hst with rfl | rfl <;> decide
  have hrunning : state ≠ .running := by
    rcases hst with rfl | rfl <;> decide
  have hleft : leftState k p = state → (k.proc p).state = state := by
    unfold leftState
    split
    · exact fun h => absurd h.symm hready
    · exact id
  cases scheduleTick_cases k rsp with
  | keep c _ _ _ now _ _ => exact (now p).symm.trans h
  | dispatch n _ _ _ _ _ now _ _ =>
      rw [now p] at h
      split at h
      · exact absurd h.symm hrunning
      · exact hleft h
  | idle d _ _ _ _ now _ _ =>
      rw [now p] at h
      split at h
      · exact absurd h.symm hrunning
      · exact hleft h
  | nobody _ _ _ now _ _ =>
      rw [now p] at h
      exact hleft h

/-! ## Actions -/

/-- Does the action interrupt what the processor is at? -/
def Action.interrupts : Action → Bool
  | .tick | .key _ => true
  | _ => false

namespace Machine

/-- The kernel when an action reaches `schedule_tick`, or ends without reaching it. -/
def prepared (m : Machine) : Action → Kernel
  | .exec =>
    match m.next with
    | none => m.k
    | some i => (exec m.k m.thread.regs i).k
  | .tick => timerHandler m.k
  | _ => m.k

/-- The action executes this instruction. -/
def Executes (m : Machine) (a : Action) (i : Instr) : Prop := a = .exec ∧ m.next = some i

/-- The scheduler operations an action performs before that. -/
def stepActs (m : Machine) : Action → List SchedAct
  | .exec =>
    match m.next with
    | none => []
    | some i => schedActs m.k i
  | .tick => sleeperActs (nextTick m.k) (m.k.sleepingQueue.getD [])
  | _ => []

/-- Does the action reach `schedule_tick`? -/
def switches (m : Machine) : Action → Prop
  | .exec => m.next = some .int20
  | .tick => True
  | _ => False

/-- What an action makes of kernel and processor. -/
inductive StepCase (m : Machine) (a : Action) (m' : Machine) : Prop
  | stays (noSwitch : ¬ m.switches a) (kernel : m'.k = m.prepared a) (cpu : m'.cpu = m.cpu)
  | switched (switch : m.switches a) (kernel : m'.k = (scheduleTick (m.prepared a) m.cpu).2)
      (cpu : m'.cpu = (scheduleTick (m.prepared a) m.cpu).1)

theorem prepared_acts (m : Machine) (a : Action) :
    SchedActs m.k (m.stepActs a) (m.prepared a) := by
  cases a with
  | exec =>
      unfold stepActs prepared
      cases m.next with
      | none => exact .done (.refl _)
      | some i => exact exec_acts _ _ i
  | tick => exact timerHandler_acts m.k
  | _ => exact .done (.refl _)

theorem execInstr_k (m : Machine) {i : Instr} (hi : i ≠ .int20) :
    (m.execInstr i).k = (exec m.k m.thread.regs i).k := by
  cases i <;> first | rfl | exact absurd rfl hi

theorem execInstr_cpu (m : Machine) {i : Instr} (hi : i ≠ .int20) :
    (m.execInstr i).cpu = m.cpu := by
  cases i <;> first | rfl | exact absurd rfl hi

theorem execInstr_log (m : Machine) (i : Instr) :
    (m.execInstr i).log = (exec m.k m.thread.regs i).events ++ m.log := by
  cases i <;> rfl

theorem step_exec {m m' : Machine} (h : m.step .exec = some m') :
    ∃ i, m.next = some i ∧ i ≠ .user ∧ m' = m.execInstr i := by
  simp only [step] at h
  split at h
  · cases h
  · cases h
  · next i hu hn =>
    exact ⟨i, hn, hu, (Option.some.inj h).symm⟩

/-- The processor is in user code. -/
theorem next_user {m : Machine} (h : (m.next matches some .user) = true) : m.next = some .user := by
  split at h
  · next hn => exact hn
  · cases h

theorem step_syscall {m m' : Machine} {c : Syscall} (h : m.step (.syscall c) = some m') :
    m.interruptsEnabled ∧ m.next = some .user ∧ validHandle m.k c ∧ m' = m.enter [.sys c] := by
  obtain ⟨⟨hi, hu, hv⟩, hm⟩ := Option.ite_none_right_eq_some.mp h
  exact ⟨hi, next_user hu, hv, (Option.some.inj hm).symm⟩

theorem step_ret {m m' : Machine} (h : m.step .ret = some m') :
    m.interruptsEnabled ∧ m.next = some .user ∧ m' = m.setThread (m.advance []) := by
  obtain ⟨⟨hi, hu⟩, hm⟩ := Option.ite_none_right_eq_some.mp h
  exact ⟨hi, next_user hu, (Option.some.inj hm).symm⟩

theorem step_exception {m m' : Machine} (h : m.step .exception = some m') :
    m.interruptsEnabled ∧ m.next = some .user ∧ m' = m.enter (exceptionCode m.k) := by
  obtain ⟨⟨hi, hu⟩, hm⟩ := Option.ite_none_right_eq_some.mp h
  exact ⟨hi, next_user hu, (Option.some.inj hm).symm⟩

theorem step_tick {m m' : Machine} (h : m.step .tick = some m') :
    m.interruptsEnabled ∧ m' = { m with k := timerHandler m.k }.schedule := by
  obtain ⟨⟨hi, -⟩, hm⟩ := Option.ite_none_right_eq_some.mp h
  exact ⟨hi, (Option.some.inj hm).symm⟩

theorem step_key {m m' : Machine} {e : Key} (h : m.step (.key e) = some m') :
    m.interruptsEnabled ∧ m' = m.enter (m.keyHandler e) := by
  obtain ⟨hi, hm⟩ := Option.ite_none_right_eq_some.mp h
  exact ⟨hi, (Option.some.inj hm).symm⟩

/-- **Every step** either keeps the processor where it is or goes through `schedule_tick`. -/
theorem step_cases {m m' : Machine} {a : Action} (h : m.step a = some m') : StepCase m a m' := by
  cases a with
  | exec =>
      obtain ⟨i, hn, -, rfl⟩ := step_exec h
      by_cases hi : i = .int20
      · subst hi
        refine .switched hn ?_ ?_ <;>
        · simp only [prepared, hn]
          rfl
      · refine .stays (fun hs => hi (Option.some.inj (hn.symm.trans hs))) ?_ (m.execInstr_cpu hi)
        simp only [prepared, hn]
        exact m.execInstr_k hi
  | syscall c =>
      obtain ⟨-, -, -, rfl⟩ := step_syscall h
      exact .stays id rfl rfl
  | ret =>
      obtain ⟨-, -, rfl⟩ := step_ret h
      exact .stays id rfl rfl
  | exception =>
      obtain ⟨-, -, rfl⟩ := step_exception h
      exact .stays id rfl rfl
  | tick =>
      obtain ⟨-, rfl⟩ := step_tick h
      exact .switched trivial rfl rfl
  | key e =>
      obtain ⟨-, rfl⟩ := step_key h
      exact .stays id rfl rfl

/-- Whom the step leaves `BLOCKED` or `TERMINATED` was so before `schedule_tick`. -/
theorem step_state {m m' : Machine} {a : Action} (hs : m.step a = some m') {p : Addr}
    {state : ProcessState} (hst : state = .blocked ∨ state = .terminated)
    (h : (m'.k.proc p).state = state) : ((m.prepared a).proc p).state = state := by
  cases step_cases hs with
  | stays _ hk _ => exact hk ▸ h
  | switched _ hk _ => exact scheduleTick_state hst (hk ▸ h)

/-- A process `TERMINATED` after a step was so before, or the step ends it. -/
theorem terminated_before {m m' : Machine} {a : Action} (hs : m.step a = some m') {p : Addr}
    (hp : (m'.k.proc p).state = .terminated) :
    (m.k.proc p).state = .terminated ∨ m.Executes a (.processExit p) := by
  refine ((m.prepared_acts a).terminated_before (step_state hs (.inr rfl) hp)).imp_right ?_
  intro hact
  cases a with
  | exec =>
      simp only [stepActs] at hact
      split at hact
      · exact absurd hact List.not_mem_nil
      · next i hn =>
        cases mem_schedActs hact with
        | exit => exact ⟨rfl, hn⟩
  | tick =>
      obtain ⟨e, -, q, -, -, hq⟩ := mem_sleeperActs hact
      cases hq
  | _ => exact absurd hact List.not_mem_nil

end Machine

/-! ## Runs -/

/-- The machine after a list of actions, from boot. -/
def Reaches (memAnswers : Nat → Option Addr) (as : List Action) (m : Machine) : Prop :=
  (Boot.machine memAnswers).run as = some m

/-- A run of the machine is a guarded run without a condition. -/
theorem run_guarded {m m' : Machine} {as : List Action} (h : m.run as = some m') :
    GuardedRun Machine.step (fun _ _ => True) m as m' := by
  induction as generalizing m with
  | nil =>
      cases h
      exact .nil _
  | cons a rest ih =>
      unfold Machine.run at h
      obtain ⟨m1, hs, hrest⟩ := Option.bind_eq_some_iff.mp h
      exact .cons trivial hs (ih hrest)

/-- A guarded run is a run. -/
theorem run_of_guarded {guard : Machine → Action → Prop} {m m' : Machine} {as : List Action}
    (h : GuardedRun Machine.step guard m as m') : m.run as = some m' := by
  induction h with
  | nil m => rfl
  | cons _ hs _ ih =>
      unfold Machine.run
      rw [hs]
      exact ih

end TpSo
