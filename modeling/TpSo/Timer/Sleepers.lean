import TpSo.Machine.Terminated
import TpSo.Machine.Table

set_option autoImplicit false

/-! # Who a timer tick wakes

`sleepTicks` leaves an entry with the caller's pid in the sleeping queue, and `timer_handler` unblocks
whoever has that pid when the entry expires. The entry is not taken back when the sleeper is woken
early, killed or reaped, so it is the sleeper that is woken only as long as no process with a pending
entry under its pid is blocked for another reason. -/

namespace TpSo

/-- The entries of the sleeping queue. -/
def sleepers (k : Kernel) : List SleepingProcess := k.sleepingQueue.getD []

/-! ## `sleepTicks` -/

theorem initSleepingQueue_spec (k : Kernel) : initSleepingQueue k = { k with
    sleepingQueue := (initSleepingQueue k).sleepingQueue, memCalls := (initSleepingQueue k).memCalls } ∧
    sleepers (initSleepingQueue k) = sleepers k := by
  unfold sleepers initSleepingQueue
  cases hq : k.sleepingQueue with
  | some es =>
      refine ⟨?_, ?_⟩
      · dsimp only
      · simp [hq]
  | none =>
      refine ⟨rfl, ?_⟩
      unfold queueCreate
      dsimp only
      split <;> rfl

/-- The queue takes the entry, or `queue_push` reports that it did not. -/
theorem pushSleeper_spec (k : Kernel) (e : SleepingProcess) :
    (pushSleeper k e).2 = { k with
      sleepingQueue := (pushSleeper k e).2.sleepingQueue, memCalls := (pushSleeper k e).2.memCalls } ∧
    ((pushSleeper k e).1 = false ∧ sleepers (pushSleeper k e).2 = sleepers k ∨
      (pushSleeper k e).1 = true ∧ sleepers (pushSleeper k e).2 = sleepers k ++ [e]) := by
  unfold sleepers pushSleeper
  dsimp only
  refine ⟨by rw [queuePush_kernel], ?_⟩
  cases k.sleepingQueue with
  | none => exact .inl ⟨rfl, rfl⟩
  | some es =>
      cases hok : k.allocOk with
      | true =>
          rw [queuePush_ok k es e hok]
          exact .inr ⟨rfl, rfl⟩
      | false =>
          rw [queuePush_fail k es e hok]
          exact .inl ⟨rfl, rfl⟩

/-- What `sleepTicks` does to the queue and the clock: the caller `c`, asleep, leaves an entry, or
    nothing has changed. -/
inductive Slept (k : Kernel) (n : Nat) : Bool × Kernel → Prop
  | not (k' : Kernel) (clock : k'.ticks = k.ticks) (queue : sleepers k' = sleepers k) :
      Slept k n (false, k')
  | asleep (k' : Kernel) (c a : Addr) (current : k.current = some c) (clock : k'.ticks = k.ticks)
      (queue : sleepers k' = sleepers k ++
        [{ addr := a, pid := (k.proc c).pid, wakeTime := (k.ticks + n) % 2 ^ 64 }]) :
      Slept k n (true, k')

theorem sleepCurrent_spec (k : Kernel) {c : Addr} (hc : k.current = some c) (n : Nat) :
    Slept k n (sleepCurrent k c n) := by
  unfold sleepCurrent
  rcases memAlloc_cases k .bytes with h | ⟨a, -, -, h⟩ <;> rw [h] <;> dsimp only
  · exact .not _ rfl rfl
  · obtain ⟨hk, hpush⟩ := pushSleeper_spec (k.grant a .bytes)
      { addr := a, pid := ((k.grant a .bytes).proc c).pid
        wakeTime := ((k.grant a .bytes).ticks + n) % 2 ^ 64 }
    revert hk hpush
    generalize pushSleeper (k.grant a .bytes) _ = pushed
    intro hk hpush
    have hclock : pushed.2.ticks = k.ticks := by
      rw [hk]
      rfl
    rcases hpush with ⟨hfail, hsame⟩ | ⟨hok, hadd⟩
    · rw [if_neg (by simp [hfail])]
      exact .not _ hclock hsame
    · rw [if_pos hok]
      have hblock := SameRest.of_outside (processBlock_outside pushed.2 c)
      refine .asleep _ c a hc (hblock.ticks.trans hclock) ?_
      unfold sleepers at hadd ⊢
      rw [hblock.sleepingQueue, hadd]
      rfl

theorem sleepTicks_spec (k : Kernel) (n : Nat) : Slept k n (sleepTicks k n) := by
  obtain ⟨hk, hq⟩ := initSleepingQueue_spec k
  unfold sleepTicks
  cases hc : k.current with
  | none =>
      refine .not _ ?_ hq
      rw [hk]
  | some c =>
      dsimp only
      have hc' : (initSleepingQueue k).current = some c := by
        rw [hk]
        exact hc
      have hclock : (initSleepingQueue k).ticks = k.ticks := by rw [hk]
      have hproc : (initSleepingQueue k).proc = k.proc := by rw [hk]
      have hspec := sleepCurrent_spec (initSleepingQueue k) hc' n
      revert hspec
      generalize sleepCurrent (initSleepingQueue k) c n = slept
      intro hspec
      cases hspec with
      | not k' clock queue => exact .not k' (clock.trans hclock) (queue.trans hq)
      | asleep k' d a current clock queue =>
          refine .asleep k' d a (hc.trans (hc'.symm.trans current)) (clock.trans hclock) ?_
          rw [queue, hq, hclock, hproc]

/-! ## All other code -/

/-- The same clock and sleepers. -/
def SameTimer (k k' : Kernel) : Prop := k'.ticks = k.ticks ∧ k'.sleepingQueue = k.sleepingQueue

theorem SameRest.timer {k k' : Kernel} (h : SameRest k k') : SameTimer k k' :=
  ⟨h.ticks, h.sleepingQueue⟩

theorem sameTimer_of_outer {k k' : Kernel} (h : k'.outer = k.outer) : SameTimer k k' :=
  ⟨show k'.outer.ticks = k.outer.ticks by rw [h],
    show k'.outer.sleepingQueue = k.outer.sleepingQueue by rw [h]⟩

theorem processUnregister_sameTimer (k : Kernel) (pid : Nat) :
    SameTimer k (processUnregister k pid) := by
  rw [processUnregister_kernel]
  exact ⟨rfl, rfl⟩

theorem enterTree_sameTimer (k : Kernel) (c : Creation) : SameTimer k (enterTree k c).2 := by
  constructor <;> rw [(enterTree_enters k c).kernel]

theorem createRegisterCode_sameTimer (k : Kernel) (r : Regs) (c : Creation) (attached : List Nat) :
    SameTimer k (createRegisterCode k r c attached).k := by
  rw [createRegisterCode_k]
  exact enterTree_sameTimer k c

/-- Only `sleepTicks` writes to them. -/
theorem exec_sameTimer (k : Kernel) (r : Regs) {i : Instr} (hi : ¬ ∃ n, i = .sys (.sleepTicks n)) :
    SameTimer k (exec k r i).k := by
  by_cases hrest : i.touchesRest = false
  · exact (exec_sameRest k r hrest).timer
  · cases i <;> try exact absurd rfl hrest
    case processExit p => exact sameTimer_of_outer (exitFirstHalf_outer k p)
    case createRegister c attached => exact createRegisterCode_sameTimer k r c attached
    case createForeground c =>
        simp only [exec, createForeground]
        split <;> exact ⟨rfl, rfl⟩
    case createMark c =>
        simp only [exec, createMark]
        split <;> exact ⟨rfl, rfl⟩
    case reapUnregister p => exact processUnregister_sameTimer k _
    case excMask masked => exact ⟨rfl, rfl⟩
    case sys c =>
        cases c <;> try exact absurd rfl hrest
        case sleepTicks n => exact absurd ⟨n, rfl⟩ hi
        case processGiveForeground pid =>
            simp only [exec, sysCode, giveForegroundTo]
            repeat' split
            all_goals exact ⟨rfl, rfl⟩

/-! ## The timer handler -/

theorem dropSleepers_subset (entries : List SleepingProcess) :
    ∀ k : Kernel, sleepers (dropSleepers k entries) ⊆ sleepers k := by
  induction entries with
  | nil => exact fun k => List.Subset.refl _
  | cons e rest ih =>
      intro k
      unfold dropSleepers
      dsimp only
      split
      · refine List.Subset.trans (ih _) ?_
        unfold sleepers
        show (queueRemove k.sleepingQueue e).2.getD [] ⊆ k.sleepingQueue.getD []
        cases k.sleepingQueue with
        | none => exact List.Subset.refl _
        | some es => exact List.erase_subset
      · exact ih k

/-- `timer_handler` adds no entry. -/
theorem timerHandler_sleepers (k : Kernel) : sleepers (timerHandler k) ⊆ sleepers k := by
  refine List.Subset.trans (dropSleepers_subset _ _) ?_
  have hwake := SameRest.of_outside (wakeSleepers_outside (k.sleepingQueue.getD []) (nextTick k))
  unfold sleepers
  rw [show (wakeSleepers { k with ticks := (k.ticks + 1) % 2 ^ 64 }
    (Option.getD k.sleepingQueue [])).sleepingQueue = k.sleepingQueue from hwake.sleepingQueue]
  exact List.Subset.refl _

theorem timerHandler_ticks (k : Kernel) : (timerHandler k).ticks = (k.ticks + 1) % 2 ^ 64 := by
  have hwake := SameRest.of_outside (wakeSleepers_outside (k.sleepingQueue.getD []) (nextTick k))
  rw [timerHandler_kernel]
  exact hwake.ticks

/-! ## Sleeping processes -/

/-- The machine, the number of ticks so far, and for each process that its own call of `sleepTicks`
    keeps blocked the tick at which the call is over. -/
structure SleepSystem where
  m : Machine
  now : Nat
  asleep : Addr → Option Nat

/-- The process that the action puts to sleep, and for how many ticks. -/
def Machine.fallsAsleep (m : Machine) (a : Action) : Option (Addr × Nat) :=
  match a, m.next with
  | .exec, some (.sys (.sleepTicks n)) =>
    if (sleepTicks m.k n).1 then m.k.current.map (fun c => (c, n)) else none
  | _, _ => none

namespace SleepSystem

/-- Who is asleep after a step to `m'`: a process that was not blocked and calls `sleepTicks`, and
    those that were asleep and stay blocked. -/
def asleepAfter (s : SleepSystem) (a : Action) (m' : Machine) (p : Addr) : Option Nat :=
  match s.m.fallsAsleep a with
  | some (c, n) => if p = c ∧ (s.m.k.proc c).state ≠ .blocked then some (s.now + n) else keep
  | none => keep
where
  keep := if (s.m.k.proc p).state = .blocked ∧ (m'.k.proc p).state = .blocked then s.asleep p else none

/-- A step of the machine. -/
def step (s : SleepSystem) (a : Action) : Option SleepSystem :=
  (s.m.step a).map (fun m' =>
    { m := m'
      now := match a with
        | .tick => s.now + 1
        | _ => s.now
      asleep := s.asleepAfter a m' })

/-- Boot: nobody sleeps. -/
def boot (memAnswers : Nat → Option Addr) : SleepSystem :=
  { m := Boot.machine memAnswers, now := 0, asleep := fun _ => none }

/-- A tick in this state wakes only processes that their own calls of `sleepTicks` keep blocked, and
    only when these are over. -/
def WakesSleepers (s : SleepSystem) : Prop :=
  ∀ p, (s.m.k.proc p).state = .blocked → ((timerHandler s.m.k).proc p).state ≠ .blocked →
    ∃ w, s.asleep p = some w ∧ w ≤ s.now + 1

end SleepSystem

/-- The step blocks no process under whose pid there is an entry in the sleeping queue; `sleepTicks` is
    called by the process registered under its own pid, which is not blocked; a new process is not blocked
    when it is registered; and neither the clock nor the end of the sleep passes `2 ^ 64`. -/
structure SleepsAlone (m : Machine) (a : Action) : Prop where
  blocks : ∀ p, .block p ∈ m.stepActs a → (m.k.proc p).state ≠ .blocked →
    ∀ e ∈ sleepers m.k, processLookup m.k e.pid ≠ some p
  sleeps : ∀ n c, m.Executes a (.sys (.sleepTicks n)) → m.k.current = some c →
    processLookup m.k (m.k.proc c).pid = some c ∧ (m.k.proc c).state ≠ .blocked ∧
      m.k.ticks + n < 2 ^ 64
  registers : ∀ c attached, m.Executes a (.createRegister c attached) →
    (m.k.proc c.process).state ≠ .blocked
  ticks : a = .tick → m.k.ticks + 1 < 2 ^ 64

/-- Every entry of the sleeping queue is that of the process asleep under its pid, if that one is
    blocked at all. -/
structure EntriesOfSleepers (s : SleepSystem) : Prop where
  clock : s.m.k.ticks = s.now
  entries : ∀ e ∈ sleepers s.m.k, ∀ p, processLookup s.m.k e.pid = some p →
    (s.m.k.proc p).state = .blocked → s.asleep p = some e.wakeTime

namespace EntriesOfSleepers

variable {s s' : SleepSystem}

/-- Then a tick wakes sleepers only. -/
theorem wakesSleepers (h : EntriesOfSleepers s) (ht : s.m.k.ticks + 1 < 2 ^ 64) : s.WakesSleepers := by
  intro p hp hp'
  have hmem : SchedAct.unblock p ∈ sleeperActs (nextTick s.m.k) (s.m.k.sleepingQueue.getD []) := by
    rcases (timerHandler_acts s.m.k).left_blocked hp hp' with hm | hm | hm | hm
    · exact hm
    all_goals
      obtain ⟨e, -, q, -, -, hq⟩ := mem_sleeperActs hm
      cases hq
  obtain ⟨e, he, q, hwake, hlookup, hq⟩ := mem_sleeperActs hmem
  cases hq
  refine ⟨e.wakeTime, h.entries e he p hlookup hp, ?_⟩
  have hclock := h.clock
  change e.wakeTime ≤ (s.m.k.ticks + 1) % 2 ^ 64 at hwake
  rw [Nat.mod_eq_of_lt ht] at hwake
  omega

/-- A process that stays blocked in a step that puts nobody to sleep stays asleep. -/
theorem asleep_keep {a : Action} {m' : Machine} {p : Addr} (hf : s.m.fallsAsleep a = none)
    (hp : (s.m.k.proc p).state = .blocked) (hp' : (m'.k.proc p).state = .blocked) :
    s.asleepAfter a m' p = s.asleep p := by
  simp only [SleepSystem.asleepAfter, hf, SleepSystem.asleepAfter.keep, hp, hp', and_self, if_true]

/-- A process blocked after a step was so before, or the step blocks it. -/
theorem blocked_before {m m' : Machine} {a : Action} (hs : m.step a = some m') {p : Addr}
    (hp : (m'.k.proc p).state = .blocked) :
    (m.k.proc p).state = .blocked ∨ .block p ∈ m.stepActs a :=
  (m.prepared_acts a).blocked (Machine.step_state hs (.inl rfl) hp)

/-- A step that puts nobody to sleep and registers no blocked process. -/
theorem keep (h : EntriesOfSleepers s) {a : Action} {m' : Machine} (hg : SleepsAlone s.m a)
    (hs : s.m.step a = some m') (hf : s.m.fallsAsleep a = none) {now : Nat}
    (hclock : m'.k.ticks = now) (hsub : sleepers m'.k ⊆ sleepers s.m.k)
    (hlookup : ∀ pid p, processLookup m'.k pid = some p → (m'.k.proc p).state = .blocked →
      processLookup s.m.k pid = some p) :
    EntriesOfSleepers { m := m', now := now, asleep := s.asleepAfter a m' } where
  clock := hclock
  entries e he p hp hb := by
    have hp0 := hlookup e.pid p hp hb
    by_cases hb0 : (s.m.k.proc p).state = .blocked
    · exact (asleep_keep hf hb0 hb).trans (h.entries e (hsub he) p hp0 hb0)
    · have hact := (blocked_before hs hb).resolve_left hb0
      exact absurd hp0 (hg.blocks p hact hb0 e (hsub he))

/-- The call of `sleepTicks`. -/
theorem sleep (h : EntriesOfSleepers s) {n : Nat} (hg : SleepsAlone s.m .exec)
    (hn : s.m.next = some (.sys (.sleepTicks n))) (hs : s.step .exec = some s') :
    EntriesOfSleepers s' := by
  obtain ⟨m', hm, rfl⟩ := Option.map_eq_some_iff.mp hs
  obtain ⟨i, hi, -, hk⟩ := Machine.step_exec hm
  cases hn.symm.trans hi
  have hk' : m'.k = (sleepTicks s.m.k n).2 := by
    rw [hk, s.m.execInstr_k (by simp)]
    rfl
  have hproc : m'.k.processes = s.m.k.processes := by
    rw [hk']
    exact (sleepTicks_sleeps s.m.k n).processes
  have hfalls : s.m.fallsAsleep .exec =
      if (sleepTicks s.m.k n).1 then s.m.k.current.map (fun c => (c, n)) else none := by
    simp only [Machine.fallsAsleep, hn]
  have hacts : s.m.stepActs .exec =
      if (sleepTicks s.m.k n).1 then s.m.k.current.toList.map .block else [] := by
    simp only [Machine.stepActs, hn]
    rfl
  have hspec := sleepTicks_spec s.m.k n
  revert hspec hk' hfalls hacts
  generalize sleepTicks s.m.k n = slept
  intro hk' hfalls hacts hspec
  cases hspec with
  | not k' clock queue =>
      refine h.keep hg hm (by simpa using hfalls) ?_ ?_ ?_
      · rw [hk']
        exact clock.trans h.clock
      · rw [hk', queue]
        exact List.Subset.refl _
      · intro pid p hp _
        rwa [processLookup_congr hproc] at hp
  | asleep k' c a current clock queue =>
      obtain ⟨hreg, hnb, hwrap⟩ := hg.sleeps n c ⟨rfl, hn⟩ current
      rw [current, if_pos rfl] at hacts hfalls
      have hnone := hg.blocks c (hacts ▸ List.mem_cons_self) hnb
      refine ⟨?_, ?_⟩
      · show m'.k.ticks = s.now
        rw [hk']
        exact clock.trans h.clock
      · intro e he p hp hb
        rw [processLookup_congr hproc] at hp
        show s.asleepAfter .exec m' p = some e.wakeTime
        change (m'.k.proc p).state = .blocked at hb
        change e ∈ sleepers m'.k at he
        rw [hk', queue] at he
        rcases List.mem_append.mp he with hold | hnew
        · -- an older entry is of somebody else, who was asleep already
          have hpc : p ≠ c := fun hpc => hnone e hold (hpc ▸ hp)
          have hb0 : (s.m.k.proc p).state = .blocked := by
            refine (blocked_before hm hb).resolve_right fun hact => ?_
            rw [hacts] at hact
            cases List.mem_singleton.mp hact
            exact hpc rfl
          have hkeep : s.asleepAfter .exec m' p = s.asleep p := by
            simp [SleepSystem.asleepAfter, hfalls, SleepSystem.asleepAfter.keep, hpc, hb0, hb]
          rw [hkeep]
          exact h.entries e hold p hp hb0
        · cases List.mem_singleton.mp hnew
          cases hp.symm.trans hreg
          have hself : s.asleepAfter .exec m' c = some (s.now + n) := by
            simp [SleepSystem.asleepAfter, hfalls, hnb]
          rw [hself, Nat.mod_eq_of_lt hwrap, h.clock]

/-- **Step lemma.** -/
theorem step (h : EntriesOfSleepers s) {a : Action} (hg : SleepsAlone s.m a)
    (hs : s.step a = some s') : EntriesOfSleepers s' := by
  obtain ⟨m', hm, rfl⟩ := Option.map_eq_some_iff.mp hs
  have hrefl : ∀ l : List SleepingProcess, l ⊆ l := List.Subset.refl
  cases a with
  | exec =>
      obtain ⟨i, hn, -, rfl⟩ := Machine.step_exec hm
      by_cases hi : i = .int20
      · subst hi
        have hout := SameRest.of_outside (scheduleTick_outside s.m.k s.m.cpu)
        refine h.keep hg hm (by simp [Machine.fallsAsleep, hn]) (hout.ticks.trans h.clock) ?_ ?_
        · unfold sleepers
          rw [show (s.m.execInstr .int20).k.sleepingQueue = s.m.k.sleepingQueue from hout.sleepingQueue]
          exact hrefl _
        · intro pid p hp _
          exact (processLookup_congr hout.processes pid).symm.trans hp
      · by_cases hsleep : ∃ n, i = .sys (.sleepTicks n)
        · obtain ⟨n, rfl⟩ := hsleep
          exact h.sleep hg hn hs
        · have hk := s.m.execInstr_k hi
          have hf : s.m.fallsAsleep .exec = none := by
            simp only [Machine.fallsAsleep, hn]
            split
            · next n _ heq => exact absurd ⟨n, by simpa using heq⟩ hsleep
            · rfl
          obtain ⟨hclock, hqueue⟩ := exec_sameTimer s.m.k s.m.thread.regs hsleep
          refine h.keep hg hm hf ?_ ?_ ?_
          · rw [hk]
            exact hclock.trans h.clock
          · unfold sleepers
            rw [hk, hqueue]
            exact hrefl _
          -- a process registered by this very step is not BLOCKED
          · intro pid p hp hb
            rw [hk] at hp hb
            rcases exec_lookup hp with hp | ⟨c, attached, rfl, hok, rfl, -⟩
            · exact hp
            · refine absurd ?_ (hg.registers c attached ⟨rfl, hn⟩)
              exact ((createRegisterCode_same s.m.k s.m.thread.regs c attached).state _).symm.trans hb
  -- the clock goes on by one, and the handler only takes entries out
  | tick =>
      obtain ⟨-, rfl⟩ := Machine.step_tick hm
      have hout := SameRest.of_outside (scheduleTick_outside (timerHandler s.m.k) s.m.cpu)
      refine h.keep hg hm rfl ?_ ?_ ?_
      · refine hout.ticks.trans ((timerHandler_ticks s.m.k).trans ?_)
        rw [Nat.mod_eq_of_lt (hg.ticks rfl), h.clock]
      · refine List.Subset.trans ?_ (timerHandler_sleepers s.m.k)
        unfold sleepers
        rw [show (Machine.schedule { s.m with k := timerHandler s.m.k }).k.sleepingQueue =
          (timerHandler s.m.k).sleepingQueue from hout.sleepingQueue]
        exact hrefl _
      · intro pid p hp _
        have hp' := (processLookup_congr hout.processes pid).symm.trans hp
        exact (processLookup_congr (timerHandler_processes s.m.k) pid).symm.trans hp'
  | syscall c =>
      obtain ⟨-, -, -, rfl⟩ := Machine.step_syscall hm
      exact h.keep hg hm rfl h.clock (hrefl _) fun _ _ hp _ => hp
  | ret =>
      obtain ⟨-, -, rfl⟩ := Machine.step_ret hm
      exact h.keep hg hm rfl h.clock (hrefl _) fun _ _ hp _ => hp
  | exception =>
      obtain ⟨-, -, rfl⟩ := Machine.step_exception hm
      exact h.keep hg hm rfl h.clock (hrefl _) fun _ _ hp _ => hp
  | key e =>
      obtain ⟨-, rfl⟩ := Machine.step_key hm
      exact h.keep hg hm rfl h.clock (hrefl _) fun _ _ hp _ => hp

theorem boot (memAnswers : Nat → Option Addr) : EntriesOfSleepers (.boot memAnswers) where
  clock := rfl
  entries _ he := absurd he List.not_mem_nil

end EntriesOfSleepers

/-- **Ticks wake sleepers only**, in any run in which no process with an entry in the sleeping queue
    under its pid is blocked otherwise: whoever a tick unblocks is blocked by its own call of
    `sleepTicks`, and that call is over. -/
theorem ticks_wake_sleepers {memAnswers : Nat → Option Addr} {as : List Action} {s : SleepSystem}
    (hrun : GuardedRun SleepSystem.step (fun s a => SleepsAlone s.m a) (.boot memAnswers) as s)
    (htick : SleepsAlone s.m .tick) : s.WakesSleepers := by
  have hinv : EntriesOfSleepers s :=
    hrun.invariant EntriesOfSleepers (fun _ _ _ h hg hs => h.step hg hs) (.boot memAnswers)
  exact hinv.wakesSleepers (htick.ticks rfl)

/-! ## A sleeper and somebody else -/

/-- The condition on the process that a scheduler operation blocks. -/
def blocksAlone (k : Kernel) : SchedAct → Bool
  | .block p => decide ((k.proc p).state = .blocked) ||
      (sleepers k).all (fun e => decide (processLookup k e.pid ≠ some p))
  | _ => true

/-- The conditions on the caller of `sleepTicks` and on the clock. -/
def sleepsInTime (m : Machine) (a : Action) : Bool :=
  match a, m.next, m.k.current with
  | .exec, some (.sys (.sleepTicks n)), some c =>
    decide (processLookup m.k (m.k.proc c).pid = some c) &&
      decide ((m.k.proc c).state ≠ .blocked) && decide (m.k.ticks + n < 2 ^ 64)
  | .exec, some (.createRegister c _), _ => decide ((m.k.proc c.process).state ≠ .blocked)
  | .tick, _, _ => decide (m.k.ticks + 1 < 2 ^ 64)
  | _, _, _ => true

theorem sleepsAlone_of_check {m : Machine} {a : Action} (hb : (m.stepActs a).all (blocksAlone m.k))
    (ht : sleepsInTime m a) : SleepsAlone m a where
  blocks p hp hnb e he := by
    have hcheck := List.all_eq_true.mp hb _ hp
    simp only [blocksAlone, hnb, decide_false, Bool.false_or, List.all_eq_true,
      decide_eq_true_eq] at hcheck
    exact hcheck e he
  sleeps n c hex hc := by
    obtain ⟨rfl, hn⟩ := hex
    simpa [sleepsInTime, hn, hc, and_assoc] using ht
  registers c attached hex := by
    obtain ⟨rfl, hn⟩ := hex
    simpa [sleepsInTime, hn] using ht
  ticks := by
    rintro rfl
    simpa [sleepsInTime] using ht

/-- The shell sleeps for one tick. -/
def shellSleeps : List Action := startShell ++ [.syscall (.sleepTicks 1), .exec]

set_option maxRecDepth 100000 in
/-- The next tick wakes the shell. -/
theorem ticks_wake_sleepers_shell : ∃ s,
    GuardedRun SleepSystem.step (fun s a => SleepsAlone s.m a) (.boot freshBlocks) shellSleeps s ∧
      (s.m.k.proc (KERNEL_BASE + 100)).state = .blocked ∧
      ((timerHandler s.m.k).proc (KERNEL_BASE + 100)).state = .ready ∧ s.WakesSleepers := by
  obtain ⟨s, hs, hfacts⟩ := (Option.any_eq_true (fun s : SleepSystem =>
    decide ((s.m.k.proc (KERNEL_BASE + 100)).state = .blocked) &&
      decide (((timerHandler s.m.k).proc (KERNEL_BASE + 100)).state = .ready) &&
      (s.m.stepActs .tick).all (blocksAlone s.m.k) && sleepsInTime s.m .tick)
    (GuardedRun.check SleepSystem.step
      (fun s a => (s.m.stepActs a).all (blocksAlone s.m.k) && sleepsInTime s.m a)
      (.boot freshBlocks) shellSleeps)).mp (by decide +kernel)
  simp only [Bool.and_eq_true, decide_eq_true_eq] at hfacts
  obtain ⟨⟨⟨hasleep, hwoken⟩, hblocks⟩, htime⟩ := hfacts
  have hrun : GuardedRun SleepSystem.step (fun s a => SleepsAlone s.m a) (.boot freshBlocks)
      shellSleeps s := by
    refine (GuardedRun.of_check hs).mono fun s a hcheck => ?_
    obtain ⟨hb, ht⟩ := Bool.and_eq_true_iff.mp hcheck
    exact sleepsAlone_of_check hb ht
  exact ⟨s, hrun, hasleep, hwoken, ticks_wake_sleepers hrun (sleepsAlone_of_check hblocks htime)⟩

/-- The shell opens a semaphore without tokens and creates a child, which falls asleep for 12 ticks.
    The shell wakes it early, and the child waits for the semaphore. -/
def wokenEarly : List Action :=
  startShell ++
  .syscall (.semOpen ['s'] 0 true) :: List.replicate 2 .exec ++
  .syscall (.processCreate 0 0 false (KERNEL_BASE * 4)) :: List.replicate 45 .exec ++
  List.replicate 4 .tick ++
  .exec :: .syscall (.sleepTicks 12) :: List.replicate 8 .exec ++
  .syscall (.processUnblock 4) :: .exec :: List.replicate 4 .tick ++
  List.replicate 6 .exec ++
  .syscall (.semWait (KERNEL_BASE + 114)) :: List.replicate 5 .exec ++ List.replicate 7 .tick

set_option maxRecDepth 100000 in
/-- The next tick wakes the child, which is asleep no more but waits for the semaphore. -/
theorem waiter_woken_by_tick :
    ¬ ∀ (memAnswers : Nat → Option Addr) (as : List Action) (s : SleepSystem),
      GuardedRun SleepSystem.step (fun _ _ => True) (.boot memAnswers) as s → s.WakesSleepers := by
  intro h
  obtain ⟨s, hs, hfacts⟩ := (Option.any_eq_true (fun s : SleepSystem =>
    decide ((s.m.k.proc (KERNEL_BASE + 118)).state = .blocked) &&
      decide (((timerHandler s.m.k).proc (KERNEL_BASE + 118)).state ≠ .blocked) &&
      decide (s.asleep (KERNEL_BASE + 118) = none))
    (GuardedRun.check SleepSystem.step (fun _ _ => True) (.boot freshBlocks) wokenEarly)).mp
    (by decide +kernel)
  simp only [Bool.and_eq_true, decide_eq_true_eq] at hfacts
  obtain ⟨⟨hblocked, hwoken⟩, hnone⟩ := hfacts
  obtain ⟨w, hw, -⟩ := h _ _ s (GuardedRun.of_check hs) _ hblocked hwoken
  cases hnone.symm.trans hw

end TpSo
