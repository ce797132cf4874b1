import TpSo.Machine.Seats
import TpSo.Process.Alive

set_option autoImplicit false

/-! # Whom `reap_child_process` takes away

`reap_child_process` waits on the child's exit semaphore and then takes the child out of the table and
frees it, without a look at its state. In a run that leaves the exits alone it does so only with a child
that has ended. -/

namespace TpSo

/-! ## Reaps -/

/-- The instruction is the part of a reap of `p` after its `sem_wait`, `back` being what is behind it. A
    creation that failed frees the process too, but goes on otherwise. -/
def Instr.reapsAt (p : Addr) (i : Instr) (back : List Instr) : Prop :=
  i = .reapUnregister p ∨ i.discards p = true ∧ ∃ rest, back = .setRax 0 :: rest

/-- The processor takes `p` out of the process table, or frees it, in a `reap_child_process`. -/
def Machine.Reaping (m : Machine) (p : Addr) : Prop :=
  ∃ i back, m.code m.cpu = i :: back ∧ i.reapsAt p back

theorem Instr.reapsAt.concerns {p : Addr} {i : Instr} {back : List Instr} (h : i.reapsAt p back) :
    i.concerns p = true := by
  rcases h with rfl | ⟨hf, -⟩
  · simp [Instr.concerns, Instr.reaps]
  · simp [Instr.concerns, Instr.handles, hf]

/-- **A process that has not ended** is not taken away. -/
theorem Alive.not_reaping {start : Addr → Nat} {m : Machine} {p : Addr} (h : Alive start m p) :
    ¬ m.Reaping p := by
  rintro ⟨i, back, hcode, rfl | ⟨hf, rest, rfl⟩⟩
  · obtain ⟨s, -, j, hj, -⟩ := h.awaited m.cpu [] back hcode
    cases hj
  · obtain ⟨use, rest', heq⟩ := h.failed m.cpu [] i _ hcode hf
    cases heq

/-! ## The stack of `main` -/

/-- Does the instruction create or reap processes, or can it come to that? -/
def Instr.tends (i : Instr) : Bool :=
  i.creates || (i matches .reapChildProcess _ | .reapUnregister _ | .waitChildrenLoop _ _ _
    | .processFreeMemory _ | .processFreeRest _)

theorem exec_tends (k : Kernel) (r : Regs) {i : Instr} (hi : i.tends = false) :
    ∀ j ∈ (exec k r i).code, j.tends = false := by
  intro j hj
  have hcomes := exec_comesTo k r i j hj
  cases j <;> first | rfl | cases i <;> first | cases hi; done | cases hcomes

theorem Instr.reapsAt.tends {p : Addr} {i : Instr} {back : List Instr} (h : i.reapsAt p back) :
    i.tends = true := by
  rcases h with rfl | ⟨hf, -⟩
  · rfl
  · cases i <;> first | rfl | cases hf

/-- On the stack of `main`, which `hlt`s, there are only handlers of keys. -/
def MainIdles (m : Machine) : Prop := ∀ i ∈ m.code 0, i.tends = false

/-- The handlers of keys and ticks do not create or reap either. -/
theorem entered_tends {m m' : Machine} {a : Action} (hs : m.step a = some m') (hn : m.next ≠ some .user) :
    ∀ j ∈ m.entered a, j.tends = false := by
  intro j hj
  cases a with
  | syscall c => exact absurd (Machine.step_syscall hs).2.1 hn
  | exception => exact absurd (Machine.step_exception hs).2.1 hn
  | key e =>
      have hall : (m.keyHandler e).all (fun i => !i.tends) = true := by
        unfold Machine.keyHandler Machine.keyCode
        repeat' split
        all_goals rfl
      simpa using List.all_eq_true.mp hall j hj
  | _ => cases hj

theorem MainIdles.step {m m' : Machine} {a : Action} (h : MainIdles m) (hs : m.step a = some m') :
    MainIdles m' := by
  have hspawn : ¬ m.Spawns a 0 := by
    rintro hsp
    have hbase : KERNEL_BASE ≤ 0 := by
      obtain ⟨i, ⟨rfl, hn⟩, -⟩ := id hsp
      have hfresh := fresh_of_spawns hsp
      simp only [Machine.stepActs, hn] at hfresh
      cases mem_schedActs hfresh with
      | create hp =>
          rcases memAlloc_cases m.k .process with hm | ⟨q, -, hq, hm⟩ <;> rw [hm] at hp
          · cases hp
          · cases hp
            exact hq
    exact absurd hbase (by decide)
  by_cases hcpu : m.cpu = 0
  · have hnext : ∀ i, m.next = some i → i.tends = false := by
      intro i hn
      obtain ⟨rest, hcode, -⟩ := Machine.code_of_next hn
      exact h i (hcpu ▸ hcode ▸ List.mem_cons_self)
    intro j hj
    by_cases hexec : ∃ i, m.Executes a i ∧ i ≠ .int20
    · obtain ⟨i, ⟨rfl, hn⟩, hi⟩ := hexec
      obtain ⟨i', hn', -, rfl⟩ := Machine.step_exec hs
      cases hn.symm.trans hn'
      obtain ⟨rest, hcode, hrest⟩ := Machine.code_of_next hn
      rw [Machine.execInstr_code hi hrest, if_neg fun hsp => hspawn ⟨i, ⟨rfl, hn⟩, hsp⟩, if_pos hcpu.symm] at hj
      rcases List.mem_append.mp hj with hnew | hold
      · exact exec_tends m.k m.thread.regs (hnext i hn) j hnew
      · exact h j (hcpu ▸ hcode ▸ .tail _ hold)
    · have hother : ∀ i, m.Executes a i → i = .int20 := fun i hi => by
        by_contra hne
        exact hexec ⟨i, hi, hne⟩
      obtain ⟨gone, new, rest, hold, hnew, -, hentered⟩ := (Machine.step_other hs hother).2 0
      rw [hnew] at hj
      rcases List.mem_append.mp hj with hin | hrest
      · exact entered_tends hs (fun hn => Bool.noConfusion (hnext _ hn)) j (hentered j hin)
      · exact h j (hold ▸ List.mem_append_right _ hrest)
  · intro j hj
    rw [Machine.step_code_of_ne hs (Ne.symm hcpu) hspawn] at hj
    exact h j hj

theorem MainIdles.boot (memAnswers : Nat → Option Addr) : MainIdles (Boot.machine memAnswers) := by
  have hcode : (Boot.machine memAnswers).code 0 = [.hlt] := rfl
  intro i hi
  rw [hcode, List.mem_singleton] at hi
  rw [hi]
  rfl

/-! ## Whose stack a reap is on -/

/-- A process is reaped on the stack of another one. -/
def ReapsOthers (m : Machine) : Prop :=
  ∀ t p front i back, m.code t = front ++ i :: back → i.reapsAt p back → t ≠ p ∧ p ≠ Boot.idle

theorem ReapsOthers.step {m m' : Machine} {a : Action} (h : ReapsOthers m) (hg : LeavesExits m a)
    (hs : m.step a = some m') : ReapsOthers m' := by
  intro t p front j back hf hj
  by_cases hexec : ∃ i, m.Executes a i ∧ i ≠ .int20
  · obtain ⟨i, ⟨rfl, hn⟩, hi⟩ := hexec
    obtain ⟨i', hn', -, rfl⟩ := Machine.step_exec hs
    cases hn.symm.trans hn'
    have hentry : j ≠ .entryWrapper := by
      rintro rfl
      cases hj.concerns
    rcases Machine.execInstr_split hi hn hentry hf with
      ⟨rfl, mid, rest, hcode, hnew, rfl⟩ | ⟨-, mid, hold, -⟩ | ⟨-, hold⟩
    · rcases hj with rfl | ⟨hfrees, rest', hback⟩
      · have hreap : i = .reapChildProcess p := by
          have hcomes := exec_comesTo m.k m.thread.regs i (.reapUnregister p) (hnew ▸ by simp)
          cases i <;> try cases hcomes
          case reapChildProcess q =>
              have hmem : Instr.reapUnregister p ∈ (exec m.k m.thread.regs (.reapChildProcess q)).code :=
                hnew ▸ by simp
              simp only [exec, onSem] at hmem
              split at hmem <;> simp_all
        exact hg.reaped p ⟨rfl, hreap ▸ hn⟩
      · rcases exec_discards hnew hfrees with ⟨use, rfl⟩ | ⟨rfl, rfl⟩ | ⟨rfl, -⟩
        · cases hback
        · exact h m.cpu p [] _ rest hcode (.inr ⟨by simp [Instr.discards], rest', hback⟩)
        · exact h m.cpu p [] _ rest hcode (.inl rfl)
    · exact h t p (i :: mid) j back hold hj
    · exact h t p front j back hold hj
  · have hother : ∀ i, m.Executes a i → i = .int20 := fun i hi => by
      by_contra hne
      exact hexec ⟨i, hi, hne⟩
    obtain ⟨gone, new, rest, hold, hnew, -, hentered⟩ := (Machine.step_other hs hother).2 t
    rcases append_split (hf.symm.trans hnew) with ⟨mid, hin, -⟩ | ⟨mid, -, hrest⟩
    · have hno := entered_concerns (p := p) j (hentered j (hin ▸ by simp))
      rw [hj.concerns] at hno
      cases hno
    · exact h t p (gone ++ mid) j back (by rw [hold, hrest, List.append_assoc]) hj

/-- At boot the stacks have nothing to execute that concerns a process. -/
theorem boot_code (memAnswers : Nat → Option Addr) (t : Addr) :
    ∀ i ∈ (Boot.machine memAnswers).code t, ∀ p, i.concerns p = false := by
  intro i hi p
  simp only [Machine.code, Boot.machine] at hi
  split at hi
  · rw [List.mem_singleton.mp hi]
    rfl
  · rw [List.mem_singleton.mp hi]
    rfl

theorem ReapsOthers.boot (memAnswers : Nat → Option Addr) : ReapsOthers (Boot.machine memAnswers) := by
  intro t p front i back hf hi
  have hno := boot_code memAnswers t i (hf ▸ by simp) p
  rw [hi.concerns] at hno
  cases hno

/-- A process object is made by the execution of an instruction. -/
theorem executes_of_fresh {m : Machine} {a : Action} {p : Addr} (h : .fresh p ∈ m.stepActs a) :
    ∃ i, a = .exec ∧ m.next = some i ∧ .fresh p ∈ schedActs m.k i := by
  cases a with
  | exec =>
      simp only [Machine.stepActs] at h
      split at h
      · cases h
      · next i hn => exact ⟨i, rfl, hn, h⟩
  | tick =>
      obtain ⟨e, he, q, hwake, hq, hf⟩ := mem_sleeperActs h
      cases hf
  | _ => cases h

/-! ## Runs -/

/-- What a run that leaves the exits alone keeps up. -/
structure Reaps (start : Addr → Nat) (m : Machine) : Prop where
  owners : Stacks m
  placed : Placed m.k
  main : MainIdles m
  others : ReapsOthers m
  ledger : ∃ waits given, Ledger start m waits given ∧ LeavesFirst m waits given
  alive : ∀ p, p ≠ Boot.idle → (m.k.proc p).state = .terminated ∨ Alive start m p

/-- **Step lemma.** -/
theorem Reaps.step {start : Addr → Nat} {m m' : Machine} {a : Action} (h : Reaps start m)
    (hg : LeavesExits m a) (hs : m.step a = some m') : Reaps start m' := by
  obtain ⟨waits, given, hledger, hleaves⟩ := h.ledger
  obtain ⟨waits', given', hledger', hleaves'⟩ := hledger.step hleaves h.owners hg.waits hs
  have hplaced : Placed (m.prepared a) :=
    (m.prepared_acts a).placed_of_fresh h.placed fun q hq =>
      ⟨fresh_alone hq, fun hqueued => hg.rebuilt q hq (.inr (.inl hqueued))⟩
  refine ⟨h.owners.step hs, ?_, h.main.step hs, h.others.step hg hs, ⟨waits', given', hledger', hleaves'⟩,
    fun p hp => ?_⟩
  · cases Machine.step_cases hs with
    | stays _ hk _ => exact hk ▸ hplaced
    | switched _ hk _ => exact hk ▸ scheduleTick_placed hplaced m.cpu
  · by_cases hlive : (m'.k.proc p).state = .terminated
    · exact .inl hlive
    · refine .inr ?_
      have hprep : ((m.prepared a).proc p).state ≠ .terminated :=
        fun ht => hlive (step_terminated h.owners hp ht hs)
      by_cases hfresh : .fresh p ∈ m.stepActs a
      · obtain ⟨i, rfl, hn, hact⟩ := executes_of_fresh hfresh
        obtain ⟨i', hn', -, rfl⟩ := Machine.step_exec hs
        cases hn.symm.trans hn'
        exact .exec_fresh hn hact hg
      · -- a process that was `TERMINATED` and is so no more is one the kernel did not know
        have halive : Alive start m p := by
          rcases h.alive p hp with ht | halive
          · refine .of_unknown fun hk => ?_
            obtain ⟨hb, hr⟩ := hg.ended p hp hk ht
            exact hprep ((m.prepared_acts a).terminated ht hb hr hfresh)
          · exact halive
        by_cases hexec : ∃ i, m.Executes a i ∧ i ≠ .int20
        · obtain ⟨i, ⟨rfl, hn⟩, hi⟩ := hexec
          obtain ⟨i', hn', -, rfl⟩ := Machine.step_exec hs
          cases hn.symm.trans hn'
          simp only [Machine.stepActs, hn] at hfresh
          simp only [Machine.prepared, hn] at hprep
          exact halive.exec hn hfresh hprep hi hg hp hledger'
        · refine halive.other hs fun i hi => ?_
          by_contra hne
          exact hexec ⟨i, hi, hne⟩

/-- `init`, the only process besides idle, has an exit semaphore of its own. -/
theorem Alive.boot (memAnswers : Nat → Option Addr) {p : Addr} (hp : p ≠ Boot.idle) :
    Alive (fun s => ((Boot.kernel memAnswers).sem s).count) (Boot.machine memAnswers) p := by
  have hno : ∀ {t i}, i ∈ (Boot.machine memAnswers).code t → i.concerns p = true → False := by
    intro t i hi hc
    rw [boot_code memAnswers t i hi p] at hc
    cases hc
  have hzero : ∀ t, (Boot.machine memAnswers).hands p t = 0 := fun t => List.countP_eq_zero.mpr fun i hi hh =>
    hno hi (by simp [Instr.concerns, hh])
  refine ⟨fun t i hi => ?_, fun t => by rw [hzero]; exact Nat.zero_le _, fun t _ _ => .inl (hzero t),
    fun t i hi hh => (hno hi (by simp [Instr.concerns, hh])).elim, fun t front i back hf hh => ?_, fun hk => ?_,
    fun t front back hf => ?_⟩
  · by_contra hm
    exact hno hi (by simp [Instr.concerns, hm])
  · exact (hno (t := t) (i := i) (hf ▸ by simp) (by simp [Instr.concerns, Instr.handles, hh])).elim
  · rcases hk with ⟨pid, hreg⟩ | ⟨t, i, hi, hm | hr⟩
    · have hinit : p = Boot.init := by
        simp only [processLookup, Boot.machine, Boot.kernel] at hreg
        repeat' split at hreg
        all_goals cases hreg
        · exact absurd rfl hp
        · rfl
      subst hinit
      refine ⟨Boot.initSem, rfl, fun q hq => ?_, rfl, rfl⟩
      simp only [Boot.machine, Boot.kernel] at hq
      repeat' split at hq
      all_goals first
        | assumption
        | cases hq
    · exact (hno hi (by simp [Instr.concerns, Instr.handles, hm])).elim
    · exact (hno hi (by simp [Instr.concerns, hr])).elim
  · exact (hno (t := t) (i := .reapUnregister p) (hf ▸ by simp) (by simp [Instr.concerns, Instr.reaps])).elim

theorem Reaps.boot (memAnswers : Nat → Option Addr) :
    Reaps (fun s => ((Boot.kernel memAnswers).sem s).count) (Boot.machine memAnswers) where
  owners := .boot memAnswers
  placed := (SchedInv.boot memAnswers).placed
  main := .boot memAnswers
  others := .boot memAnswers
  ledger := ⟨_, _, .boot memAnswers, nofun⟩
  alive _ hp := .inr (Alive.boot memAnswers hp)

/-- **A step of a reap** finds a process that is `TERMINATED`, not current and in no ready queue. -/
theorem Reaps.ended {start : Addr → Nat} {m : Machine} (h : Reaps start m) {p : Addr} (hp : m.Reaping p) :
    (m.k.proc p).state = .terminated ∧ m.k.current ≠ some p ∧ ¬ Queued m.k p := by
  obtain ⟨i, back, hcode, hi⟩ := id hp
  obtain ⟨hne, hidle⟩ := h.others m.cpu p [] i back hcode hi
  have hended : (m.k.proc p).state = .terminated := (h.alive p hidle).resolve_right fun h => h.not_reaping hp
  have hidle' : m.k.idle ≠ some p := by
    rw [h.owners.idle]
    exact fun heq => hidle (Option.some.inj heq).symm
  refine ⟨hended, fun hcur => ?_, ?_⟩
  · rcases h.owners.cpu p hcur hidle' with hcpu | hcpu
    · exact hne hcpu
    · have hno := h.main i (hcpu ▸ hcode ▸ List.mem_cons_self)
      rw [hi.tends] at hno
      cases hno
  · rintro ⟨n, hn⟩
    exact absurd (hended.symm.trans (h.placed.entry n p hn hidle').1) (by decide)

/-- **Reaping.** In every run that leaves the exits alone, whom `reap_child_process` takes out of the
    table and frees is `TERMINATED`, not current and in no ready queue; and `process_wait_pid` returns
    something else than -1 only after such a reap of its child. -/
theorem reaps_only_ended {memAnswers : Nat → Option Addr} {as : List Action} {m : Machine}
    (h : GuardedRun Machine.step LeavesExits (Boot.machine memAnswers) as m) :
    (∀ p, m.Reaping p → (m.k.proc p).state = .terminated ∧ m.k.current ≠ some p ∧ ¬ Queued m.k p) ∧
    ∀ r pid, (exec m.k r (.sys (.processWaitPid pid))).code = [] ∧
        (exec m.k r (.sys (.processWaitPid pid))).r.rax = -1 ∨
      ∃ child, processLookup m.k pid = some child ∧
        (exec m.k r (.sys (.processWaitPid pid))).code = [.reapChildProcess child] := by
  have hinv := h.invariant _ (fun _ _ _ hi hg hs => Reaps.step hi hg hs) (Reaps.boot memAnswers)
  exact ⟨fun p hp => hinv.ended hp, fun r pid => processWaitPid_reaps m.k r pid⟩

/-! ## A run that leaves the exits alone -/

/-- Outside these stacks there is nothing to execute, and no process has an exit semaphore. -/
def NobodyBut (ts : List Addr) (m : Machine) : Prop :=
  ∀ t, t ∉ ts → m.code t = [.hlt] ∧ (m.k.proc t).exitSem = none

/-- An operation that blocks and wakes nobody, and makes a process only where the kernel knows none. -/
def quietAct (ts : List Addr) (m : Machine) : SchedAct → Bool
  | .exit _ => true
  | .ready p => noReturn [p] m && decide ((m.k.proc p).state ≠ .terminated)
  | .fresh p =>
    decide (p ∈ ts) && decide (p ≠ Boot.idle) && noReturn [p] m &&
      ts.all (fun t => !(m.code t).any (Instr.concerns p)) &&
      decide (∀ n < PROCESS_MAX_PROCESSES, m.k.processes n ≠ some p) &&
      decide (p ∉ entries m.k (priorityIndex (m.k.proc p).priority))
  | _ => false

/-- No `sem_wait` without a token, no post on an exit semaphore, no count stored. -/
def quietInstr (ts : List Addr) (m : Machine) : Instr → Bool
  | .semWaitLocked s => decide ((m.k.sem s).count ≠ 0)
  | .semPostLocked s => ts.all (fun p => decide ((m.k.proc p).exitSem ≠ some s))
  | .semStoreValue _ _ => false
  | .reapChildProcess p => decide (m.cpu ≠ p ∧ p ≠ Boot.idle)
  | .int20 => noReturn [m.cpu] m
  | _ => true

/-- An initialisation of a semaphore that nobody has or waits for. -/
def quietEvent (ts : List Addr) (m : Machine) : Event → Bool
  | .semInit s _ => noReturn ts m && ts.all (fun p => decide ((m.k.proc p).exitSem ≠ some s))
  | _ => true

/-- A step of such a run. -/
def quietly (ts : List Addr) (m : Machine) (a : Action) : Bool :=
  Machine.staysOn ts m a && (m.stepActs a).all (quietAct ts m) &&
    match a, m.next with
    | .exec, some i => quietInstr ts m i && (exec m.k m.thread.regs i).events.all (quietEvent ts m)
    | .tick, _ => noReturn [m.cpu] m
    | _, _ => true

/-- **Such a step** leaves the exits alone. -/
theorem leavesExits_of_quietly {ts : List Addr} {m : Machine} {a : Action} (h : quietly ts m a = true)
    (hout : NobodyBut ts m) (hpl : Placed m.k) (hidle : m.k.idle = some Boot.idle) : LeavesExits m a := by
  simp only [quietly, Bool.and_eq_true] at h
  obtain ⟨⟨hstays, hacts⟩, hinstr⟩ := h
  have hact : ∀ {act}, act ∈ m.stepActs a → quietAct ts m act = true := fun h => List.all_eq_true.mp hacts _ h
  have hexec : ∀ {i}, m.Executes a i → quietInstr ts m i = true ∧
      (exec m.k m.thread.regs i).events.all (quietEvent ts m) = true := by
    rintro i ⟨rfl, hn⟩
    simpa only [hn, Bool.and_eq_true] using hinstr
  have hall : noReturn ts m = true → ∀ t s, ¬ m.Pending t s := by
    intro hno t s
    by_cases ht : t ∈ ts
    · exact not_pending_of_noReturn hno ht s
    · rintro ⟨i, hi, hret⟩
      rw [(hout t ht).1, List.mem_singleton] at hi
      cases hi
      cases hret
  have hexit : ∀ s, (ts.all fun p => decide ((m.k.proc p).exitSem ≠ some s)) = true →
      ∀ p, (m.k.proc p).exitSem ≠ some s := by
    intro s hno p
    by_cases hp : p ∈ ts
    · exact of_decide_eq_true (List.all_eq_true.mp hno p hp)
    · rw [(hout p hp).2]
      simp
  have hinits : ∀ {s}, m.Inits a s → noReturn ts m = true ∧ ∀ p, (m.k.proc p).exitSem ≠ some s := by
    rintro s ⟨i, hi, e, he, hne⟩
    have hq := List.all_eq_true.mp (hexec hi).2 e he
    cases e <;> try exact absurd rfl hne
    case semInit t n =>
        simp only [quietEvent, Bool.and_eq_true] at hq
        simp only [Event.inits] at hne
        split at hne
        · next ht => exact ⟨hq.1, hexit s (ht ▸ hq.2)⟩
        · exact absurd rfl hne
  have hfresh : ∀ {p}, .fresh p ∈ m.stepActs a → noReturn [p] m = true ∧ ¬ m.Knows p := by
    intro p hp
    have hq := hact hp
    simp only [quietAct, Bool.and_eq_true, decide_eq_true_eq] at hq
    obtain ⟨⟨⟨⟨⟨-, hne⟩, hret⟩, hcode⟩, htable⟩, hqueue⟩ := hq
    refine ⟨hret, ?_⟩
    rintro (⟨pid, hreg⟩ | ⟨n, hn⟩ | ⟨t, i, hi, hc⟩)
    · unfold processLookup at hreg
      split at hreg
      · cases hreg
      · dsimp only at hreg
        split at hreg
        · cases hreg
        · exact htable _ (by omega) hreg
    · have hp := (hpl.entry n p hn fun heq => hne (Option.some.inj (heq.symm.trans hidle))).2
      exact hqueue (hp ▸ hn)
    · by_cases ht : t ∈ ts
      · have hno := List.all_eq_true.mp hcode t ht
        rw [Bool.not_eq_true', List.any_eq_false] at hno
        exact hno i hi hc
      · rw [(hout t ht).1, List.mem_singleton] at hi
        cases hi
        cases hc
  have hready : ∀ {p}, .ready p ∈ m.stepActs a → noReturn [p] m = true ∧ (m.k.proc p).state ≠ .terminated := by
    intro p hp
    simpa only [quietAct, Bool.and_eq_true, decide_eq_true_eq] using hact hp
  have hself : ∀ {p}, noReturn [p] m = true → ∀ s, ¬ m.Pending p s := fun h =>
    not_pending_of_noReturn h (List.mem_singleton_self _)
  have hswitch : m.switches a → noReturn [m.cpu] m = true := by
    intro hsw
    cases a with
    | exec => exact (hexec ⟨rfl, hsw⟩).1
    | tick => exact hinstr
    | _ => cases hsw
  have hwaits : HonoursWaits m a := by
    refine ⟨fun p s hu => ?_, fun s c hex hzero => ?_, fun hsw _ _ s => hself (hswitch hsw) s,
      fun p s hr => hself (hready hr).1 s, fun p s hf hpend => absurd hpend (hself (hfresh hf).1 s),
      fun s hs p => hall (hinits hs).1 p s, fun s v hex => ?_⟩
    · cases hact hu
    · exact absurd hzero (of_decide_eq_true (hexec hex).1)
    · cases (hexec hex).1
  exact {
    waits := hwaits
    called := fun s p hex _ hzero => absurd hzero (of_decide_eq_true (hexec hex).1)
    posted := fun s p hex hs => absurd hs (hexit s (hexec hex).1 p)
    renewed := fun s p hs => (hinits hs).2 p
    rebuilt := fun p hp => (hfresh hp).2
    ended := fun p _ _ ht => ⟨fun hb => Bool.noConfusion (hact hb), fun hr => (hready hr).2 ht⟩
    reaped := fun p hex => of_decide_eq_true (hexec hex).1 }

/-- Nobody else comes in. -/
theorem NobodyBut.step {ts : List Addr} {m m' : Machine} {a : Action} (h : NobodyBut ts m)
    (hq : quietly ts m a = true) (hs : m.step a = some m') : NobodyBut ts m' := by
  simp only [quietly, Bool.and_eq_true] at hq
  obtain ⟨⟨hstays, hacts⟩, -⟩ := hq
  intro t ht
  refine ⟨?_, ?_⟩
  · exact (Machine.code_of_staysOn (.cons hstays hs (.nil _)) ht).trans (h t ht).1
  · by_cases hexec : ∃ i, m.Executes a i ∧ i ≠ .int20
    · obtain ⟨i, ⟨rfl, hn⟩, hi⟩ := hexec
      obtain ⟨i', hn', -, rfl⟩ := Machine.step_exec hs
      cases hn.symm.trans hn'
      have hfresh : .fresh t ∉ schedActs m.k i := by
        intro hf
        have hact := List.all_eq_true.mp hacts (.fresh t) (by simpa only [Machine.stepActs, hn] using hf)
        simp only [quietAct, Bool.and_eq_true, decide_eq_true_eq] at hact
        exact ht hact.1.1.1.1.1
      rw [m.execInstr_k hi]
      by_cases hfree : i = .processFreeRest t
      · subst hfree
        refine Option.eq_none_iff_forall_ne_some.mpr fun s hsome => ?_
        have hold := exec_keepsExitSems m.k m.thread.regs (by simp) t s hsome
        rw [(h t ht).2] at hold
        cases hold
      · rw [exec_exitSem_eq _ hfresh hfree]
        exact (h t ht).2
    · have hother : ∀ i, m.Executes a i → i = .int20 := fun i hi => by
        by_contra hne
        exact hexec ⟨i, hi, hne⟩
      rw [(Machine.step_quiet hs hother).1 t]
      exact (h t ht).2

/-- A quiet run from boot leaves the exits alone. -/
theorem leavesExits_of_quiet_run {ts : List Addr} {guard : Machine → Action → Prop}
    (hquiet : ∀ m a, guard m a → quietly ts m a = true) {memAnswers : Nat → Option Addr} {as : List Action}
    {m : Machine} (hboot : NobodyBut ts (Boot.machine memAnswers))
    (h : GuardedRun Machine.step guard (Boot.machine memAnswers) as m) :
    GuardedRun Machine.step (fun m a => (guard m a ∧ NobodyBut ts m) ∧ LeavesExits m a)
      (Boot.machine memAnswers) as m := by
  refine h.strengthen (fun m => NobodyBut ts m ∧ Reaps (fun s => ((Boot.kernel memAnswers).sem s).count) m)
    (fun m a m' hinv hg hs => ?_) ⟨hboot, .boot memAnswers⟩
  obtain ⟨hout, hreaps⟩ := hinv
  have hleaves := leavesExits_of_quietly (hquiet m a hg) hout hreaps.placed hreaps.owners.idle
  exact ⟨⟨⟨hg, hout⟩, hleaves⟩, hout.step (hquiet m a hg) hs, hreaps.step hleaves hs⟩

/-- The processes of boot, and the shell. -/
def bootStacks : List Addr := [0, Boot.idle, Boot.init, KERNEL_BASE + 100]

theorem nobodyBut_boot (memAnswers : Nat → Option Addr) : NobodyBut bootStacks (Boot.machine memAnswers) := by
  intro t ht
  simp only [bootStacks, List.mem_cons, not_or] at ht
  obtain ⟨-, hidle, hinit, -⟩ := ht
  simp [Machine.code, Boot.machine, Boot.kernel, hidle, hinit]

/-- The process the processor is about to take out of the table. -/
def Machine.unregisters (m : Machine) : Option Addr :=
  match m.next with
  | some (.reapUnregister p) => some p
  | _ => none

theorem Machine.reaping_of_unregisters {m : Machine} {p : Addr} (h : m.unregisters = some p) : m.Reaping p := by
  unfold Machine.unregisters at h
  split at h
  · next q hn =>
    cases h
    obtain ⟨rest, hcode, -⟩ := Machine.code_of_next hn
    exact ⟨_, rest, hcode, .inl rfl⟩
  · cases h

/-- The shell ends, and `init` comes to the end of its reap. -/
def shellEnds : List Action := startShell ++ .ret :: List.replicate 72 .exec

set_option maxRecDepth 100000 in
/-- `init` takes the shell out of the table once it has ended. -/
theorem reaps_only_ended_shell : ∃ m,
    GuardedRun Machine.step LeavesExits (Boot.machine freshBlocks) shellEnds m ∧
      m.Reaping (KERNEL_BASE + 100) ∧ (m.k.proc (KERNEL_BASE + 100)).state = .terminated ∧
      m.k.current ≠ some (KERNEL_BASE + 100) ∧ ¬ Queued m.k (KERNEL_BASE + 100) := by
  obtain ⟨m, hm, hreap⟩ := (Option.any_eq_true (fun m : Machine =>
    decide (m.unregisters = some (KERNEL_BASE + 100)))
    (GuardedRun.check Machine.step (fun m a => quietly bootStacks m a) (Boot.machine freshBlocks)
      shellEnds)).mp (by decide +kernel)
  have hrun := (leavesExits_of_quiet_run (fun _ _ h => h) (nobodyBut_boot freshBlocks)
    (GuardedRun.of_check hm)).mono fun _ _ h => h.2
  have hreaping := Machine.reaping_of_unregisters (of_decide_eq_true hreap)
  exact ⟨m, hrun, hreaping, (reaps_only_ended hrun).1 _ hreaping⟩

/-- The shell waits for a child, which unblocks it. -/
def unblockedReaper : List Action :=
  startShell ++
  .syscall (.processCreate 0 0 false (KERNEL_BASE * 4)) :: List.replicate 45 .exec ++
  .syscall (.processWaitPid 4) :: List.replicate 7 .exec ++
  .syscall (.processUnblock 3) :: .exec :: List.replicate 4 .tick ++ List.replicate 7 .exec

set_option maxRecDepth 100000 in
/-- The shell takes the child out of the table, though the child is `READY` and in a ready queue. -/
theorem unblocked_parent_reaps : ¬ ∀ (memAnswers : Nat → Option Addr) (as : List Action) (m : Machine),
    Reaches memAnswers as m → ∀ p, m.Reaping p →
      (m.k.proc p).state = .terminated ∧ m.k.current ≠ some p ∧ ¬ Queued m.k p := by
  intro h
  obtain ⟨m, hm, hfacts⟩ := (Option.any_eq_true (fun m : Machine =>
    decide (m.unregisters = some (KERNEL_BASE + 114)) &&
      decide ((m.k.proc (KERNEL_BASE + 114)).state = .ready))
    ((Boot.machine freshBlocks).run unblockedReaper)).mp (by decide +kernel)
  simp only [Bool.and_eq_true, decide_eq_true_eq] at hfacts
  obtain ⟨hreap, hready⟩ := hfacts
  obtain ⟨hended, -⟩ := h _ _ m hm _ (Machine.reaping_of_unregisters hreap)
  exact absurd (hready.symm.trans hended) (by decide)

end TpSo
