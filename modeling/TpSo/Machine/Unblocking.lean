import TpSo.Machine.Progress
import TpSo.Machine.Terminated
import TpSo.Sem.Ledger

set_option autoImplicit false

/-! # `process_unblock` in pieces

`sem_post` and `sem_destroy` pop the waiters one by one, and `process_unblock` tests for `BLOCKED` before it
calls `scheduler_add_ready`. `init` and a process that returns from its entry function do so with interrupts
enabled, where a tick can come after the pop and after the test: the process in hand may have ended when its
turn comes. To the machine this is added; what each stack has in hand is part of the state. -/

namespace TpSo

/-- A waiter that the loop of `sem_post` or `sem_destroy` has popped, and whether `process_unblock` has found
    it `BLOCKED`. -/
structure Popped where
  sem : Addr
  process : Addr
  tested : Bool

/-- The machine, and for each stack the waiter its loop has in hand. -/
structure FineMachine where
  m : Machine
  popped : Addr → Option Popped

/-- What happens next. -/
inductive FineAction
  /-- An action of the machine. -/
  | whole (a : Action)
  /-- `queue_pop(sem->waiting_processes)`. -/
  | pop
  /-- The test of `process_unblock`. -/
  | test
  /-- `scheduler_add_ready`, and what follows it. -/
  | ready

/-- The semaphore whose waiters the instruction wakes. -/
def Instr.wakesFrom (k : Kernel) : Instr → Option Addr
  | .semPostLocked s | .semDestroyLocked s => some s
  | .exitSemPost p => (k.proc p).exitSem
  | _ => none

/-- What is left of `sem_post` once it has made the process `p` ready. -/
def postRest (k : Kernel) (r : Regs) (s p : Addr) : Outcome where
  k := semUnlock (schedulerAddReady k p) s
  r := r
  code := if k.timerMasked then [.processYield] else []
  events := [.semPosted s]

/-- The machine after an instruction that starts no stack. -/
def Machine.after (m : Machine) (o : Outcome) : Machine :=
  { m.setThread { m.advance o.code with regs := o.r } with k := o.k, log := o.events ++ m.log }

namespace FineMachine

/-- The stack a step of the machine gives to a new process. -/
def spawned (m : Machine) : Action → Option Addr
  | .exec => m.next.bind fun i => (exec m.k m.thread.regs i).spawned
  | _ => none

/-- `scheduler_add_ready` and what follows it: `sem_post` returns, `sem_destroy` goes on with its loop. -/
def addReady (m : Machine) (s p : Addr) : Machine :=
  match m.next with
  | some (.semPostLocked _) => m.after (postRest m.k { m.thread.regs with rax := 0 } s p)
  | some (.exitSemPost _) => m.after (postRest m.k m.thread.regs s p)
  | _ => { m with k := schedulerAddReady m.k p }

/-- One step. Between the pieces of a loop only interrupts can come. -/
def step (s : FineMachine) : FineAction → Option FineMachine
  | .whole a =>
    if s.m.interruptsEnabled ∧ (s.popped s.m.cpu).isSome ∧ ¬ a.interrupts then none
    else (s.m.step a).map fun m =>
      { m := m, popped := fun t => if spawned s.m a = some t then none else s.popped t }
  | .pop =>
    if s.m.interruptsEnabled ∧ (s.popped s.m.cpu).isNone then
      (s.m.next.bind (Instr.wakesFrom s.m.k)).bind fun sem =>
        match (s.m.k.sem sem).waitingProcesses with
        | some (p :: rest) =>
          some {
            m := { s.m with k := s.m.k.modSem sem fun x => { x with waitingProcesses := some rest } }
            popped := Function.update s.popped s.m.cpu (some ⟨sem, p, false⟩) }
        | _ => none
    else none
  | .test =>
    match s.popped s.m.cpu with
    | some ⟨sem, p, false⟩ =>
      if s.m.interruptsEnabled then
        some { s with
          popped := Function.update s.popped s.m.cpu
            (if (s.m.k.proc p).state = .blocked then some ⟨sem, p, true⟩ else none) }
      else none
    | _ => none
  | .ready =>
    match s.popped s.m.cpu with
    | some ⟨sem, p, true⟩ =>
      if s.m.interruptsEnabled then
        some { m := addReady s.m sem p, popped := Function.update s.popped s.m.cpu none }
      else none
    | _ => none

/-- At boot no loop is under way. -/
def boot (memAnswers : Nat → Option Addr) : FineMachine where
  m := Boot.machine memAnswers
  popped _ := none

/-! ## One step -/

/-- The scheduler operations of a step before `schedule_tick`. -/
def stepActs (s : FineMachine) : FineAction → List SchedAct
  | .whole a => s.m.stepActs a
  | .ready => (s.popped s.m.cpu).toList.map fun w => .ready w.process
  | _ => []

theorem addReady_acts (m : Machine) (s p : Addr) : SchedActs m.k [.ready p] (addReady m s p).k := by
  have hready : (SchedAct.ready p).Step m.k (schedulerAddReady m.k p) := rfl
  unfold addReady
  split
  · exact .one (.refl _) hready (.of_eq rfl rfl rfl rfl rfl)
  · exact .one (.refl _) hready (.of_eq rfl rfl rfl rfl rfl)
  · exact .one (.refl _) hready (.refl _)

theorem addReady_cpu (m : Machine) (s p : Addr) : (addReady m s p).cpu = m.cpu := by
  unfold addReady
  split <;> rfl

/-- What a step does: an action of the machine, or a piece of a loop. -/
inductive StepCase (s : FineMachine) (s' : FineMachine) : FineAction → Prop
  | whole (a : Action) (step : s.m.step a = some s'.m)
      (popped : ∀ t w, s'.popped t = some w → s.popped t = some w) : StepCase s s' (.whole a)
  | piece (a : FineAction) (notWhole : ∀ b, a ≠ .whole b)
      (acts : SchedActs s.m.k (s.stepActs a) s'.m.k) (cpu : s'.m.cpu = s.m.cpu)
      (popped : ∀ t w, s'.popped t = some w →
        s.popped t = some w ∨ w.tested = false ∨ (s.m.k.proc w.process).state = .blocked) : StepCase s s' a

theorem step_cases {s s' : FineMachine} {a : FineAction} (h : s.step a = some s') : StepCase s s' a := by
  have hset : ∀ {w : Option Popped}, (∀ w', w = some w' → w'.tested = false ∨
      (s.m.k.proc w'.process).state = .blocked) → ∀ t w',
      Function.update s.popped s.m.cpu w t = some w' →
        s.popped t = some w' ∨ w'.tested = false ∨ (s.m.k.proc w'.process).state = .blocked := by
    intro w hw t w' ht
    rw [Function.update_apply] at ht
    split at ht
    · exact .inr (hw w' ht)
    · exact .inl ht
  cases a with
  | whole a =>
      simp only [step] at h
      split at h
      · cases h
      · obtain ⟨m, hm, rfl⟩ := Option.map_eq_some_iff.mp h
        refine .whole a hm fun t w ht => ?_
        dsimp only at ht
        split at ht
        · cases ht
        · exact ht
  | pop =>
      simp only [step] at h
      split at h
      · obtain ⟨sem, -, h⟩ := Option.bind_eq_some_iff.mp h
        split at h
        · cases h
          refine .piece .pop (fun b hb => by cases hb) (.done (.of_eq rfl rfl rfl rfl rfl)) rfl (hset ?_)
          rintro w ⟨⟩
          exact .inl rfl
        · cases h
      · cases h
  | test =>
      simp only [step] at h
      split at h
      · split at h
        · cases h
          refine .piece .test (fun b hb => by cases hb) (.done (.refl _)) rfl (hset ?_)
          intro w hw
          split at hw
          · next hblocked =>
            cases hw
            exact .inr hblocked
          · cases hw
        · cases h
      · cases h
  | ready =>
      simp only [step] at h
      split at h
      · next sem p hw =>
        split at h
        · cases h
          refine .piece .ready (fun b hb => by cases hb) ?_ (addReady_cpu _ _ _) (hset (by simp))
          simp only [stepActs, hw, Option.toList_some, List.map_cons, List.map_nil]
          exact addReady_acts _ _ _
        · cases h
      · cases h

/-- **Step lemma** for the stacks. -/
theorem stacks_step {s s' : FineMachine} {a : FineAction} (h : Stacks s.m) (hs : s.step a = some s') :
    Stacks s'.m := by
  cases step_cases hs with
  | whole a hstep _ => exact h.step hstep
  | piece a _ hacts hcpu _ =>
      refine ⟨fun p hp => ?_, fun c hc hi => ?_, hacts.idle.trans h.idle⟩
      · rw [hacts.idle] at hp
        rcases hacts.rsp p with hr | ⟨-, hr⟩
        · rw [hr]
          exact h.saved p hp
        · exact hr
      · rw [hacts.current] at hc
        rw [hacts.idle] at hi
        rw [hcpu]
        exact h.cpu c hc hi

/-- The step leaves a `TERMINATED` process alone: an action of the machine does, and no `process_unblock` that
    has found it `BLOCKED` before goes on to make it ready. -/
structure LeavesDown (p : Addr) (s : FineMachine) (a : FineAction) : Prop where
  whole : ∀ b, a = .whole b → TpSo.LeavesDown p s.m b
  notReadied : a = .ready → ∀ w, s.popped s.m.cpu = some w → w.process ≠ p

/-- The step goes through `schedule_tick` and gives the processor to `p`. -/
def Resumed (p : Addr) (s : FineMachine) (a : FineAction) (s' : FineMachine) : Prop :=
  ∃ b, a = .whole b ∧ TpSo.Resumed p s.m b s'.m

/-- What the loops have in hand of a `TERMINATED` process `p` and have tested, they had already. -/
def NobodyTests (p : Addr) (s s' : FineMachine) : Prop :=
  ∀ t w, s'.popped t = some w → w.process = p → w.tested = true → s.popped t = some w

/-- **Step lemma.** Such a step leaves `p` `TERMINATED` and does not resume it, and `process_unblock` refuses
    it. -/
theorem LeavesDown.step {p : Addr} {s s' : FineMachine} {a : FineAction} (h : LeavesDown p s a)
    (hst : Stacks s.m) (hp : p ≠ 0) (hi : p ≠ Boot.idle) (ht : (s.m.k.proc p).state = .terminated)
    (hs : s.step a = some s') :
    (s'.m.k.proc p).state = .terminated ∧ ¬ Resumed p s a s' ∧ NobodyTests p s s' := by
  cases step_cases hs with
  | whole b hstep hpopped =>
      obtain ⟨hdown, hnot⟩ := (h.whole b rfl).step hst hp hi ht hstep
      refine ⟨hdown, ?_, fun t w hw _ _ => hpopped t w hw⟩
      rintro ⟨b', hb, hres⟩
      cases hb
      exact hnot hres
  | piece a hpiece hacts hcpu hpopped =>
      have hready : ∀ act ∈ s.stepActs a, ∃ q, q ≠ p ∧ act = .ready q := by
        intro act hact
        cases a with
        | whole b => exact absurd rfl (hpiece b)
        | pop => cases hact
        | test => cases hact
        | ready =>
            obtain ⟨w, hw, rfl⟩ := List.mem_map.mp hact
            exact ⟨w.process, h.notReadied rfl w (Option.mem_toList.mp hw), rfl⟩
      refine ⟨hacts.terminated ht ?_ ?_ ?_, ?_, fun t w hw hwp htested => ?_⟩
      · intro hm
        obtain ⟨q, -, hq⟩ := hready _ hm
        cases hq
      · intro hm
        obtain ⟨q, hqp, hq⟩ := hready _ hm
        cases hq
        exact hqp rfl
      · intro hm
        obtain ⟨q, -, hq⟩ := hready _ hm
        cases hq
      · rintro ⟨b, hb, -⟩
        exact hpiece b hb
      · rcases hpopped t w hw with hold | hno | hblocked
        · exact hold
        · rw [htested] at hno
          cases hno
        · rw [hwp, ht] at hblocked
          cases hblocked

/-! ## Runs -/

/-- **`TERMINATED` is absorbing** along every run whose steps leave the process alone: it stays
    `TERMINATED`, and no step gives it the processor again; a `process_unblock` that is about to make it ready
    has found it `BLOCKED` before it ended. -/
theorem terminated_absorbing {memAnswers : Nat → Option Addr} {as : List FineAction} {s : FineMachine}
    (hs : GuardedRun step (fun _ _ => True) (boot memAnswers) as s) {p : Addr} (hp : p ≠ 0)
    (hi : p ≠ Boot.idle) (ht : (s.m.k.proc p).state = .terminated) {bs : List FineAction}
    {s' : FineMachine} (hrun : GuardedRun step (LeavesDown p) s bs s') :
    (s'.m.k.proc p).state = .terminated ∧
      (∀ a s'', LeavesDown p s' a → s'.step a = some s'' → ¬ Resumed p s' a s'') ∧ NobodyTests p s s' := by
  have hstart : Stacks s.m :=
    hs.invariant (fun s => Stacks s.m) (fun _ _ _ hst _ h => stacks_step hst h) (Stacks.boot memAnswers)
  obtain ⟨hstacks, hdown, hhands⟩ :
      Stacks s'.m ∧ (s'.m.k.proc p).state = .terminated ∧ NobodyTests p s s' := by
    refine hrun.invariant (fun x => Stacks x.m ∧ (x.m.k.proc p).state = .terminated ∧ NobodyTests p s x) ?_
      ⟨hstart, ht, fun _ _ hw _ _ => hw⟩
    rintro x a x' ⟨hst, ht, hhands⟩ hg hx
    obtain ⟨hdown, -, hnew⟩ := hg.step hst hp hi ht hx
    exact ⟨stacks_step hst hx, hdown, fun t w hw hwp htested => hhands t w (hnew t w hw hwp htested) hwp htested⟩
  exact ⟨hdown, fun a s'' hg hx => (hg.step hstacks hp hi hdown hx).2.1, hhands⟩

/-! ## The pieces make up the whole -/

/-- Runs of the machine are runs of it in pieces. -/
theorem whole_run {m m' : Machine} {as : List Action} (h : m.run as = some m') :
    GuardedRun step (fun _ _ => True) { m := m, popped := fun _ => none } (as.map .whole)
      { m := m', popped := fun _ => none } := by
  induction as generalizing m with
  | nil =>
      cases h
      exact .nil _
  | cons a rest ih =>
      obtain ⟨m1, hs, hrest⟩ := Option.bind_eq_some_iff.mp h
      refine .cons trivial ?_ (ih hrest)
      simp [step, hs]

theorem pushReady_modSem (k : Kernel) (s : Addr) (f : Sem → Sem) (priority : Nat) (p : Addr) :
    pushReady (k.modSem s f) priority p = (pushReady k priority p).modSem s f := by
  have hqueue : queueForPriority (k.modSem s f) priority = (queueForPriority k priority).modSem s f := by
    unfold queueForPriority
    rw [show (k.modSem s f).readyQueues = k.readyQueues from rfl]
    split <;> rfl
  have hpush : ∀ k : Kernel, ∀ q : Queue Addr, queuePush (k.modSem s f) q p =
      ((queuePush k q p).1, (queuePush k q p).2.1, (queuePush k q p).2.2.modSem s f) := by
    intro k q
    cases q with
    | none => rfl
    | some xs =>
        simp only [queuePush, show (k.modSem s f).allocOk = k.allocOk from rfl]
        split <;> rfl
  unfold pushReady
  simp only [hqueue, hpush]
  rfl

/-- `scheduler_add_ready` neither reads nor writes semaphores. -/
theorem schedulerAddReady_modSem (k : Kernel) (s : Addr) (f : Sem → Sem) (p : Addr) :
    schedulerAddReady (k.modSem s f) p = (schedulerAddReady k p).modSem s f := by
  have hremove : schedulerRemoveReady (k.modSem s f) p = (schedulerRemoveReady k p).modSem s f := by
    unfold schedulerRemoveReady
    rw [show (k.modSem s f).idle = k.idle from rfl]
    split <;> rfl
  unfold schedulerAddReady
  dsimp only
  rw [← pushReady_modSem, show ((k.modSem s f).proc p).state = (k.proc p).state from rfl, hremove]
  split <;> rfl

theorem modSem_modSem (k : Kernel) (s : Addr) (f g : Sem → Sem) :
    (k.modSem s f).modSem s g = k.modSem s fun x => g (f x) := by
  simp [Kernel.modSem]

/-- The loop stops at a waiter that is `BLOCKED`. -/
theorem semPostBody_blocked {k : Kernel} {s p : Addr} {rest : List Addr}
    (hw : (k.sem s).waitingProcesses = some (p :: rest)) (hp : (k.proc p).state = .blocked) :
    semPostBody k s =
      (true, semUnlock (schedulerAddReady (k.modSem s fun x => { x with waitingProcesses := some rest }) p) s) := by
  simp [semPostBody, hw, wakeOne, processUnblock, hp, schedulerAddReady_modSem]

theorem afterFirstBlocked_congr {k k' : Kernel} (h : k'.proc = k.proc) (ws : List Addr) :
    afterFirstBlocked k' ws = afterFirstBlocked k ws := by
  induction ws with
  | nil => rfl
  | cons w rest ih => simp only [afterFirstBlocked, h, ih]

/-- It goes on past any other. -/
theorem semPostBody_passes {k : Kernel} {s p : Addr} {rest : List Addr}
    (hw : (k.sem s).waitingProcesses = some (p :: rest)) (hp : (k.proc p).state ≠ .blocked) :
    semPostBody (k.modSem s fun x => { x with waitingProcesses := some rest }) s = semPostBody k s := by
  have hself : ((k.modSem s fun x => { x with waitingProcesses := some rest }).sem s).waitingProcesses =
      some rest := by simp [Kernel.modSem]
  have hfirst : firstBlocked (k.modSem s fun x => { x with waitingProcesses := some rest }) rest =
      firstBlocked k rest := rfl
  have hafter := afterFirstBlocked_congr
    (show (k.modSem s fun x => { x with waitingProcesses := some rest }).proc = k.proc from rfl) rest
  have hskip : wakeOne k (p :: rest) = wakeOne k rest := by simp [wakeOne, processUnblock, hp]
  unfold semPostBody
  rw [hself, hw]
  dsimp only
  rw [hskip, wakeOne_eq, wakeOne_eq, hfirst, hafter]
  cases firstBlocked k rest with
  | some w =>
      dsimp only
      rw [schedulerAddReady_modSem, modSem_modSem]
  | none =>
      dsimp only
      rw [modSem_modSem]

/-- The rest of a `sem_post` after it has made `p` ready, by the code of the whole. -/
theorem addReady_eq {m : Machine} {i : Instr} {sem p : Addr} {rest : List Addr} (hn : m.next = some i)
    (hi : PostsOn m.k i sem) (hw : (m.k.sem sem).waitingProcesses = some (p :: rest))
    (hp : (m.k.proc p).state = .blocked) :
    addReady { m with k := m.k.modSem sem fun x => { x with waitingProcesses := some rest } } sem p =
      m.execInstr i := by
  have hbody := semPostBody_blocked hw hp
  unfold addReady
  rw [show ({ m with k := m.k.modSem sem fun x => { x with waitingProcesses := some rest } } : Machine).next =
    some i from hn]
  rcases hi with rfl | ⟨q, rfl, hq⟩
  · simp only [Machine.execInstr, exec, hbody, true_and]
    rfl
  · simp only [Machine.execInstr, exec, hq, hbody, true_and]
    rfl

/-- Popping a waiter that is not `BLOCKED` does not change what the whole does. -/
theorem execInstr_passes {m : Machine} {i : Instr} {sem p : Addr} {rest : List Addr}
    (hi : PostsOn m.k i sem) (hw : (m.k.sem sem).waitingProcesses = some (p :: rest))
    (hp : (m.k.proc p).state ≠ .blocked) :
    Machine.execInstr { m with k := m.k.modSem sem fun x => { x with waitingProcesses := some rest } } i =
      m.execInstr i := by
  have hbody := semPostBody_passes hw hp
  rcases hi with rfl | ⟨q, rfl, hq⟩
  · simp only [Machine.execInstr, exec, hbody]
    rfl
  · have hq' : ((m.k.modSem sem fun x => { x with waitingProcesses := some rest }).proc q).exitSem = some sem := hq
    simp only [Machine.execInstr, exec, hq, hq', hbody]
    rfl

/-- A waiter is popped. -/
theorem step_pop {s : FineMachine} {i : Instr} {sem p : Addr} {rest : List Addr}
    (hif : s.m.interruptsEnabled = true) (hfree : s.popped s.m.cpu = none) (hn : s.m.next = some i)
    (hi : PostsOn s.m.k i sem) (hw : (s.m.k.sem sem).waitingProcesses = some (p :: rest)) :
    s.step .pop = some {
      m := { s.m with k := s.m.k.modSem sem fun x => { x with waitingProcesses := some rest } }
      popped := Function.update s.popped s.m.cpu (some ⟨sem, p, false⟩) } := by
  have hfrom : s.m.next.bind (Instr.wakesFrom s.m.k) = some sem := by
    rw [hn]
    rcases hi with rfl | ⟨q, rfl, hq⟩
    · rfl
    · exact hq
  simp [step, hif, hfree, hfrom, hw]

/-- It is tested, and dropped where it is not `BLOCKED`. -/
theorem step_test {s : FineMachine} {sem p : Addr} (hif : s.m.interruptsEnabled = true)
    (hp : s.popped s.m.cpu = some ⟨sem, p, false⟩) :
    s.step .test = some { s with
      popped := Function.update s.popped s.m.cpu
        (if (s.m.k.proc p).state = .blocked then some ⟨sem, p, true⟩ else none) } := by
  simp [step, hif, hp]

/-- It is made ready. -/
theorem step_ready {s : FineMachine} {sem p : Addr} (hif : s.m.interruptsEnabled = true)
    (hp : s.popped s.m.cpu = some ⟨sem, p, true⟩) :
    s.step .ready = some { m := addReady s.m sem p, popped := Function.update s.popped s.m.cpu none } := by
  simp [step, hif, hp]

/-- **The pieces make up the whole**: a `sem_post` that nothing interrupts ends as its code does in one
    stretch, which is left to the case that nobody waits. -/
theorem posts_in_pieces {s : FineMachine} {i : Instr} {sem : Addr} (hif : s.m.interruptsEnabled = true)
    (hfree : s.popped s.m.cpu = none) (hn : s.m.next = some i) (hi : PostsOn s.m.k i sem) :
    ∃ as, GuardedRun step (fun s a => (∃ b, a = .whole b) → waiters s.m.k sem = []) s as
      { s with m := s.m.execInstr i } := by
  generalize hws : waiters s.m.k sem = ws
  induction ws generalizing s with
  | nil =>
      have hspawned : spawned s.m .exec = none := by
        simp only [spawned, hn, Option.bind_some]
        rcases hi with rfl | ⟨q, rfl, -⟩ <;> exact spawned_eq_none _ _ (by simp)
      have hexec : s.m.step .exec = some (s.m.execInstr i) := by
        simp only [Machine.step, hn]
        rcases hi with rfl | ⟨q, rfl, -⟩ <;> rfl
      refine ⟨[.whole .exec], .cons (fun _ => hws) ?_ (.nil _)⟩
      simp [step, hfree, hexec, hspawned]
  | cons p rest ih =>
      have hw : (s.m.k.sem sem).waitingProcesses = some (p :: rest) := by
        unfold waiters at hws
        cases hq : (s.m.k.sem sem).waitingProcesses with
        | none => simp [hq] at hws
        | some ws => simpa [hq] using hws
      let m1 : Machine := { s.m with k := s.m.k.modSem sem fun x => { x with waitingProcesses := some rest } }
      have hpop : s.step .pop =
          some { m := m1, popped := Function.update s.popped s.m.cpu (some ⟨sem, p, false⟩) } :=
        step_pop hif hfree hn hi hw
      have htest := @step_test { m := m1, popped := Function.update s.popped s.m.cpu (some ⟨sem, p, false⟩) }
        sem p hif (Function.update_self ..)
      rw [Function.update_idem] at htest
      have hnothing : Function.update s.popped s.m.cpu none = s.popped := by
        rw [← hfree, Function.update_eq_self]
      by_cases hp : (s.m.k.proc p).state = .blocked
      · rw [if_pos (show (m1.k.proc p).state = .blocked from hp)] at htest
        have hready := @step_ready { m := m1, popped := Function.update s.popped s.m.cpu (some ⟨sem, p, true⟩) }
          sem p hif (Function.update_self ..)
        rw [Function.update_idem, show Function.update s.popped m1.cpu none = s.popped from hnothing,
          show addReady m1 sem p = s.m.execInstr i from addReady_eq hn hi hw hp] at hready
        exact ⟨[.pop, .test, .ready],
          .cons (by simp) hpop (.cons (by simp) htest (.cons (by simp) hready (.nil _)))⟩
      · rw [if_neg (show (m1.k.proc p).state ≠ .blocked from hp),
          show Function.update s.popped m1.cpu none = s.popped from hnothing] at htest
        obtain ⟨as, has⟩ := ih (s := { s with m := m1 }) hif hfree hn hi (by simp [waiters, m1, Kernel.modSem])
        rw [show m1.execInstr i = s.m.execInstr i from execInstr_passes hi hw hp] at has
        exact ⟨.pop :: .test :: as, .cons (by simp) hpop (.cons (by simp) htest has)⟩

/-! ## A process that comes back -/

/-- The shell kills `init`. -/
def killInit : List FineAction :=
  List.map FineAction.whole (startShell ++ .syscall (.processKill 2) :: List.replicate 66 .exec)

/-- The shell calls `sys_process_unblock` for `init`, and its own quantum is used up. -/
def unblockInit : List FineAction :=
  [.whole (.syscall (.processUnblock 2)), .whole .exec, .whole .tick, .whole .tick]

/-- The same, after the shell has blocked `init`. -/
def reviveInit : List FineAction :=
  .whole (.syscall (.processBlock 2)) :: List.replicate 3 (.whole .exec) ++ unblockInit

/-- The step is one of the machine, on another stack than that of `p`, and neither blocks `p` nor makes it
    ready. -/
def leavesAlone (p : Addr) (s : FineMachine) : FineAction → Bool
  | .whole a =>
    decide (s.m.k.live p = some .process) && decide (s.m.cpu ≠ p) &&
      (s.m.stepActs a).all fun act =>
        match act with
        | .block q | .ready q => decide (q ≠ p)
        | _ => true
  | _ => false

theorem leavesDown_of_leavesAlone {p : Addr} {s : FineMachine} {a : FineAction}
    (h : leavesAlone p s a = true) : LeavesDown p s a := by
  cases a with
  | whole b =>
      simp only [leavesAlone, Bool.and_eq_true, decide_eq_true_eq, List.all_eq_true] at h
      obtain ⟨⟨hlive, hcpu⟩, hacts⟩ := h
      refine ⟨?_, nofun⟩
      rintro b ⟨⟩
      refine ⟨hlive, fun hm => ?_, fun hm => ?_, fun _ hover => hcpu hover.2⟩
      · simpa using hacts _ hm
      · simpa using hacts _ hm
  | _ => cases h

set_option maxRecDepth 100000 in
/-- The killed `init` stays down when the shell unblocks it. -/
theorem terminated_absorbing_init : ∃ s s',
    GuardedRun step (fun _ _ => True) (boot freshBlocks) killInit s ∧
      GuardedRun step (LeavesDown Boot.init) s unblockInit s' ∧
      (s'.m.k.proc Boot.init).state = .terminated := by
  obtain ⟨s, hs, hfacts⟩ := (Option.any_eq_true (fun s : FineMachine =>
    decide ((s.m.k.proc Boot.init).state = .terminated) &&
      (GuardedRun.check step (fun s a => leavesAlone Boot.init s a) s unblockInit).isSome)
    (GuardedRun.check step (fun _ _ => True) (boot freshBlocks) killInit)).mp (by decide +kernel)
  simp only [Bool.and_eq_true, decide_eq_true_eq] at hfacts
  obtain ⟨ht, hsome⟩ := hfacts
  obtain ⟨s', hs'⟩ := Option.isSome_iff_exists.mp hsome
  have hrun := GuardedRun.of_check hs
  have hrun' := (GuardedRun.of_check hs').mono fun _ _ h => leavesDown_of_leavesAlone h
  exact ⟨s, s', hrun, hrun', (terminated_absorbing hrun (by decide) (by decide) ht hrun').1⟩

set_option maxRecDepth 100000 in
/-- `init` is killed, blocked, unblocked, and runs again. -/
theorem init_runs_again :
    ¬ ∀ (memAnswers : Nat → Option Addr) (as : List FineAction) (s : FineMachine) (p : Addr),
      GuardedRun step (fun _ _ => True) (boot memAnswers) as s → p ≠ 0 → p ≠ Boot.idle →
      (s.m.k.proc p).state = .terminated →
      ∀ (bs : List FineAction) (s' : FineMachine),
        GuardedRun step (fun s _ => s.m.k.live p = some .process) s bs s' →
        (s'.m.k.proc p).state = .terminated ∧ ∀ a s'', s'.step a = some s'' → ¬ Resumed p s' a s'' := by
  intro h
  obtain ⟨s, hs, hfacts⟩ := (Option.any_eq_true (fun s : FineMachine =>
    decide ((s.m.k.proc Boot.init).state = .terminated) &&
      (GuardedRun.check step (fun s _ => s.m.k.live Boot.init = some .process) s reviveInit).any
        (fun s => (s.step (.whole .tick)).any (fun s => decide (s.m.cpu = Boot.init))))
    (GuardedRun.check step (fun _ _ => True) (boot freshBlocks) killInit)).mp (by decide +kernel)
  simp only [Bool.and_eq_true, decide_eq_true_eq, Option.any_eq_true] at hfacts
  obtain ⟨ht, s', hcheck, s'', htick, hcpu⟩ := hfacts
  obtain ⟨-, hdown⟩ := h _ _ s _ (GuardedRun.of_check hs) (by decide) (by decide) ht _ s' (GuardedRun.of_check hcheck)
  exact hdown (.whole .tick) s'' htick ⟨.tick, rfl, trivial, .inl hcpu⟩

end FineMachine

end TpSo
