import TpSo.Machine.Progress
import TpSo.Machine.Terminated
import TpSo.Sem.Ledger
import TpSo.Sem.KernelSems

set_option autoImplicit false

/-! # Semaphores of users and of the kernel

`sem_open` looks a name up among all semaphores, those of the kernel too. The runs here carry the
semaphores `sem_open` has handed out and, for each stack, the one its semaphore call is on. -/

namespace TpSo

/-! ## Handles -/

/-- The semaphore a call is made on. -/
def Syscall.handle : Syscall → Option Addr
  | .semClose s | .semWait s | .semPost s | .semSetValue s _ => some s
  | _ => none

/-- The semaphore `sem_open` finds or makes. -/
def Instr.hands (k : Kernel) : Instr → Option Addr
  | .sys (.semOpen name _ createIfMissing) =>
    if k.registryLock then none
    else
      match findRegistered k name with
      | some s => some s
      | none => if createIfMissing then (k.memAlloc .userSemaphore).1 else none
  | _ => none

/-- The semaphore an instruction of a semaphore call operates on. -/
def Instr.operand : Instr → Option Addr
  | .sys c => c.handle
  | .semWait s | .semLock s | .semWaitLocked s | .semPost s | .semPostLocked s | .semPostMany s _
  | .semDestroy s | .semUnregister s | .semDestroyLocked s | .semOpenCheck s | .semFree s
  | .semReadValue s _ | .semStoreValue s _ => some s
  | _ => none

/-- The machine, the semaphores `sem_open` has handed out and nobody has freed since, and for each
    stack the semaphore of the last call made there. -/
structure SemHandles where
  m : Machine
  opened : List Addr
  call : Addr → Option Addr

namespace SemHandles

/-- The open handles after an instruction. -/
def openedAfter (σ : SemHandles) (i : Instr) : List Addr :=
  match i with
  | .semFree s => σ.opened.filter (fun t => decide (t ≠ s))
  | i => (i.hands σ.m.k).toList ++ σ.opened

/-- The calls after an instruction: `sem_open` goes on with what it has found or made. -/
def callAfter (σ : SemHandles) (i : Instr) : Addr → Option Addr :=
  match i with
  | .sys (.semOpen ..) => Function.update σ.call σ.m.cpu (i.hands σ.m.k)
  | _ => σ.call

/-- A step of the machine, and what it makes of handles and calls. -/
def step (σ : SemHandles) (a : Action) : Option SemHandles :=
  (σ.m.step a).map fun m' =>
    match a with
    | .exec =>
      match σ.m.next with
      | none => { σ with m := m' }
      | some i => { m := m', opened := σ.openedAfter i, call := σ.callAfter i }
    | .syscall c => { σ with m := m', call := Function.update σ.call σ.m.cpu c.handle }
    | .exception | .key _ => { σ with m := m', call := Function.update σ.call σ.m.cpu none }
    | .ret | .tick => { σ with m := m' }

/-- At boot no semaphore has been opened. -/
def boot (memAnswers : Nat → Option Addr) : SemHandles where
  m := Boot.machine memAnswers
  opened := []
  call _ := none

/-- The running stack is in a semaphore call of a user, and its next instruction operates on `s`. -/
def Operates (σ : SemHandles) (s : Addr) : Prop :=
  ∃ i, σ.m.next = some i ∧ σ.m.thread.sys ≠ [] ∧ (σ.call σ.m.cpu).isSome ∧ i.operand = some s

/-- The semaphore belongs to the kernel, is open, or code on some stack refers to it still. -/
def InUse (σ : SemHandles) (s : Addr) : Prop :=
  KernelSem σ.m.k s ∨ s ∈ σ.opened ∨ (∃ t, (σ.m.threads t).sys ≠ [] ∧ σ.call t = some s) ∨
    ∃ t, ∃ j ∈ σ.m.code t, s ∈ j.mayPost σ.m.k

/-- Users call with handles they were given. -/
def OwnHandle (σ : SemHandles) : Action → Prop
  | .syscall c => ∀ s ∈ c.handle.toList, s ∈ σ.opened
  | _ => True

/-- Besides, no name given to `sem_open` is that of a kernel semaphore, and a new semaphore is not laid
    over one that is in use. -/
structure Isolates (σ : SemHandles) (a : Action) : Prop where
  handle : σ.OwnHandle a
  name : ∀ name n create s, σ.m.Executes a (.sys (.semOpen name n create)) →
    findRegistered σ.m.k name = some s → ¬ KernelSem σ.m.k s
  fresh : ∀ i s, σ.m.Executes a i → Inits σ.m.k σ.m.thread.regs i s → ¬ σ.InUse s

/-! ## The code of a semaphore call -/

end SemHandles

/-- The code of a semaphore call on `h`. -/
def Instr.onHandle (h : Addr) : Instr → Bool
  | .int20 | .processYield | .setRax _ | .semWaitReturn _ _ | .registryLock => true
  | i => i.operand == some h

theorem onHandle_operand {i : Instr} {h s : Addr} (hi : i.onHandle h = true) (hs : i.operand = some s) :
    s = h := by
  cases i <;> simp_all [Instr.onHandle, Instr.operand]

/-- A semaphore call stays with its semaphore. -/
theorem exec_onHandle (k : Kernel) (r : Regs) {i : Instr} {h : Addr} (hi : i.onHandle h = true) :
    ∀ j ∈ (exec k r i).code, j.onHandle h = true := by
  have hsem : ∀ s, i.operand = some s → s = h := fun s => onHandle_operand hi
  cases i
  all_goals first
    | (simp [Instr.onHandle, Instr.operand] at hi; done)
    | (simp [exec]; done)
    | (cases hsem _ rfl; simp [exec, Instr.onHandle, Instr.operand]; done)
    | skip
  case processYield =>
      simp only [exec]
      split <;> simp [Instr.onHandle]
  case registryLock =>
      simp only [exec]
      split <;> simp [Instr.onHandle]
  case semLock s =>
      cases hsem s rfl
      simp only [exec]
      split <;> simp [Instr.onHandle, Instr.operand]
  case semWaitLocked s =>
      simp only [exec]
      split <;> simp [Instr.onHandle]
  case semPostLocked s =>
      simp only [exec]
      split <;> simp [Instr.onHandle]
  case semPostMany s n =>
      cases hsem s rfl
      simp only [exec]
      split <;> simp [Instr.onHandle, Instr.operand]
  case semOpenCheck s =>
      cases hsem s rfl
      simp only [exec]
      split <;> simp [Instr.onHandle, Instr.operand]
  case semReadValue s value =>
      cases hsem s rfl
      simp only [exec]
      repeat' split
      all_goals simp [Instr.onHandle, Instr.operand]
  case sys c =>
      cases c
      all_goals first
        | (simp [Instr.onHandle, Instr.operand, Syscall.handle] at hi; done)
        | skip
      all_goals
        cases hsem _ rfl
        simp only [exec, sysCode]
        split <;> simp [Instr.onHandle, Instr.operand]

/-- `sem_open` finds the semaphore in the registry, or initialises it. -/
theorem hands_cases {k : Kernel} {i : Instr} {s : Addr} (r : Regs) (h : i.hands k = some s) :
    ∃ name n create, i = .sys (.semOpen name n create) ∧
      (findRegistered k name = some s ∧ (exec k r i).code = [] ∨
        Inits k r i s ∧ (exec k r i).code = [.semOpenCheck s]) := by
  unfold Instr.hands at h
  split at h
  · next name n create =>
    refine ⟨name, n, create, rfl, ?_⟩
    obtain ⟨hlock, h⟩ := Option.ite_none_left_eq_some.mp h
    cases hf : findRegistered k name with
    | some t =>
        rw [hf] at h
        exact .inl ⟨h, by simp [exec, sysCode, hlock, hf]⟩
    | none =>
        rw [hf] at h
        obtain ⟨hc, h⟩ := Option.ite_none_right_eq_some.mp h
        refine .inr ?_
        rcases memAlloc_cases k .userSemaphore with hm | ⟨t, -, -, hm⟩ <;> rw [hm] at h
        · cases h
        · cases h
          constructor
          · refine ⟨((semInit (k.grant s .userSemaphore) s name n).sem s).count, ?_⟩
            simp [exec, sysCode, hlock, hf, hc, hm, initEvent]
          · simp [exec, sysCode, hlock, hf, hc, hm]
  · cases h

/-- Only `sem_post` and `process_exit` post. -/
theorem posts_of_event {k : Kernel} {r : Regs} {i : Instr} {s : Addr}
    (h : .semPosted s ∈ (exec k r i).events) : PostsOn k i s := by
  have hpost : Event.postsTo s (.semPosted s) = true := by simp [Event.postsTo]
  cases exec_books k r i s with
  | posted instr _ _ _ => exact instr
  | still _ events _ => exact absurd hpost (by simp [(events _ h).2.2])
  | stored _ _ _ events _ => exact absurd hpost (by simp [(events _ h).2.2])
  | inited _ _ _ quiet => exact absurd hpost (by simp [(quiet _ h).2])
  | took _ _ events _ =>
      rw [events] at h
      cases h
  | waits _ _ _ _ _ events _ =>
      rw [events] at h
      cases h
  | returned _ _ events _ =>
      rw [events] at h
      cases List.mem_singleton.mp h

/-! ## Boot -/

/-- The semaphores there are at boot: two exit semaphores, then those of the pipes. -/
def bootSems : List Addr := Boot.sems.map Prod.fst

theorem boot_exitSem {memAnswers : Nat → Option Addr} {s : Addr}
    (h : ExitSem (Boot.kernel memAnswers) s) : s ∈ bootSems.take 2 := by
  obtain ⟨p, hp⟩ := h
  simp only [Boot.kernel] at hp
  split at hp
  · cases hp
    decide
  · split at hp
    · cases hp
      decide
    · cases hp

theorem boot_pipeSem {memAnswers : Nat → Option Addr} {s : Addr}
    (h : PipeSem (Boot.kernel memAnswers) s) : s ∈ bootSems.drop 2 := by
  have hstd : ∀ id < 3, ∀ t ∈ ((Boot.kernel memAnswers).pipe (Boot.pipeAddr id)).sems,
      t ∈ bootSems.drop 2 := by
    rw [show (Boot.kernel memAnswers).pipe = (Boot.kernel fun _ => none).pipe from rfl]
    decide
  obtain ⟨id, a, ha, hmem⟩ := h
  have hid : id < 3 ∧ a = Boot.pipeAddr id := by
    simp only [pipeOf, Boot.kernel] at ha
    split at ha
    · cases ha
    · split at ha
      · next hid => exact ⟨hid, (Option.some.inj ha).symm⟩
      · cases ha
  exact hstd id hid.1 s (hid.2 ▸ hmem)

theorem boot_posts {memAnswers : Nat → Option Addr} {k : Kernel} {t : Addr} {j : Instr}
    (hj : j ∈ (Boot.machine memAnswers).code t) : j.mayPost k = [] := by
  simp only [Boot.machine, Machine.code] at hj
  split at hj <;> cases List.mem_singleton.mp hj <;> rfl

/-! ## Steps -/

/-- No semaphore of the kernel is open, none is an operand of a user's call, and no pending code
    posts on an exit semaphore, but for `process_exit`. -/
structure Isolated (σ : SemHandles) : Prop where
  opened : ∀ s ∈ σ.opened, ¬ KernelSem σ.m.k s
  alone : ∀ t c, .sys c ∈ (σ.m.threads t).sys → (σ.m.threads t).sys = [.sys c]
  calls : ∀ t h, σ.call t = some h → ∀ i ∈ (σ.m.threads t).sys, i.onHandle h = true
  called : ∀ t h, σ.call t = some h → (σ.m.threads t).sys ≠ [] → ¬ KernelSem σ.m.k h
  posts : ∀ t, ∀ j ∈ σ.m.code t, ∀ s ∈ j.mayPost σ.m.k, ¬ ExitSem σ.m.k s
  pipes : ∀ s, PipeSem σ.m.k s → ¬ ExitSem σ.m.k s

/-- The kernel's semaphores after a step. -/
theorem step_kernelSem {m m' : Machine} {a : Action} (hs : m.step a = some m') {s : Addr} :
    (ExitSem m'.k s → ExitSem m.k s ∨ ∃ i, m.Executes a i ∧ Inits m.k m.thread.regs i s ∧
      ∃ args use, i = .createProcess args use) ∧
    (PipeSem m'.k s → PipeSem m.k s ∨ ∃ i, m.Executes a i ∧ Inits m.k m.thread.regs i s ∧
      i = .openPipe) := by
  have hprep : (ExitSem (m.prepared a) s → ExitSem m.k s ∨ ∃ i, m.Executes a i ∧
      Inits m.k m.thread.regs i s ∧ ∃ args use, i = .createProcess args use) ∧
      (PipeSem (m.prepared a) s → PipeSem m.k s ∨ ∃ i, m.Executes a i ∧
        Inits m.k m.thread.regs i s ∧ i = .openPipe) := by
    cases a with
    | exec =>
        simp only [Machine.prepared]
        cases hn : m.next with
        | none => exact ⟨.inl, .inl⟩
        | some i =>
            exact ⟨fun h => (exec_exitSem h).imp_right fun h => ⟨i, ⟨rfl, hn⟩, h⟩,
              fun h => (exec_pipeSem h).imp_right fun h => ⟨i, ⟨rfl, hn⟩, h⟩⟩
    | tick =>
        have hexit := (timerHandler_exitSems m.k).keeps
        have hpipe := KeepsPipeSems.of_objects (timerHandler_objects m.k)
        constructor
        · rintro ⟨p, hp⟩
          exact .inl ⟨p, hexit p s hp⟩
        · rintro ⟨id, a, ha, hmem⟩
          exact .inl ⟨id, a, hpipe.pipes id a ha, hpipe.sems a ▸ hmem⟩
    | _ => exact ⟨.inl, .inl⟩
  cases Machine.step_cases hs with
  | stays _ hk _ =>
      rw [hk]
      exact hprep
  | switched _ hk _ =>
      have hout := scheduleTick_outside (m.prepared a) m.cpu
      have hpipe := KeepsPipeSems.of_objects (SameObjects.of_outside hout)
      rw [hk]
      constructor
      · rintro ⟨p, hp⟩
        exact hprep.1 ⟨p, (SameExitSems.of_outside hout).keeps p s hp⟩
      · rintro ⟨id, a, ha, hmem⟩
        exact hprep.2 ⟨id, a, hpipe.pipes id a ha, hpipe.sems a ▸ hmem⟩

/-- What pending code may post on changes only when a pipe is opened over an old one. -/
theorem step_mayPost {m m' : Machine} {a : Action} (hs : m.step a = some m') {j : Instr} {s : Addr}
    (hj : s ∈ j.mayPost m'.k) : s ∈ j.mayPost m.k ∨ PipeSem m'.k s := by
  have hsame : ∀ {k k' : Kernel}, SameObjects k k' → j.mayPost k' = j.mayPost k := fun h =>
    mayPost_keeps (.of_objects h) j
  have hprep : s ∈ j.mayPost (m.prepared a) → s ∈ j.mayPost m.k ∨ PipeSem (m.prepared a) s := by
    intro hj
    cases a with
    | exec =>
        simp only [Machine.prepared] at hj ⊢
        cases hn : m.next with
        | none => exact .inl (by rwa [hn] at hj)
        | some i =>
            rw [hn] at hj
            by_cases hopen : i = .openPipe
            · subst hopen
              have hlinks := (openPipe_links m.k m.thread.regs).2
              change s ∈ j.mayPost (openPipeCode m.k m.thread.regs).k at hj
              rcases mayPost_cases j with hi | ⟨p, hi⟩
              · exact .inl (hi m.k _ ▸ hj)
              · rw [hi] at hj
                rcases hlinks p with h | h
                · exact .inl (by rwa [hi, ← h])
                · exact .inr ⟨m.k.nextPipeId, p, h, hj⟩
            · exact .inl (by rwa [← mayPost_keeps (exec_keepsPipeSems m.k m.thread.regs hopen) j])
    | tick => exact .inl (by rwa [← hsame (timerHandler_objects m.k)])
    | _ => exact .inl hj
  cases Machine.step_cases hs with
  | stays _ hk _ =>
      rw [hk] at hj ⊢
      exact hprep hj
  | switched _ hk _ =>
      have hobj := SameObjects.of_outside (scheduleTick_outside (m.prepared a) m.cpu)
      rw [hk, hsame hobj] at hj
      rw [hk]
      refine (hprep hj).imp_right ?_
      rintro ⟨id, p, hp, hmem⟩
      exact ⟨id, p, by unfold pipeOf at hp ⊢; rwa [hobj.pipes], by rwa [hobj.pipe]⟩

/-- The code a handler starts with posts on an open handle, if at all. -/
theorem entered_mayPost {σ : SemHandles} {a : Action} {j : Instr} {s : Addr} (hj : j ∈ σ.m.entered a)
    (hs : s ∈ j.mayPost σ.m.k) (hg : σ.OwnHandle a) : s ∈ σ.opened := by
  cases a with
  | syscall c =>
      cases List.mem_singleton.mp hj
      refine hg s ?_
      cases c <;> simp_all [Instr.mayPost, Syscall.handle]
  | exception =>
      simp only [Machine.entered, Machine.exceptionCode] at hj
      split at hj <;> simp only [List.mem_cons, List.not_mem_nil, or_false] at hj
      · rcases hj with rfl | rfl | rfl | rfl <;> cases hs
      · rcases hj with rfl | rfl | rfl | rfl | rfl | rfl <;> cases hs
  | key e =>
      simp only [Machine.entered, Machine.keyHandler, List.mem_append, List.mem_singleton] at hj
      rcases hj with hj | rfl
      · cases e with
        | char byte =>
            cases List.mem_singleton.mp hj
            cases hs
        | ctrlC =>
            simp only [Machine.keyCode] at hj
            (repeat' split at hj) <;> simp only [List.mem_cons, List.not_mem_nil, or_false] at hj
            rcases hj with rfl | rfl <;> cases hs
      · cases hs
  | _ => cases hj

namespace Isolated

variable {σ σ' : SemHandles} {a : Action}

/-- What belonged to no user's call and to no pending code is not the kernel's after the step. -/
theorem kernelSem_of_used (hg : σ.Isolates a) {m' : Machine} (hs : σ.m.step a = some m') {s : Addr}
    (huse : σ.InUse s) (hk : KernelSem m'.k s) : KernelSem σ.m.k s := by
  rcases hk with hk | hk
  · rcases (step_kernelSem hs).1 hk with hk | ⟨i, hn, hi, -⟩
    · exact .inl hk
    · exact absurd huse (hg.fresh i s hn hi)
  · rcases (step_kernelSem hs).2 hk with hk | ⟨i, hn, hi, -⟩
    · exact .inr hk
    · exact absurd huse (hg.fresh i s hn hi)

/-- Exit semaphores and semaphores of pipes stay apart. -/
theorem pipes_step (h : Isolated σ) (hg : σ.Isolates a) {m' : Machine} (hs : σ.m.step a = some m')
    {s : Addr} (hp : PipeSem m'.k s) : ¬ ExitSem m'.k s := by
  intro he
  rcases (step_kernelSem hs).2 hp with hp | ⟨i, hn, hi, rfl⟩
  · rcases (step_kernelSem hs).1 he with he | ⟨i, hn, hi, -⟩
    · exact h.pipes s hp he
    · exact hg.fresh i s hn hi (.inl (.inr hp))
  · rcases (step_kernelSem hs).1 he with he | ⟨i, hn', -, args, use, rfl⟩
    · exact hg.fresh _ s hn hi (.inl (.inl he))
    · cases hn.2.symm.trans hn'.2

/-- Pending code on an exit semaphore. -/
theorem posts_step (h : Isolated σ) (hg : σ.Isolates a) {m' : Machine} (hs : σ.m.step a = some m')
    {t : Addr} {j : Instr} (hj : j ∈ m'.code t) {s : Addr} (hmem : s ∈ j.mayPost m'.k) :
    ¬ ExitSem m'.k s := by
  intro he
  have hpipe : ¬ PipeSem m'.k s := fun hp => h.pipes_step hg hs hp he
  have hmem' := (step_mayPost hs hmem).resolve_right hpipe
  have hpending : (∃ u, ∃ i ∈ σ.m.code u, s ∈ i.mayPost σ.m.k) → False := by
    rintro ⟨u, i, hi, hmay⟩
    rcases (step_kernelSem hs).1 he with he | ⟨x, hn, hx, -⟩
    · exact h.posts u i hi s hmay he
    · exact hg.fresh x s hn hx (.inr (.inr (.inr ⟨u, i, hi, hmay⟩)))
  rcases Machine.step_code hs hj with hold | ⟨i, hn, hnew⟩ | rfl | hin
  · exact hpending ⟨t, j, hold, hmem'⟩
  · rcases exec_mayPost _ _ i hnew hmem' with hi | hp
    · obtain ⟨rest, hcode, -⟩ := Machine.code_of_next hn.2
      exact hpending ⟨σ.m.cpu, i, hcode ▸ List.mem_cons_self, hi⟩
    · rcases (step_kernelSem hs).1 he with he | ⟨x, hn, hx, -⟩
      · exact h.pipes s hp he
      · exact hg.fresh x s hn hx (.inl (.inr hp))
  · cases hmem'
  · have hopen := entered_mayPost hin hmem' hg.handle
    exact h.opened s hopen (kernelSem_of_used hg hs (.inr (.inl hopen)) (.inl he))

/-- Whatever was no semaphore of the kernel and in use is none after the step. -/
theorem kept (hg : σ.Isolates a) {m' : Machine} (hs : σ.m.step a = some m') {s : Addr}
    (huse : σ.InUse s) (h : ¬ KernelSem σ.m.k s) : ¬ KernelSem m'.k s :=
  fun hk => h (kernelSem_of_used hg hs huse hk)

/-- What `sem_open` hands out is not the kernel's. -/
theorem handed_step (hg : σ.Isolates a) {m' : Machine} (hs : σ.m.step a = some m') {i : Instr}
    (hn : σ.m.Executes a i) {s : Addr} (hh : i.hands σ.m.k = some s) : ¬ KernelSem m'.k s := by
  obtain ⟨name, n, create, rfl, hwhence⟩ := hands_cases σ.m.thread.regs hh
  have hold : ¬ KernelSem σ.m.k s := by
    rcases hwhence with ⟨hfound, -⟩ | ⟨hinit, -⟩
    · exact hg.name name n create s hn hfound
    · exact fun hk => hg.fresh _ s hn hinit (.inl hk)
  rintro (he | hp)
  · rcases (step_kernelSem hs).1 he with he | ⟨x, hx, -, args, use, rfl⟩
    · exact hold (.inl he)
    · cases hn.2.symm.trans hx.2
  · rcases (step_kernelSem hs).2 hp with hp | ⟨x, hx, -, rfl⟩
    · exact hold (.inr hp)
    · cases hn.2.symm.trans hx.2

/-- A system call starts with the handler empty but for it. -/
theorem alone_step (h : Isolated σ) {m' : Machine} (hs : σ.m.step a = some m') {t : Addr} {c : Syscall}
    (hc : .sys c ∈ (m'.threads t).sys) : (m'.threads t).sys = [.sys c] := by
  have hset : ∀ x : Thread, .sys c ∈ ((σ.m.setThread x).threads t).sys →
      (.sys c ∈ x.sys → x.sys = [.sys c]) → ((σ.m.setThread x).threads t).sys = [.sys c] := by
    intro x hmem hx
    by_cases ht : t = σ.m.cpu
    · rw [show (σ.m.setThread x).threads t = x from ht ▸ Function.update_self ..] at hmem ⊢
      exact hx hmem
    · rw [show (σ.m.setThread x).threads t = _ from Function.update_of_ne ht ..] at hmem ⊢
      exact h.alone t c hmem
  cases a with
  | exec =>
      obtain ⟨i, hn, -, rfl⟩ := Machine.step_exec hs
      rcases Machine.execInstr_sys hn t with ⟨-, hsys⟩ | hsys | ⟨-, rest, hold, hsys⟩ <;>
        rw [hsys] at hc ⊢
      · exact h.alone t c hc
      · cases hc
      -- no code that an instruction leaves is a system call, so it was there before
      · rcases List.mem_append.mp hc with hnew | hrest
        · exact absurd hnew (exec_noSys _ _ i c)
        · have honly := h.alone t c (hold ▸ .tail _ hrest)
          rw [hold] at honly
          cases (List.cons.inj honly).2
          cases hrest
  | tick =>
      obtain ⟨-, rfl⟩ := Machine.step_tick hs
      exact h.alone t c hc
  | ret =>
      obtain ⟨hif, -, rfl⟩ := Machine.step_ret hs
      have hsys : σ.m.thread.sys = [] := by simpa [Machine.interruptsEnabled] using hif
      exact hset _ hc fun hmem => by simp [Machine.advance, hsys] at hmem
  | syscall d =>
      obtain ⟨-, -, -, rfl⟩ := Machine.step_syscall hs
      exact hset _ hc fun hmem => by
        cases List.mem_singleton.mp hmem
        rfl
  | exception =>
      obtain ⟨-, -, rfl⟩ := Machine.step_exception hs
      refine hset _ hc fun hmem => ?_
      simp only [Machine.exceptionCode] at hmem
      split at hmem <;> simp at hmem
  | key e =>
      obtain ⟨-, rfl⟩ := Machine.step_key hs
      refine hset _ hc fun hmem => ?_
      cases e <;> simp only [Machine.keyHandler, Machine.keyCode] at hmem <;>
        (repeat' split at hmem) <;> simp at hmem

/-- The stacks whose call is that of before the step. -/
theorem call_kept (h : Isolated σ) (hg : σ.Isolates a) {m' : Machine} (hs : σ.m.step a = some m')
    {t x : Addr} (hcall : σ.call t = some x) (hcpu : t = σ.m.cpu → σ.m.entered a = []) :
    (∀ i ∈ (m'.threads t).sys, i.onHandle x = true) ∧ ((m'.threads t).sys ≠ [] → ¬ KernelSem m'.k x) := by
  have horigin : ∀ i ∈ (m'.threads t).sys, (σ.m.threads t).sys ≠ [] ∧ i.onHandle x = true := by
    intro i hi
    rcases Machine.step_sys hs hi with hold | ⟨-, j, -, hj, hnew⟩ | ⟨ht, hin⟩
    · exact ⟨List.ne_nil_of_mem hold, h.calls t x hcall i hold⟩
    · exact ⟨List.ne_nil_of_mem hj, exec_onHandle _ _ (h.calls t x hcall j hj) i hnew⟩
    · rw [hcpu ht] at hin
      cases hin
  refine ⟨fun i hi => (horigin i hi).2, fun hne => ?_⟩
  obtain ⟨i, hi⟩ := List.exists_mem_of_ne_nil _ hne
  have hsys := (horigin i hi).1
  exact kept hg hs (.inr (.inr (.inl ⟨t, hsys, hcall⟩))) (h.called t x hcall hsys)

/-- **Step lemma.** -/
theorem step (h : Isolated σ) (hg : σ.Isolates a) (hs : σ.step a = some σ') : Isolated σ' := by
  obtain ⟨m', hm, rfl⟩ := Option.map_eq_some_iff.mp hs
  have hopened : ∀ s ∈ σ.opened, ¬ KernelSem m'.k s := fun s hmem =>
    kept hg hm (.inr (.inl hmem)) (h.opened s hmem)
  -- calls that go on, and calls that begin with a handle the process was given
  have hcall : ∀ call : Addr → Option Addr, (∀ t x, call t = some x →
      (∀ i ∈ (m'.threads t).sys, i.onHandle x = true) ∧
        ((m'.threads t).sys ≠ [] → ¬ KernelSem m'.k x)) → ∀ opened : List Addr,
      (∀ s ∈ opened, ¬ KernelSem m'.k s) → Isolated ⟨m', opened, call⟩ :=
    fun call hcalls opened hopened => {
      opened := hopened
      alone := fun _ _ hc => h.alone_step hm hc
      calls := fun t x hx => (hcalls t x hx).1
      called := fun t x hx => (hcalls t x hx).2
      posts := fun _ _ hj _ hmem => h.posts_step hg hm hj hmem
      pipes := fun _ hp => h.pipes_step hg hm hp }
  have hstays : σ.m.entered a = [] → ∀ t x, σ.call t = some x →
      (∀ i ∈ (m'.threads t).sys, i.onHandle x = true) ∧
        ((m'.threads t).sys ≠ [] → ¬ KernelSem m'.k x) := fun hin t x hx =>
    h.call_kept hg hm hx fun _ => hin
  -- a handler that is entered: only a system call on a handle can be a call
  have henters : ∀ handle : Option Addr, (∀ x, handle = some x →
      (∀ i ∈ (m'.threads σ.m.cpu).sys, i.onHandle x = true) ∧ ¬ KernelSem m'.k x) →
      Isolated ⟨m', σ.opened, Function.update σ.call σ.m.cpu handle⟩ := by
    intro handle hhandle
    refine hcall _ (fun t x hx => ?_) σ.opened hopened
    by_cases ht : t = σ.m.cpu
    · subst ht
      rw [Function.update_self] at hx
      exact ⟨(hhandle x hx).1, fun _ => (hhandle x hx).2⟩
    · rw [Function.update_of_ne ht] at hx
      exact h.call_kept hg hm hx fun hcpu => absurd hcpu ht
  cases a with
  | exec =>
      obtain ⟨i, hn, -, rfl⟩ := Machine.step_exec hm
      simp only [hn]
      refine hcall _ ?_ _ ?_
      · unfold SemHandles.callAfter
        split
        · next name n create =>
          intro t x hx
          by_cases ht : t = σ.m.cpu
          · subst ht
            rw [Function.update_self] at hx
            refine ⟨fun j hj => ?_, fun _ => handed_step hg hm ⟨rfl, hn⟩ hx⟩
            obtain ⟨_, _, _, -, hcode⟩ := hands_cases σ.m.thread.regs hx
            rcases Machine.execInstr_sys hn σ.m.cpu with ⟨hne, -⟩ | hsys | ⟨-, rest, hold, hsys⟩
            · exact absurd rfl hne
            · rw [hsys] at hj
              cases hj
            · have honly := h.alone _ _ (hold ▸ List.mem_cons_self)
              rw [hold] at honly
              rw [hsys, (List.cons.inj honly).2, List.append_nil] at hj
              rcases hcode with ⟨-, hcode⟩ | ⟨-, hcode⟩ <;> rw [hcode] at hj
              · cases hj
              · cases List.mem_singleton.mp hj
                simp [Instr.onHandle, Instr.operand]
          · rw [Function.update_of_ne ht] at hx
            exact hstays rfl t x hx
        · exact hstays rfl
      · unfold SemHandles.openedAfter
        split
        · exact fun s hmem => hopened s (List.mem_of_mem_filter hmem)
        · intro s hmem
          rcases List.mem_append.mp hmem with hnew | hold
          · exact handed_step hg hm ⟨rfl, hn⟩ (Option.mem_toList.mp hnew)
          · exact hopened s hold
  | syscall c =>
      refine henters c.handle fun x hx => ?_
      obtain ⟨-, -, -, rfl⟩ := Machine.step_syscall hm
      refine ⟨fun i hi => ?_, hopened x (hg.handle x (Option.mem_toList.mpr hx))⟩
      rw [show ((σ.m.enter [.sys c]).threads σ.m.cpu).sys = [.sys c] by
        simp [Machine.enter, Machine.setThread]] at hi
      cases List.mem_singleton.mp hi
      simp [Instr.onHandle, Instr.operand, hx]
  | exception => exact henters none fun x hx => by cases hx
  | key e => exact henters none fun x hx => by cases hx
  | ret => exact hcall σ.call (hstays rfl) σ.opened hopened
  | tick => exact hcall σ.call (hstays rfl) σ.opened hopened

/-- At boot the two exit semaphores are none of the nine semaphores of the pipes. -/
theorem boot (memAnswers : Nat → Option Addr) : Isolated (SemHandles.boot memAnswers) where
  opened _ h := nomatch h
  alone t c hc := by
    simp only [SemHandles.boot, Boot.machine] at hc
    split at hc <;> cases hc
  calls _ _ h := nomatch h
  called _ _ h := nomatch h
  posts t j hj s hmem := absurd hmem (by rw [boot_posts hj]; exact List.not_mem_nil)
  pipes s hp he := by
    have hapart : ∀ t ∈ bootSems.take 2, t ∉ bootSems.drop 2 := by decide
    exact hapart s (boot_exitSem he) (boot_pipeSem hp)

end Isolated

/-- **Users and kernel stay apart** in every run in which no name given to `sem_open` is that of a
    kernel semaphore: no call of a user operates on a semaphore of the kernel, and only `process_exit`
    posts on an exit semaphore. -/
theorem user_calls_spare_kernel {memAnswers : Nat → Option Addr} {as : List Action} {σ : SemHandles}
    (h : GuardedRun SemHandles.step SemHandles.Isolates (SemHandles.boot memAnswers) as σ) :
    (∀ s, σ.Operates s → ¬ KernelSem σ.m.k s) ∧
      ∀ i s, σ.m.next = some i → .semPosted s ∈ (exec σ.m.k σ.m.thread.regs i).events →
        ExitSem σ.m.k s → ∃ p, i = .exitSemPost p ∧ (σ.m.k.proc p).exitSem = some s := by
  have hinv : Isolated σ :=
    h.invariant Isolated (fun _ _ _ hi hg hs => hi.step hg hs) (Isolated.boot memAnswers)
  refine ⟨fun s hop => ?_, fun i s hn hpost he => ?_⟩
  · obtain ⟨i, hn, hsys, hcall, hs⟩ := hop
    obtain ⟨x, hx⟩ := Option.isSome_iff_exists.mp hcall
    have hi : i ∈ (σ.m.threads σ.m.cpu).sys := by
      unfold Machine.next at hn
      cases hthread : σ.m.thread.sys with
      | nil => exact absurd hthread hsys
      | cons j rest =>
          rw [hthread] at hn
          cases hn
          exact hthread ▸ List.mem_cons_self
    cases onHandle_operand (hinv.calls _ x hx i hi) hs
    exact hinv.called _ s hx hsys
  · obtain ⟨rest, hcode, -⟩ := Machine.code_of_next hn
    have hposts : PostsOn σ.m.k i s := posts_of_event hpost
    rcases hposts with rfl | ⟨p, rfl, hp⟩
    · exact absurd he (hinv.posts _ _ (hcode ▸ List.mem_cons_self) s List.mem_cons_self)
    · exact ⟨p, rfl, hp⟩

/-! ## Runs that reuse no block -/

/-- The semaphore the event says is initialised. -/
def Event.inited : Event → Option Addr
  | .semInit s _ => some s
  | _ => none

namespace SemHandles

/-- Every semaphore there has been. -/
def recorded (σ : SemHandles) : List Addr := bootSems ++ σ.m.log.filterMap Event.inited

/-- The semaphores the action initialises, and whether it looks up a name that is in use. -/
def plans (σ : SemHandles) : Action → List Addr × Bool
  | .exec =>
    match σ.m.next with
    | none => ([], false)
    | some i =>
      ((exec σ.m.k σ.m.thread.regs i).events.filterMap Event.inited,
        match i with
        | .sys (.semOpen name _ _) => (findRegistered σ.m.k name).isSome
        | _ => false)
  | _ => ([], false)

/-- Users call with handles they were given, every name opened is new, and every semaphore is made at
    a block that has never been one. -/
structure OnlyNew (σ : SemHandles) (a : Action) : Prop where
  handle : σ.OwnHandle a
  sems : ∀ s ∈ (σ.plans a).1, s ∉ σ.recorded
  name : (σ.plans a).2 = false

instance (σ : SemHandles) : (a : Action) → Decidable (σ.OwnHandle a)
  | .syscall c => inferInstanceAs (Decidable (∀ s ∈ c.handle.toList, s ∈ σ.opened))
  | .exec | .ret | .exception | .tick | .key _ => inferInstanceAs (Decidable True)

instance (σ : SemHandles) (a : Action) : Decidable (σ.OnlyNew a) :=
  decidable_of_iff
    (σ.OwnHandle a ∧ (∀ s ∈ (σ.plans a).1, s ∉ σ.recorded) ∧ (σ.plans a).2 = false)
    ⟨fun h => ⟨h.1, h.2.1, h.2.2⟩, fun h => ⟨h.handle, h.sems, h.name⟩⟩

/-- Whatever is in use has been initialised. -/
def Recorded (σ : SemHandles) : Prop := ∀ s, σ.InUse s ∨ (∃ t, σ.call t = some s) → s ∈ σ.recorded

end SemHandles

namespace Recorded

variable {σ σ' : SemHandles} {a : Action}

/-- The trace only grows, by what the step initialises too. -/
theorem log_step {m m' : Machine} (hs : m.step a = some m') {s : Addr} :
    (s ∈ m.log.filterMap Event.inited → s ∈ m'.log.filterMap Event.inited) ∧
      ∀ i, m.Executes a i → Inits m.k m.thread.regs i s → s ∈ m'.log.filterMap Event.inited := by
  cases a with
  | exec =>
      obtain ⟨i, hn, -, rfl⟩ := Machine.step_exec hs
      rw [Machine.execInstr_log, List.filterMap_append]
      refine ⟨List.mem_append_right _, fun j hj ⟨n, hinit⟩ => List.mem_append_left _ ?_⟩
      cases hn.symm.trans hj.2
      exact List.mem_filterMap.mpr ⟨_, hinit, rfl⟩
  | tick =>
      obtain ⟨-, rfl⟩ := Machine.step_tick hs
      exact ⟨id, fun _ h => nomatch h.1⟩
  | ret =>
      obtain ⟨-, -, rfl⟩ := Machine.step_ret hs
      exact ⟨id, fun _ h => nomatch h.1⟩
  | syscall c =>
      obtain ⟨-, -, -, rfl⟩ := Machine.step_syscall hs
      exact ⟨id, fun _ h => nomatch h.1⟩
  | exception =>
      obtain ⟨-, -, rfl⟩ := Machine.step_exception hs
      exact ⟨id, fun _ h => nomatch h.1⟩
  | key e =>
      obtain ⟨-, rfl⟩ := Machine.step_key hs
      exact ⟨id, fun _ h => nomatch h.1⟩

theorem isolates (h : σ.Recorded) (hg : σ.OnlyNew a) : σ.Isolates a where
  handle := hg.handle
  name name n create s hn hf := by
    have hname := hg.name
    obtain ⟨rfl, hn⟩ := hn
    simp [SemHandles.plans, hn, hf] at hname
  fresh i s hn hinit huse := by
    obtain ⟨rfl, hn⟩ := hn
    obtain ⟨n, hinit⟩ := hinit
    refine hg.sems s ?_ (h s (.inl huse))
    simp only [SemHandles.plans, hn]
    exact List.mem_filterMap.mpr ⟨_, hinit, rfl⟩

/-- **Step lemma.** -/
theorem step (h : σ.Recorded) (hg : σ.OnlyNew a) (hs : σ.step a = some σ') : σ'.Recorded := by
  obtain ⟨m', hm, rfl⟩ := Option.map_eq_some_iff.mp hs
  -- what was recorded before, and what the step initialises
  have hold : ∀ s, s ∈ σ.recorded → s ∈ bootSems ++ m'.log.filterMap Event.inited := fun s hmem =>
    (List.mem_append.mp hmem).elim (List.mem_append_left _)
      fun hlog => List.mem_append_right _ ((log_step hm).1 hlog)
  have hnew : ∀ i s, σ.m.Executes a i → Inits σ.m.k σ.m.thread.regs i s →
      s ∈ bootSems ++ m'.log.filterMap Event.inited := fun i s hi hinit =>
    List.mem_append_right _ ((log_step hm).2 i hi hinit)
  have hopen : ∀ s ∈ σ.opened, s ∈ bootSems ++ m'.log.filterMap Event.inited := fun s hmem =>
    hold s (h s (.inl (.inr (.inl hmem))))
  have hcalled : ∀ t s, σ.call t = some s → s ∈ bootSems ++ m'.log.filterMap Event.inited :=
    fun t s hcall => hold s (h s (.inr ⟨t, hcall⟩))
  have hhanded : ∀ i s, σ.m.Executes a i → i.hands σ.m.k = some s →
      s ∈ bootSems ++ m'.log.filterMap Event.inited := by
    intro i s hi hh
    obtain ⟨name, n, create, rfl, ⟨hf, -⟩ | ⟨hinit, -⟩⟩ := hands_cases σ.m.thread.regs hh
    · have hname := hg.name
      obtain ⟨rfl, hi⟩ := hi
      simp [SemHandles.plans, hi, hf] at hname
    · exact hnew _ s hi hinit
  have hkernel : ∀ s, KernelSem m'.k s → s ∈ bootSems ++ m'.log.filterMap Event.inited := by
    rintro s (hk | hk)
    · rcases (step_kernelSem hm).1 hk with hk | ⟨i, hi, hinit, -⟩
      · exact hold s (h s (.inl (.inl (.inl hk))))
      · exact hnew i s hi hinit
    · rcases (step_kernelSem hm).2 hk with hk | ⟨i, hi, hinit, -⟩
      · exact hold s (h s (.inl (.inl (.inr hk))))
      · exact hnew i s hi hinit
  have hposts : ∀ t, ∀ j ∈ m'.code t, ∀ s ∈ j.mayPost m'.k,
      s ∈ bootSems ++ m'.log.filterMap Event.inited := by
    intro t j hj s hmem
    have hpending : (∃ u, ∃ i ∈ σ.m.code u, s ∈ i.mayPost σ.m.k) →
        s ∈ bootSems ++ m'.log.filterMap Event.inited := fun hp =>
      hold s (h s (.inl (.inr (.inr (.inr hp)))))
    rcases step_mayPost hm hmem with hmem | hp
    · rcases Machine.step_code hm hj with hj | ⟨i, hi, hj⟩ | rfl | hin
      · exact hpending ⟨t, j, hj, hmem⟩
      · rcases exec_mayPost _ _ i hj hmem with hmay | hp
        · obtain ⟨rest, hcode, -⟩ := Machine.code_of_next hi.2
          exact hpending ⟨σ.m.cpu, i, hcode ▸ List.mem_cons_self, hmay⟩
        · exact hold s (h s (.inl (.inl (.inr hp))))
      · cases hmem
      · exact hopen s (entered_mayPost hin hmem hg.handle)
    · exact hkernel s (.inr hp)
  have hall : ∀ (opened : List Addr) (call : Addr → Option Addr),
      (∀ s ∈ opened, s ∈ bootSems ++ m'.log.filterMap Event.inited) →
      (∀ t s, call t = some s → s ∈ bootSems ++ m'.log.filterMap Event.inited) →
      SemHandles.Recorded ⟨m', opened, call⟩ := by
    rintro opened call hopened hcall s ((hk | hmem | ⟨t, -, ht⟩ | ⟨t, j, hj, hmem⟩) | ⟨t, ht⟩)
    · exact hkernel s hk
    · exact hopened s hmem
    · exact hcall t s ht
    · exact hposts t j hj s hmem
    · exact hcall t s ht
  have hupdate : ∀ handle : Option Addr,
      (∀ s, handle = some s → s ∈ bootSems ++ m'.log.filterMap Event.inited) → ∀ t s,
        Function.update σ.call σ.m.cpu handle t = some s →
        s ∈ bootSems ++ m'.log.filterMap Event.inited := by
    intro handle hhandle t s hs
    rw [Function.update_apply] at hs
    split at hs
    · exact hhandle s hs
    · exact hcalled t s hs
  cases a with
  | exec =>
      obtain ⟨i, hn, -, rfl⟩ := Machine.step_exec hm
      simp only [hn]
      refine hall _ _ ?_ ?_
      · unfold SemHandles.openedAfter
        split
        · exact fun s hmem => hopen s (List.mem_of_mem_filter hmem)
        · intro s hmem
          rcases List.mem_append.mp hmem with hnew | hold
          · exact hhanded i s ⟨rfl, hn⟩ (Option.mem_toList.mp hnew)
          · exact hopen s hold
      · unfold SemHandles.callAfter
        split
        · exact hupdate _ fun s hh => hhanded _ s ⟨rfl, hn⟩ hh
        · exact hcalled
  | syscall c =>
      exact hall _ _ hopen (hupdate _ fun s hh => hopen s (hg.handle s (Option.mem_toList.mpr hh)))
  | exception => exact hall _ _ hopen (hupdate _ fun s hh => nomatch hh)
  | key e => exact hall _ _ hopen (hupdate _ fun s hh => nomatch hh)
  | ret => exact hall _ _ hopen hcalled
  | tick => exact hall _ _ hopen hcalled

theorem boot (memAnswers : Nat → Option Addr) : (SemHandles.boot memAnswers).Recorded := by
  rintro s ((⟨he | hp⟩ | hmem | ⟨t, -, ht⟩ | ⟨t, j, hj, hmem⟩) | ⟨t, ht⟩)
  · exact List.mem_append_left _ (List.mem_of_mem_take (boot_exitSem he))
  · exact List.mem_append_left _ (List.mem_of_mem_drop (boot_pipeSem hp))
  · cases hmem
  · cases ht
  · exact absurd hmem (by rw [boot_posts hj]; exact List.not_mem_nil)
  · cases ht

/-- A run that reuses no block for a semaphore is a run under the condition. -/
theorem isolates_run {memAnswers : Nat → Option Addr} {as : List Action}
    (h : GuardedRun SemHandles.step SemHandles.OnlyNew (SemHandles.boot memAnswers) as σ) :
    GuardedRun SemHandles.step SemHandles.Isolates (SemHandles.boot memAnswers) as σ :=
  h.strengthen SemHandles.Recorded (fun _ _ _ hi hg hs => ⟨isolates hi hg, step hi hg hs⟩)
    (boot memAnswers)

end Recorded

/-- The shell opens a semaphore of its own and is about to post on it. -/
def postsOwn : List Action := startShell ++
  [.syscall (.semOpen ['s'] 0 true), .exec, .exec, .syscall (.semPost (KERNEL_BASE + 114)), .exec]

set_option maxRecDepth 100000 in
theorem user_calls_spare_kernel_post : ∃ σ,
    GuardedRun SemHandles.step SemHandles.Isolates (SemHandles.boot freshBlocks) postsOwn σ ∧
      σ.Operates (KERNEL_BASE + 114) ∧ ¬ KernelSem σ.m.k (KERNEL_BASE + 114) := by
  obtain ⟨σ, hrun, hnext⟩ := (Option.any_eq_true (fun σ : SemHandles =>
    decide (σ.m.next.bind Instr.operand = some (KERNEL_BASE + 114) ∧ σ.m.thread.sys.isEmpty = false ∧
      (σ.call σ.m.cpu).isSome))
    (GuardedRun.check SemHandles.step SemHandles.OnlyNew (SemHandles.boot freshBlocks) postsOwn)).mp
      (by decide +kernel)
  have hguard := Recorded.isolates_run (GuardedRun.of_check hrun)
  obtain ⟨hop, hsys, hcall⟩ := of_decide_eq_true hnext
  obtain ⟨i, hi, hop⟩ := Option.bind_eq_some_iff.mp hop
  have hoperates : σ.Operates (KERNEL_BASE + 114) :=
    ⟨i, hi, fun h => by simp [h] at hsys, hcall, hop⟩
  exact ⟨σ, hguard, hoperates, (user_calls_spare_kernel hguard).1 _ hoperates⟩

/-- The shell opens its own exit semaphore by its name and is about to post on it. -/
def postsExit : List Action := startShell ++
  [.syscall (.semOpen (exitSemName 3) 0 false), .exec, .syscall (.semPost (KERNEL_BASE + 104)),
    .exec, .exec, .exec]

set_option maxRecDepth 100000 in
/-- A process can open and post a semaphore of the kernel. -/
theorem kernel_sem_posted_by_user : ¬ ∀ (memAnswers : Nat → Option Addr) (as : List Action)
    (σ : SemHandles), GuardedRun SemHandles.step SemHandles.OwnHandle (SemHandles.boot memAnswers) as σ →
      (∀ s, σ.Operates s → ¬ KernelSem σ.m.k s) ∧
        ∀ i s, σ.m.next = some i → .semPosted s ∈ (exec σ.m.k σ.m.thread.regs i).events →
          ExitSem σ.m.k s → ∃ p, i = .exitSemPost p ∧ (σ.m.k.proc p).exitSem = some s := by
  intro h
  obtain ⟨σ, hrun, hat⟩ := (Option.any_eq_true (fun σ : SemHandles =>
    decide (σ.m.next.bind Instr.operand = some (KERNEL_BASE + 104) ∧ σ.m.thread.sys.isEmpty = false ∧
      (σ.call σ.m.cpu).isSome ∧ (σ.m.k.proc (KERNEL_BASE + 100)).exitSem = some (KERNEL_BASE + 104)))
    (GuardedRun.check SemHandles.step SemHandles.OwnHandle (SemHandles.boot freshBlocks) postsExit)).mp
      (by decide +kernel)
  obtain ⟨hop, hsys, hcall, hexit⟩ := of_decide_eq_true hat
  obtain ⟨i, hi, hop⟩ := Option.bind_eq_some_iff.mp hop
  exact (h _ _ σ (GuardedRun.of_check hrun)).1 _ ⟨i, hi, fun h => by simp [h] at hsys, hcall, hop⟩
    (.inl ⟨_, hexit⟩)

end TpSo
