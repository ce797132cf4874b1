import TpSo.Machine.ExecActs
import TpSo.Machine.Expansion
import TpSo.Sem.Waiters

set_option autoImplicit false

/-! # The books of a semaphore

What the trace says of a semaphore since it was last initialised: with what count, how many
`sem_post` calls were made on it, and how many `sem_wait` calls returned 0. `exec_books` says what
every instruction enters, and what it does to the count. -/

namespace TpSo

/-! ## The trace -/

/-- The count a semaphore is initialised with. -/
def Event.inits (s : Addr) : Event → Option Nat
  | .semInit t n => if t = s then some n else none
  | _ => none

/-- A `sem_wait` on `s` has returned 0. -/
def Event.returnsTo (s : Addr) : Event → Bool
  | .semReturned t ret => t == s && ret == 0
  | _ => false

/-- A `sem_post` was made on `s`. -/
def Event.postsTo (s : Addr) : Event → Bool
  | .semPosted t => t == s
  | _ => false

/-- The part of a trace since `s` was last initialised. -/
def sinceInit (s : Addr) (log : List Event) : List Event :=
  log.takeWhile (fun e => (e.inits s).isNone)

/-- The count `s` was last initialised with; `start` if the trace does not say. -/
def initialCount (s : Addr) (start : Nat) (log : List Event) : Nat :=
  (log.findSome? (Event.inits s)).getD start

/-- The `sem_wait` calls on `s` since then that have returned 0. -/
def waitReturns (s : Addr) (log : List Event) : Nat := (sinceInit s log).countP (Event.returnsTo s)

/-- The `sem_post` calls since then. -/
def postCalls (s : Addr) (log : List Event) : Nat := (sinceInit s log).countP (Event.postsTo s)

section Append
variable {s : Addr} {new : List Event} (log : List Event)

theorem sinceInit_append (h : ∀ e ∈ new, e.inits s = none) :
    sinceInit s (new ++ log) = new ++ sinceInit s log :=
  List.takeWhile_append_of_pos fun e he => by rw [h e he]; rfl

theorem waitReturns_append (h : ∀ e ∈ new, e.inits s = none) :
    waitReturns s (new ++ log) = new.countP (Event.returnsTo s) + waitReturns s log := by
  unfold waitReturns
  rw [sinceInit_append log h, List.countP_append]

theorem postCalls_append (h : ∀ e ∈ new, e.inits s = none) :
    postCalls s (new ++ log) = new.countP (Event.postsTo s) + postCalls s log := by
  unfold postCalls
  rw [sinceInit_append log h, List.countP_append]

theorem initialCount_append (start : Nat) (h : ∀ e ∈ new, e.inits s = none) :
    initialCount s start (new ++ log) = initialCount s start log := by
  unfold initialCount
  rw [List.findSome?_append, List.findSome?_eq_none_iff.mpr h]
  rfl

end Append

/-- The books of a semaphore initialised with `n` just now. -/
theorem books_inited {s : Addr} {n : Nat} (start : Nat) {new : List Event} (log : List Event)
    (hinit : ∃ e ∈ new, e.inits s ≠ none) (hn : ∀ e ∈ new, ∀ m, e.inits s = some m → m = n)
    (hno : ∀ e ∈ new, e.returnsTo s = false ∧ e.postsTo s = false) :
    waitReturns s (new ++ log) = 0 ∧ postCalls s (new ++ log) = 0 ∧
      initialCount s start (new ++ log) = n := by
  have hsub : ∀ e ∈ sinceInit s (new ++ log), e ∈ new := by
    intro e he
    unfold sinceInit at he
    rw [List.takeWhile_append] at he
    split at he
    · next hall =>
      obtain ⟨e', he', hne⟩ := hinit
      rw [← (List.takeWhile_prefix _).eq_of_length hall] at he'
      have hnone := List.all_eq_true.mp List.all_takeWhile e' he'
      exact absurd (Option.isNone_iff_eq_none.mp hnone) hne
    · exact (List.takeWhile_prefix _).subset he
  refine ⟨List.countP_eq_zero.mpr fun e he => ?_, List.countP_eq_zero.mpr fun e he => ?_, ?_⟩
  · simp [(hno e (hsub e he)).1]
  · simp [(hno e (hsub e he)).2]
  · unfold initialCount
    rw [List.findSome?_append]
    cases hf : new.findSome? (Event.inits s) with
    | none =>
        obtain ⟨e, he, hne⟩ := hinit
        exact absurd (List.findSome?_eq_none_iff.mp hf e he) hne
    | some m =>
        obtain ⟨e, he, hm⟩ := List.exists_of_findSome?_eq_some hf
        simpa using hn e he m hm

/-! ## What an instruction enters -/

/-- The end of a `sem_wait` on `s` that returns 0. -/
def Instr.returnsTo (s : Addr) : Instr → Bool
  | .semWaitReturn t ret => t == s && ret == 0
  | _ => false

/-- The end of some `sem_wait`. -/
def Instr.isReturn : Instr → Bool
  | .semWaitReturn _ _ => true
  | _ => false

/-- The instruction is the part of a `sem_post` on `s` under its lock. -/
def PostsOn (k : Kernel) (i : Instr) (s : Addr) : Prop :=
  i = .semPostLocked s ∨ ∃ q, i = .exitSemPost q ∧ (k.proc q).exitSem = some s

/-- Only `sem_wait` leaves the end of a `sem_wait` to be executed. -/
theorem exec_isReturn (k : Kernel) (r : Regs) {i : Instr} (hi : ∀ s, i ≠ .semWaitLocked s) :
    ∀ j ∈ (exec k r i).code, j.isReturn = false := by
  intro j hj
  have hcomes := exec_comesTo k r i j hj
  cases j with
  | semWaitReturn s ret => cases i <;> first | exact absurd rfl (hi _) | cases hcomes
  | _ => rfl

/-- Nothing for the books of `s`. -/
def Unrelated (s : Addr) (events : List Event) : Prop :=
  ∀ e ∈ events, e.inits s = none ∧ e.returnsTo s = false ∧ e.postsTo s = false

/-- Does the instruction enter anything in the books of a semaphore? -/
def Instr.keepsBooks : Instr → Bool
  | .semWaitReturn _ _ | .semPostLocked _ | .exitSemPost _ | .createProcess _ _ | .openPipe => true
  | .sys c => c.touchesObjects
  | _ => false

theorem exec_unrelated (k : Kernel) (r : Regs) {i : Instr} (hi : i.keepsBooks = false) (s : Addr) :
    Unrelated s (exec k r i).events := by
  have hnone : Unrelated s [] := List.forall_mem_nil _
  have hone : ∀ e : Event, e.inits s = none → e.returnsTo s = false → e.postsTo s = false →
      Unrelated s [e] := fun e hinit hret hpost => List.forall_mem_singleton.mpr ⟨hinit, hret, hpost⟩
  cases i
  all_goals first
    | cases hi; done
    | exact hnone
    | exact hone _ rfl rfl rfl
    | (simp only [exec, createRollback, initFirstCode, initLoopCode, initScanCode]
       repeat' split) <;> first | exact hnone | exact hone _ rfl rfl rfl
    | skip
  case createNamed c t name targets =>
      simp only [exec, createNamedCode]
      split <;> exact hnone
  case createRegister c attached =>
      simp only [exec, createRegisterCode]
      split <;> exact hnone
  case createDone c =>
      simp only [exec]
      cases c.use <;> exact hone _ rfl rfl rfl
  case createFailed use => cases use <;> exact hnone
  case sys c =>
      cases c <;> first
        | cases hi; done
        | (simp only [exec, sysCode, processWaitPidCode]; repeat' split) <;> exact hnone

/-! ## New semaphores -/

/-- Code that initialises semaphores: the trace has the count of each, and no other has changed. -/
structure InitsSems (k k' : Kernel) (events : List Event) : Prop where
  counts : ∀ e ∈ events, ∀ s n, e.inits s = some n → n = (k'.sem s).count
  others : ∀ s, (∀ e ∈ events, e.inits s = none) → k'.sem s = k.sem s
  quiet : ∀ e ∈ events, ∀ s, e.returnsTo s = false ∧ e.postsTo s = false

namespace InitsSems

/-- The trace of some initialisations. -/
theorem of_initEvents {k k' : Kernel} (sems : List Addr) (h : ∀ s, s ∉ sems → k'.sem s = k.sem s) :
    InitsSems k k' (sems.map (initEvent k')) where
  counts e he s n hn := by
    obtain ⟨t, -, rfl⟩ := List.mem_map.mp he
    obtain ⟨rfl, rfl⟩ : t = s ∧ (k'.sem t).count = n := by simpa [initEvent, Event.inits] using hn
    rfl
  others s hs := by
    refine h s fun hmem => ?_
    have hself := hs _ (List.mem_map_of_mem hmem)
    simp [initEvent, Event.inits] at hself
  quiet e he s := by
    obtain ⟨t, -, rfl⟩ := List.mem_map.mp he
    exact ⟨rfl, rfl⟩

theorem of_sem {k k' : Kernel} (h : k'.sem = k.sem) : InitsSems k k' [] :=
  of_initEvents [] fun s _ => by rw [h]

/-- An event that is about something else. -/
theorem cons {k k' : Kernel} {events : List Event} {e : Event} (h : InitsSems k k' events)
    (he : ∀ s, e.inits s = none ∧ e.returnsTo s = false ∧ e.postsTo s = false) :
    InitsSems k k' (e :: events) where
  counts := by
    rintro e' (_ | ⟨_, he'⟩) s n hn
    · rw [(he s).1] at hn
      cases hn
    · exact h.counts e' he' s n hn
  others s hs := h.others s fun e' he' => hs e' (.tail _ he')
  quiet := by
    rintro e' (_ | ⟨_, he'⟩) s
    · exact (he s).2
    · exact h.quiet e' he' s

end InitsSems

theorem allocArgv_sem (k : Kernel) (p : Addr) (argc : Nat) : (allocArgv k p argc).2.sem = k.sem := by
  unfold allocArgv
  rcases memAlloc_cases k .bytes with h | ⟨a, -, -, h⟩ <;> rw [h]
  · rfl
  · show (allocArgs _ _ _).2.2.sem = _
    rw [allocArgs_kernel]
    rfl

theorem allocStack_sem (k : Kernel) (p : Addr) : (allocStack k p).2.sem = k.sem := by
  unfold allocStack
  rcases memAlloc_cases k .bytes with h | ⟨a, -, -, h⟩ <;> rw [h] <;> rfl

/-- A process is built with one new semaphore at most, and points to it. -/
theorem buildProcess_sem (k : Kernel) (p pid : Nat) (args : CreateArgs) {s : Addr}
    (hs : ((buildProcess k p pid args).2.proc p).exitSem ≠ some s) :
    (buildProcess k p pid args).2.sem s = k.sem s := by
  revert hs
  unfold buildProcess
  dsimp only
  split
  · exact fun _ => rfl
  · split
    · intro _
      rw [allocArgv_sem]
      rfl
    · split
      · intro _
        rw [allocStack_sem, allocArgv_sem]
        rfl
      · unfold allocExitSem
        set k1 := (allocStack (allocArgv _ p args.argc).2 p).2 with hk1
        have hsem : k1.sem = k.sem := by
          rw [hk1, allocStack_sem, allocArgv_sem]
          rfl
        rcases memAlloc_cases k1 .semaphore with h | ⟨t, -, -, h⟩ <;> rw [h]
        · exact fun _ => by rw [← hsem]; rfl
        · dsimp only
          have hinit := semInitFields_inits
            ((k1.grant t .semaphore).modProc p (Process.setExitSem t)) t (exitSemName pid) 0
          intro hne
          rw [hinit.kernel] at hne
          have hst : s ≠ t := by
            rintro rfl
            exact hne (by simp [Kernel.modProc, Process.setExitSem])
          rw [hinit.other s hst, ← hsem]
          rfl

theorem createProcess_inits (k : Kernel) (r : Regs) (args : CreateArgs) (use : CreateUse) :
    InitsSems k (createProcessCode k r args use).k (createProcessCode k r args use).events := by
  unfold createProcessCode
  split
  · exact .of_sem rfl
  · split
    · exact .of_sem rfl
    · dsimp only
      rcases memAlloc_cases k .process with h | ⟨p, -, -, h⟩ <;> rw [h]
      · exact .of_sem rfl
      · dsimp only
        have hbuilt : InitsSems k (buildProcess (k.grant p .process) p (allocatePid k) args).2
            ((((buildProcess (k.grant p .process) p (allocatePid k) args).2.proc p).exitSem.toList).map
              (initEvent (buildProcess (k.grant p .process) p (allocatePid k) args).2)) := by
          refine .of_initEvents _ fun s hs => ?_
          have hother := buildProcess_sem (k.grant p .process) p (allocatePid k) args (s := s)
            fun h => hs (by simp [h])
          exact hother
        split <;> exact hbuilt

theorem semOpen_inits (k : Kernel) (r : Regs) (name : Name) (count : Nat) (create : Bool) :
    InitsSems k (sysCode k r (.semOpen name count create)).k
      (sysCode k r (.semOpen name count create)).events := by
  simp only [sysCode]
  split
  · exact .of_sem rfl
  split
  · exact .of_sem rfl
  · split
    · exact .of_sem rfl
    · rcases memAlloc_cases k .userSemaphore with h | ⟨s, -, -, h⟩ <;> rw [h]
      · exact .of_sem rfl
      · refine .of_initEvents [s] fun t ht => ?_
        exact (semInit_inits (k.grant s .userSemaphore) s name count).other t (by simpa using ht)

theorem openPipe_inits (k : Kernel) (r : Regs) :
    InitsSems k (openPipeCode k r).k (openPipeCode k r).events := by
  have hinit : ∀ (k : Kernel) (s t : Addr) (name : Name) (n : Nat), t ≠ s →
      (semInit (k.grant s .semaphore) s name n).sem t = k.sem t := fun k s t name n ht =>
    (semInit_inits (k.grant s .semaphore) s name n).other t ht
  unfold openPipeCode
  dsimp only
  split
  · exact .of_sem rfl
  · rcases memAlloc_cases k .pipe with h | ⟨a, -, -, h⟩ <;> rw [h] <;> dsimp only
    · exact .of_sem rfl
    · rcases memAlloc_cases (k.grant a .pipe) .semaphore with h | ⟨s, -, -, h⟩ <;> rw [h] <;>
        dsimp only
      · exact .of_sem rfl
      split
      · exact .of_sem rfl
      · rcases memAlloc_cases (semInit ((k.grant a .pipe).grant s .semaphore) s
          (semName k.nextPipeId 'R') 0) .semaphore with h | ⟨t, -, -, h⟩ <;> rw [h] <;> dsimp only
        · refine .of_initEvents [s] fun x hx => ?_
          exact hinit _ s x _ 0 (by simpa using hx)
        split
        · exact .of_sem rfl
        · rcases memAlloc_cases (semInit ((semInit ((k.grant a .pipe).grant s .semaphore) s
            (semName k.nextPipeId 'R') 0).grant t .semaphore) t (semName k.nextPipeId 'W') 0)
            .semaphore with h | ⟨u, -, -, h⟩ <;> rw [h] <;> dsimp only
          · refine .of_initEvents [t, s] fun x hx => ?_
            simp only [List.mem_cons, List.not_mem_nil, or_false, not_or] at hx
            exact (hinit _ t x _ 0 hx.1).trans (hinit _ s x _ 0 hx.2)
          split
          · exact .of_sem rfl
          · refine InitsSems.cons (.of_initEvents [u, t, s] fun x hx => ?_) fun _ => ⟨rfl, rfl, rfl⟩
            simp only [List.mem_cons, List.not_mem_nil, or_false, not_or] at hx
            exact (hinit _ u x _ 1 hx.1).trans ((hinit _ t x _ 0 hx.2.1).trans (hinit _ s x _ 0 hx.2.2))

/-! ## All instructions -/

/-- What an instruction enters in the books of `s`, with what it does to the count and which ends of
    `sem_wait` it leaves to be executed. -/
inductive Books (k : Kernel) (i : Instr) (s : Addr) (o : Outcome) : Prop
  | still (code : o.code.countP (Instr.returnsTo s) = 0) (events : Unrelated s o.events)
      (count : (o.k.sem s).count ≤ (k.sem s).count)
  | took (instr : i = .semWaitLocked s) (code : o.code = [.semWaitReturn s 0])
      (events : o.events = []) (count : (o.k.sem s).count + 1 = (k.sem s).count)
  | waits (c : Addr) (instr : i = .semWaitLocked s) (empty : (k.sem s).count = 0)
      (current : k.current = some c)
      (code : (k.proc c).state ≠ .blocked → o.code = [.int20, .semWaitReturn s 0])
      (events : o.events = []) (count : (o.k.sem s).count = 0)
  | returned (instr : i = .semWaitReturn s 0) (code : o.code = [])
      (events : o.events = [.semReturned s 0]) (count : (o.k.sem s).count = (k.sem s).count)
  | posted (instr : PostsOn k i s) (code : o.code.countP (Instr.returnsTo s) = 0)
      (events : o.events = [.semPosted s])
      (count : (o.k.sem s).count ≤
        (k.sem s).count + if (firstBlocked k (waiters k s)).isSome then 0 else 1)
  | inited (code : o.code.countP (Instr.returnsTo s) = 0)
      (init : ∃ e ∈ o.events, e.inits s ≠ none)
      (events : ∀ e ∈ o.events, ∀ n, e.inits s = some n → n = (o.k.sem s).count)
      (quiet : ∀ e ∈ o.events, e.returnsTo s = false ∧ e.postsTo s = false)
  | stored (value : Nat) (instr : i = .semStoreValue s value)
      (code : o.code.countP (Instr.returnsTo s) = 0) (events : Unrelated s o.events)
      (count : (o.k.sem s).count = value)

theorem countP_returnsTo_zero {code : List Instr} (h : ∀ j ∈ code, j.isReturn = false) (s : Addr) :
    code.countP (Instr.returnsTo s) = 0 := by
  refine List.countP_eq_zero.mpr fun j hj hret => ?_
  have hno := h j hj
  cases j with
  | semWaitReturn t ret => cases hno
  | _ => cases hret

/-- `sem_wait`. -/
theorem semWaitLocked_books (k : Kernel) (r : Regs) (t s : Addr) :
    Books k (.semWaitLocked t) s (exec k r (.semWaitLocked t)) := by
  have hsem : (exec k r (.semWaitLocked t)).k.sem = (k.modSem t fun _ => waitedSem k t).sem :=
    sem_of_outside (semWaitBody_outside k t)
  by_cases hst : s = t
  · subst hst
    have hself : ((exec k r (.semWaitLocked s)).k.sem s).count = (waitedSem k s).count := by
      rw [hsem]
      simp [Kernel.modSem]
    by_cases hpos : 0 < (k.sem s).count
    · have hbody : semWaitBody k s = (0, false, k.modSem s Sem.takeToken) := by
        unfold semWaitBody
        rw [if_pos hpos]
      refine .took rfl ?_ rfl ?_
      · simp [exec, hbody]
      · rw [hself, waitedSem, if_pos hpos]
        simp only [Sem.takeToken]
        omega
    · have hzero : (k.sem s).count = 0 := by omega
      cases hc : k.current with
      | none =>
          have hbody : semWaitBody k s = (-1, false, semUnlock k s) := by
            unfold semWaitBody
            rw [if_neg hpos, hc]
          refine .still ?_ (by simp [Unrelated, exec]) ?_
          · simp [exec, hbody, Instr.returnsTo]
          · rw [hself, waitedSem, if_neg hpos, hc]
      | some c =>
          refine .waits c rfl hzero hc (fun hb => ?_) rfl ?_
          · have hb' : ((enqueueWaiter k s c).proc c).state ≠ .blocked := by
              rwa [(enqueueWaiter_same k s c).state c]
            simp [exec, semWaitBody, hpos, hc, processBlock, hb']
          · rw [hself, waitedSem, if_neg hpos, hc]
            exact hzero
  · refine .still ?_ (by simp [Unrelated, exec]) ?_
    · simp only [exec]
      split <;> simp [Instr.returnsTo, Ne.symm hst]
    · rw [hsem]
      simp [Kernel.modSem, Function.update_of_ne hst]

/-- `sem_post`, also that of `process_exit`. -/
theorem exec_postsOn {k : Kernel} {i : Instr} {s : Addr} (r : Regs) (h : PostsOn k i s) :
    (exec k r i).k = (semPostBody k s).2 ∧ (exec k r i).events = [.semPosted s] := by
  rcases h with rfl | ⟨q, rfl, hq⟩
  · exact ⟨rfl, rfl⟩
  · simp [exec, hq]

theorem semPostBody_count (k : Kernel) (s : Addr) : ((semPostBody k s).2.sem s).count ≤
    (k.sem s).count + if (firstBlocked k (waiters k s)).isSome then 0 else 1 := by
  rw [sem_of_outside (semPostBody_outside k s)]
  simp only [Kernel.modSem, Function.update_self, postedSem]
  cases firstBlocked k (waiters k s) with
  | some w => exact Nat.le_refl _
  | none => exact Nat.mod_le _ _

theorem post_books {k : Kernel} {i : Instr} {t : Addr} (r : Regs) (hi : PostsOn k i t) (s : Addr) :
    Books k i s (exec k r i) := by
  obtain ⟨hk, hev⟩ := exec_postsOn r hi
  have hcode : (exec k r i).code.countP (Instr.returnsTo s) = 0 := by
    refine countP_returnsTo_zero (exec_isReturn k r fun x hx => ?_) s
    rcases hi with rfl | ⟨q, rfl, -⟩ <;> cases hx
  by_cases hst : s = t
  · subst hst
    exact .posted hi hcode hev (hk ▸ semPostBody_count k s)
  · refine .still hcode ?_ ?_
    · rw [hev]
      simp [Unrelated, Event.inits, Event.returnsTo, Event.postsTo, Ne.symm hst]
    · rw [hk, sem_of_outside (semPostBody_outside k t)]
      simp [Kernel.modSem, Function.update_of_ne hst]

/-- Code that initialises semaphores. -/
theorem inits_books {k : Kernel} {i : Instr} {o : Outcome} (h : InitsSems k o.k o.events) (s : Addr)
    (hcode : o.code.countP (Instr.returnsTo s) = 0) : Books k i s o := by
  by_cases hs : ∀ e ∈ o.events, e.inits s = none
  · exact .still hcode (fun e he => ⟨hs e he, h.quiet e he s⟩) (by rw [h.others s hs])
  · simp only [not_forall, exists_prop] at hs
    exact .inited hcode hs (fun e he n hn => h.counts e he s n hn) fun e he => h.quiet e he s

/-- **Every instruction** keeps the books of every semaphore. -/
theorem exec_books (k : Kernel) (r : Regs) (i : Instr) (s : Addr) : Books k i s (exec k r i) := by
  -- a count goes up only where a token is posted or a semaphore initialised, so the cases are
  -- those instructions and then everything that only takes from counts
  by_cases hwait : ∃ t, i = .semWaitLocked t
  · obtain ⟨t, rfl⟩ := hwait
    exact semWaitLocked_books k r t s
  · have hcode := countP_returnsTo_zero (exec_isReturn k r fun t ht => hwait ⟨t, ht⟩) s
    by_cases hobj : i.touchesObjects = false
    · by_cases hret : ∃ t ret, i = .semWaitReturn t ret
      · obtain ⟨t, ret, rfl⟩ := hret
        by_cases hts : t = s ∧ ret = 0
        · obtain ⟨rfl, rfl⟩ := hts
          exact .returned rfl rfl rfl rfl
        · refine .still hcode ?_ (Nat.le_refl _)
          simp only [Unrelated, exec, List.mem_singleton, forall_eq]
          simpa [Event.inits, Event.returnsTo, Event.postsTo] using hts
      · have hkeeps : i.keepsBooks = false := by
          cases i with
          | semWaitReturn t ret => exact absurd ⟨t, ret, rfl⟩ hret
          | sys c => exact hobj
          | _ => first | rfl | cases hobj
        refine .still hcode (exec_unrelated k r hkeeps s) ?_
        rw [(exec_sameObjects k r hobj).sem]
    · have hmod : ∀ (t : Addr) (f : Sem → Sem), (∀ x : Sem, (f x).count ≤ x.count) →
          ((k.modSem t f).sem s).count ≤ (k.sem s).count := by
        intro t f hf
        simp only [Kernel.modSem, Function.update_apply]
        split
        · next h => rw [h]; exact hf _
        · exact Nat.le_refl _
      have hunlock : ∀ t, ((semUnlock k t).sem s).count ≤ (k.sem s).count := fun t =>
        hmod t (fun x => { x with lock := false }) fun _ => Nat.le_refl _
      cases i
      all_goals first
        | exact absurd rfl hobj
        | exact absurd ⟨_, rfl⟩ hwait
        | exact .still hcode (exec_unrelated k r rfl s) (Nat.le_refl _)
        | skip
      case semLock t =>
          refine .still hcode (exec_unrelated k r rfl s) ?_
          simp only [exec]
          split
          · exact Nat.le_refl _
          · exact hmod t (fun x => { x with lock := true }) fun _ => Nat.le_refl _
      case semPostLocked t => exact post_books r (.inl rfl) s
      -- `sem_destroy` sets the count to 0, whatever it was
      case semDestroyLocked t =>
          refine .still hcode (exec_unrelated k r rfl s) ?_
          rw [show (exec k r (.semDestroyLocked t)).k.sem = (k.modSem t destroyedSem).sem from
            sem_of_outside (semDestroyBody_outside k t)]
          exact hmod t _ fun _ => Nat.zero_le _
      case semReadValue t value =>
          exact .still hcode (exec_unrelated k r rfl s) (hunlock t)
      case semStoreValue t value =>
          by_cases hts : s = t
          · subst hts
            refine .stored value rfl hcode (exec_unrelated k r rfl s) ?_
            simp [exec, Kernel.modSem]
          · refine .still hcode (exec_unrelated k r rfl s) ?_
            simp [exec, Kernel.modSem, Function.update_of_ne hts]
      case unattachFromPipe id pid =>
          refine .still hcode (exec_unrelated k r rfl s) ?_
          have hremove : ∀ (k : Kernel) (t : Addr), ((semRemoveProcess k t pid).sem s).count =
              (k.sem s).count := by
            intro k t
            simp only [semRemoveProcess, Kernel.modSem, Function.update_apply]
            split
            · next h => rw [h]
            · rfl
          simp only [exec]
          split
          · exact Nat.le_refl _
          · split
            · exact Nat.le_refl _
            · rw [hremove, hremove]
      case closeReaders id pipe attached =>
          exact .still hcode (exec_unrelated k r rfl s) (hunlock _)
      case closeWriters id pipe attached readers =>
          exact .still hcode (exec_unrelated k r rfl s) (hunlock _)
      case openPipe => exact inits_books (openPipe_inits k r) s hcode
      case readLocked pipe bytes done =>
          refine .still hcode (exec_unrelated k r rfl s) ?_
          simp only [exec]
          repeat' split
          all_goals exact Nat.le_refl _
      case writeLocked pipe bytes written =>
          refine .still hcode (exec_unrelated k r rfl s) ?_
          simp only [exec]
          split <;> exact Nat.le_refl _
      case clearCount pipe =>
          exact .still hcode (exec_unrelated k r rfl s) (hunlock _)
      case exitSemPost q =>
          cases hq : (k.proc q).exitSem with
          | none =>
              refine .still hcode ?_ ?_
              · simp [Unrelated, exec, hq]
              · simp [exec, hq]
          | some t => exact post_books r (.inr ⟨q, rfl, hq⟩) s
      case createProcess args use => exact inits_books (createProcess_inits k r args use) s hcode
      case sys c =>
          cases c <;> try exact absurd rfl hobj
          exact inits_books (semOpen_inits k r _ _ _) s hcode

end TpSo
