import TpSo.Machine.Call
import TpSo.Machine.Terminated
import TpSo.Process.Build

set_option autoImplicit false

/-! # When `open_pipe` does all of its work or none

`open_pipe` allocates the pipe object and then, for each of its three semaphores, the object, the name
and the waiting queue. Nobody looks whether `sem_init` has found memory, and what is destroyed on the
way out is not freed: from the first semaphore on every allocation has to succeed. -/

namespace TpSo

/-! ## `sem_init` -/

/-- The semaphore at `s` as `sem_init` means to leave it. -/
structure Initialised (k : Kernel) (s : Addr) (name : Name) (count : Nat) : Prop where
  name : (k.sem s).name = some name
  count : (k.sem s).count = count
  waiting : (k.sem s).waitingProcesses = some []
  lock : (k.sem s).lock = false

/-- The allocator has memory for the name and for the waiting queue of a semaphore. -/
def semInitFits (k : Kernel) : Bool := (ensureRegistry k).allocOk && (ensureRegistry k).allocNext.allocOk

/-- Without memory for the name `sem_init` leaves the semaphore without one. -/
theorem semInit_unnamed {k : Kernel} (hname : (ensureRegistry k).allocOk = false) (s : Addr) (name : Name)
    (count : Nat) : ((semInit k s name count).sem s).name = none := by
  simp [semInit, semInitFields, hname, Kernel.modSem]

/-- With it, it goes on to the waiting queue. -/
theorem semInit_named {k : Kernel} (hname : (ensureRegistry k).allocOk = true) (s : Addr) (name : Name)
    (count : Nat) : (semInit k s name count).sem s =
      Sem.start name count (queueCreate Addr (ensureRegistry k).allocNext).1
        ((queueCreate Addr (ensureRegistry k).allocNext).2.sem s) := by
  simp only [semInit, semInitFields, hname, if_true, registerSem_sem, Kernel.modSem, Function.update_self]

/-- Without memory for the queue it leaves the semaphore without one. -/
theorem semInit_unqueued {k : Kernel} (hname : (ensureRegistry k).allocOk = true)
    (hqueue : (ensureRegistry k).allocNext.allocOk = false) (s : Addr) (name : Name) (count : Nat) :
    ((semInit k s name count).sem s).waitingProcesses = none := by
  rw [semInit_named hname]
  simp [queueCreate, hqueue, Sem.start]

/-- Nothing else tells whether `sem_init` has done its work: it returns nothing. -/
theorem initialised_iff (k : Kernel) (s : Addr) (name : Name) (count : Nat) :
    Initialised (semInit k s name count) s name count ↔ semInitFits k = true := by
  cases hname : (ensureRegistry k).allocOk with
  | false =>
      simp only [semInitFits, hname, Bool.false_and, Bool.false_eq_true, iff_false]
      exact fun h => Option.some_ne_none _ (h.name.symm.trans (semInit_unnamed hname s name count))
  | true =>
      simp only [semInitFits, hname, Bool.true_and]
      cases hqueue : (ensureRegistry k).allocNext.allocOk with
      | false =>
          simp only [Bool.false_eq_true, iff_false]
          exact fun h => Option.some_ne_none _
            (h.waiting.symm.trans (semInit_unqueued hname hqueue s name count))
      | true =>
          simp only [iff_true]
          constructor <;> rw [semInit_named hname] <;> simp [queueCreate, hqueue, Sem.start]

/-- The name and the waiting queue show what `sem_init` has not found memory for. -/
theorem semInit_unfit {k : Kernel} (h : semInitFits k = false) (s : Addr) (name : Name) (count : Nat) :
    ((semInit k s name count).sem s).name.isNone ∨
      ((semInit k s name count).sem s).waitingProcesses.isNone := by
  cases hname : (ensureRegistry k).allocOk with
  | false => exact .inl (by rw [semInit_unnamed hname]; rfl)
  | true =>
      simp only [semInitFits, hname, Bool.true_and] at h
      exact .inr (by rw [semInit_unqueued hname h]; rfl)

theorem initialised_congr {k k' : Kernel} {s : Addr} {name : Name} {count : Nat}
    (h : k'.sem s = k.sem s) : Initialised k' s name count ↔ Initialised k s name count := by
  constructor <;> intro hi
  · exact ⟨h ▸ hi.name, h ▸ hi.count, h ▸ hi.waiting, h ▸ hi.lock⟩
  · exact ⟨h.symm ▸ hi.name, h.symm ▸ hi.count, h.symm ▸ hi.waiting, h.symm ▸ hi.lock⟩

/-- `sem_create` and `sem_init` of another semaphore. -/
theorem semInit_grant_sem {k : Kernel} {s t : Addr} (hs : k.live s ≠ none) (ht : k.live t = none)
    (name : Name) (count : Nat) : (semInit (k.grant t .semaphore) t name count).sem s = k.sem s := by
  have hne : s ≠ t := by
    rintro rfl
    exact hs ht
  exact (semInit_inits (k.grant t .semaphore) t name count).other s hne

theorem semInit_grant_live (k : Kernel) (t : Addr) (name : Name) (count : Nat) :
    (semInit (k.grant t .semaphore) t name count).live = Function.update k.live t (some .semaphore) := by
  rw [(semInit_inits (k.grant t .semaphore) t name count).kernel]
  rfl

/-! ## The allocations of `open_pipe` -/

/-- `create_pipe`'s semaphores: the letter their names end in, and their counts. -/
def pipeSems : List (Char × Nat) := [('R', 0), ('W', 0), ('M', 1)]

/-- The allocator has memory for these semaphores of pipe `id`, their names and their waiting queues. -/
def semsFit (id : Nat) (k : Kernel) : List (Char × Nat) → Bool
  | [] => true
  | (letter, count) :: rest =>
    match k.memAlloc .semaphore with
    | (none, _) => false
    | (some sem, k) => semInitFits k && semsFit id (semInit k sem (semName id letter) count) rest

/-- The allocations of `open_pipe` leave it nothing half done: it makes none, or fails at one of the first
    two, or has memory for all of its semaphores. -/
def openPipeFits (k : Kernel) : Bool :=
  decide (MAX_PIPES ≤ k.nextPipeId) ||
    match k.memAlloc .pipe with
    | (none, _) => true
    | (some _, k1) => (k1.memAlloc .semaphore).1.isNone || semsFit k.nextPipeId k1 pipeSems

/-- `open_pipe` comes to its first `sem_init`. -/
def openPipeInits (k : Kernel) : Bool :=
  decide (k.nextPipeId < MAX_PIPES) &&
    match k.memAlloc .pipe with
    | (none, _) => false
    | (some _, k1) => (k1.memAlloc .semaphore).1.isSome

/-- No `sem_init` of this call finds `registry_lock` taken. -/
def openPipePasses (k : Kernel) : Bool := !(k.registryLock && openPipeInits k)

/-- `open_pipe` has returned `rax`, and has done all of its work or none. -/
inductive OpenPipeDone (k k' : Kernel) (rax : Int) : Prop
  | opened (pipe : Addr) (id : rax = (k.nextPipeId : Int)) (entry : pipeOf k' k.nextPipeId = some pipe)
      (canRead : Initialised k' (k'.pipe pipe).canRead (semName k.nextPipeId 'R') 0)
      (canWrite : Initialised k' (k'.pipe pipe).canWrite (semName k.nextPipeId 'W') 0)
      (mutex : Initialised k' (k'.pipe pipe).mutex (semName k.nextPipeId 'M') 1)
  | failed (ret : rax = -1) (next : k'.nextPipeId = k.nextPipeId) (pipes : k'.pipes = k.pipes)
      (registered : k'.registeredSemaphores = k.registeredSemaphores) (live : k'.live = k.live)

/-- `pipes[next_pipe_id] = new_pipe; return next_pipe_id++;` -/
def enterPipe (k : Kernel) (id : Nat) (pipe : Addr) (f : Pipe → Pipe) : Kernel :=
  { k.modPipe pipe f with pipes := Function.update k.pipes id (some pipe), nextPipeId := k.nextPipeId + 1 }

/-- Once all the objects are there `open_pipe` does not fail: the three semaphores decide. -/
theorem openPipeDone_iff {k k4 : Kernel} (hid : k.nextPipeId < MAX_PIPES)
    {pipe canRead canWrite mutex : Addr} :
    OpenPipeDone k (enterPipe k4 k.nextPipeId pipe (newPipe k.nextPipeId canRead canWrite mutex))
      (k.nextPipeId : Int) ↔
    Initialised k4 canRead (semName k.nextPipeId 'R') 0 ∧
      Initialised k4 canWrite (semName k.nextPipeId 'W') 0 ∧
      Initialised k4 mutex (semName k.nextPipeId 'M') 1 := by
  set k5 := enterPipe k4 k.nextPipeId pipe (newPipe k.nextPipeId canRead canWrite mutex) with hk5
  have hentry : ∀ p, pipeOf k5 k.nextPipeId = some p ↔ p = pipe := by
    intro p
    simp only [hk5, enterPipe, pipeOf, if_neg (Nat.not_le.mpr hid), Function.update_self,
      Option.some.injEq, eq_comm]
  have hpipe : k5.pipe pipe = newPipe k.nextPipeId canRead canWrite mutex (k4.pipe pipe) :=
    Function.update_self ..
  have hsem : ∀ s name count, Initialised k5 s name count ↔ Initialised k4 s name count :=
    fun s name count => initialised_congr rfl
  constructor
  · intro h
    cases h with
    | failed hret => omega
    | opened p _ hp hr hw hm =>
        obtain rfl := (hentry p).mp hp
        rw [hpipe, hsem] at hr hw hm
        exact ⟨hr, hw, hm⟩
  · rintro ⟨hr, hw, hm⟩
    refine .opened pipe rfl ((hentry pipe).mpr rfl) ?_ ?_ ?_ <;> rw [hpipe, hsem] <;> assumption

/-- What the code of `open_pipe` leaves to be done. -/
inductive OpenPipeCase (k : Kernel) (o : Outcome) : Prop
  | spins (code : o.code = [.spin]) (taken : openPipePasses k = false)
  | done (code : o.code = []) (done : OpenPipeDone k o.k o.r.rax) (fits : openPipeFits k = true)
      (passes : openPipePasses k = true)
  | half (code : o.code = []) (half : ¬ OpenPipeDone k o.k o.r.rax) (unfit : openPipeFits k = false)
  | leaks (pipe canRead : Addr) (destroyed : List Addr) (free : k.live canRead = none)
      (ne : canRead ≠ pipe) (live : o.k.live canRead ≠ none)
      (code : o.code = destroyed.map .semDestroy ++ [.openPipeFail pipe]) (unfit : openPipeFits k = false)

/-- **The code of `open_pipe`**, by which of its allocations fail. -/
theorem openPipe_case (k : Kernel) (r : Regs) : OpenPipeCase k (openPipeCode k r) := by
  by_cases hroom : k.nextPipeId ≥ MAX_PIPES
  · have hcode : openPipeCode k r = { k := k, r := { r with rax := -1 } } := if_pos hroom
    rw [hcode]
    exact .done rfl (.failed rfl rfl rfl rfl rfl) (by simp [openPipeFits, hroom])
      (by simp [openPipePasses, openPipeInits, Nat.not_lt.mpr hroom])
  -- one split for each call of `mem_alloc`, in the order of the source
  rcases memAlloc_cases k .pipe with h1 | ⟨pipe, hpipe, -, h1⟩
  · have hcode : openPipeCode k r = { k := k.allocNext, r := { r with rax := -1 } } := by
      simp only [openPipeCode, if_neg hroom, h1]
    rw [hcode]
    exact .done rfl (.failed rfl rfl rfl rfl rfl) (by simp [openPipeFits, h1])
      (by simp [openPipePasses, openPipeInits, h1])
  have hlive1 : (k.grant pipe .pipe).live = Function.update k.live pipe (some .pipe) := rfl
  rcases memAlloc_cases (k.grant pipe .pipe) .semaphore with h2 | ⟨canRead, hread, -, h2⟩
  · have hcode : openPipeCode k r =
        { k := (k.grant pipe .pipe).allocNext.memFree pipe, r := { r with rax := -1 } } := by
      simp only [openPipeCode, if_neg hroom, h1, h2]
    rw [hcode]
    refine .done rfl (.failed rfl rfl rfl rfl ?_) (by simp [openPipeFits, h1, h2])
      (by simp [openPipePasses, openPipeInits, h1, h2])
    show Function.update (Function.update k.live pipe (some .pipe)) pipe none = k.live
    rw [Function.update_idem, ← hpipe, Function.update_eq_self]
  have hreadpipe : canRead ≠ pipe := by
    rintro rfl
    rw [hlive1, Function.update_self] at hread
    cases hread
  have hreadfree : k.live canRead = none := by
    rwa [hlive1, Function.update_of_ne hreadpipe] at hread
  have hpasses : openPipePasses k = !k.registryLock := by
    simp [openPipePasses, openPipeInits, h1, h2, Nat.lt_of_not_ge hroom]
  have hspins : ∀ {k' : Kernel}, semInitSpins k' = true → k'.registryLock = k.registryLock →
      openPipePasses k = false := by
    intro k' hspin hlock
    rw [semInitSpins, hlock, Bool.and_eq_true] at hspin
    rw [hpasses, hspin.1, Bool.not_true]
  by_cases hspin1 : semInitSpins ((k.grant pipe .pipe).grant canRead .semaphore) = true
  · have hcode : openPipeCode k r = { k := k, r := r, code := [.spin] } := by
      simp only [openPipeCode, if_neg hroom, h1, h2, if_pos hspin1]
    rw [hcode]
    exact .spins rfl (hspins hspin1 rfl)
  set k2 := semInit ((k.grant pipe .pipe).grant canRead .semaphore) canRead
    (semName k.nextPipeId 'R') 0 with hk2
  have hlock2 : k2.registryLock = k.registryLock := by
    rw [hk2, (semInit_inits _ _ _ _).kernel]
    rfl
  have hlive2 : k2.live canRead ≠ none := by
    rw [hk2, semInit_grant_live, Function.update_self]
    exact Option.some_ne_none _
  have hfits2 : openPipeFits k =
      (semInitFits ((k.grant pipe .pipe).grant canRead .semaphore) &&
        semsFit k.nextPipeId k2 [('W', 0), ('M', 1)]) := by
    simp only [openPipeFits, decide_eq_false hroom, Bool.false_or, h1, h2, Option.isNone_some,
      pipeSems, semsFit]
    rfl
  -- from here on `fail` destroys semaphores that exist, and destroying does not free their blocks
  rcases memAlloc_cases k2 .semaphore with h3 | ⟨canWrite, hwrite, -, h3⟩
  · have hcode : openPipeCode k r =
        { k := k2.allocNext, r := r, code := [canRead].map .semDestroy ++ [.openPipeFail pipe]
          events := [initEvent k2.allocNext canRead] } := by
      simp only [openPipeCode, if_neg hroom, h1, h2, if_neg hspin1, ← hk2, h3]
      rfl
    rw [hcode]
    exact .leaks pipe canRead [canRead] hreadfree hreadpipe hlive2 rfl (by simp [hfits2, semsFit, h3])
  have hwriteread : canWrite ≠ canRead := by
    rintro rfl
    exact hlive2 hwrite
  by_cases hspin2 : semInitSpins (k2.grant canWrite .semaphore) = true
  · have hcode : openPipeCode k r = { k := k, r := r, code := [.spin] } := by
      simp only [openPipeCode, if_neg hroom, h1, h2, if_neg hspin1, ← hk2, h3, if_pos hspin2]
    rw [hcode]
    exact .spins rfl (hspins hspin2 hlock2)
  set k3 := semInit (k2.grant canWrite .semaphore) canWrite (semName k.nextPipeId 'W') 0 with hk3
  have hlock3 : k3.registryLock = k.registryLock := by
    rw [hk3, (semInit_inits _ _ _ _).kernel]
    exact hlock2
  have hlive3 : k3.live canRead ≠ none ∧ k3.live canWrite ≠ none := by
    rw [hk3, semInit_grant_live, Function.update_self, Function.update_of_ne hwriteread.symm]
    exact ⟨hlive2, Option.some_ne_none _⟩
  have hsem3 : k3.sem canRead = k2.sem canRead := semInit_grant_sem hlive2 hwrite _ _
  rcases memAlloc_cases k3 .semaphore with h4 | ⟨mutex, hmutex, -, h4⟩
  · have hcode : openPipeCode k r =
        { k := k3.allocNext, r := r, code := [canRead, canWrite].map .semDestroy ++ [.openPipeFail pipe]
          events := [initEvent k3.allocNext canWrite, initEvent k3.allocNext canRead] } := by
      simp only [openPipeCode, if_neg hroom, h1, h2, if_neg hspin1, ← hk2, h3, if_neg hspin2, ← hk3, h4]
      rfl
    rw [hcode]
    exact .leaks pipe canRead [canRead, canWrite] hreadfree hreadpipe hlive3.1 rfl
      (by simp [hfits2, semsFit, h3, ← hk3, h4])
  by_cases hspin3 : semInitSpins (k3.grant mutex .semaphore) = true
  · have hcode : openPipeCode k r = { k := k, r := r, code := [.spin] } := by
      simp only [openPipeCode, if_neg hroom, h1, h2, if_neg hspin1, ← hk2, h3, if_neg hspin2, ← hk3, h4,
        if_pos hspin3]
    rw [hcode]
    exact .spins rfl (hspins hspin3 hlock3)
  set k4 := semInit (k3.grant mutex .semaphore) mutex (semName k.nextPipeId 'M') 1 with hk4
  have hsem4 : k4.sem canRead = k2.sem canRead ∧ k4.sem canWrite = k3.sem canWrite :=
    ⟨(semInit_grant_sem hlive3.1 hmutex _ _).trans hsem3, semInit_grant_sem hlive3.2 hmutex _ _⟩
  have hcode : openPipeCode k r =
      { k := enterPipe k4 k.nextPipeId pipe (newPipe k.nextPipeId canRead canWrite mutex)
        r := { r with rax := (k.nextPipeId : Int) }
        events := [.opened pipe, initEvent k4 mutex, initEvent k4 canWrite, initEvent k4 canRead] } := by
    simp only [openPipeCode, if_neg hroom, h1, h2, if_neg hspin1, ← hk2, h3, if_neg hspin2, ← hk3, h4,
      if_neg hspin3, ← hk4]
    rfl
  have hdone : OpenPipeDone k (openPipeCode k r).k (openPipeCode k r).r.rax ↔ openPipeFits k = true := by
    rw [hcode, openPipeDone_iff (Nat.lt_of_not_ge hroom), initialised_congr hsem4.1,
      initialised_congr hsem4.2, initialised_iff, initialised_iff, initialised_iff]
    simp only [hfits2, semsFit, h3, ← hk3, h4, Bool.and_true, Bool.and_eq_true]
  cases hall : openPipeFits k with
  | true =>
      -- the first `sem_init` has found memory for the name, and so has come to the lock
      have hfree : k.registryLock = false := by
        have hfits1 : semInitFits ((k.grant pipe .pipe).grant canRead .semaphore) = true :=
          (Bool.and_eq_true_iff.mp (hfits2.symm.trans hall)).1
        have hname := (Bool.and_eq_true_iff.mp hfits1).1
        simp only [semInitSpins, hname, Bool.and_true, Bool.not_eq_true] at hspin1
        exact hspin1
      exact .done (by rw [hcode]) (hdone.mpr hall) hall (by rw [hpasses, hfree, Bool.not_false])
  | false => exact .half (by rw [hcode]) (fun h => Bool.eq_false_iff.mp hall (hdone.mp h)) hall

/-! ## What is destroyed is not freed -/

/-- The blocks allocated in `k` are still allocated. -/
def FreesNothing (k k' : Kernel) : Prop := ∀ a, k.live a ≠ none → k'.live a ≠ none

theorem FreesNothing.trans {k k' k'' : Kernel} (h : FreesNothing k k') (h' : FreesNothing k' k'') :
    FreesNothing k k'' := fun a ha => h' a (h a ha)

theorem FreesNothing.of_outside {k k' : Kernel} (h : k'.outside = k.outside) : FreesNothing k k' := by
  have hlive : k'.live = k.live := show k'.outside.live = k.outside.live by rw [h]
  intro a ha
  rwa [hlive]

/-- `sem_destroy`. -/
def Instr.isSemDestroy : Instr → Bool
  | .semDestroy _ | .registryLock | .semUnregister _ | .semLock _ | .semDestroyLocked _ => true
  | _ => false

theorem exec_isSemDestroy (k : Kernel) (r : Regs) {i : Instr} (hi : i.isSemDestroy) :
    FreesNothing k (exec k r i).k ∧ ∀ j ∈ (exec k r i).code, j.isSemDestroy := by
  have hcode : ∀ j ∈ (exec k r i).code, j.isSemDestroy := by
    intro j hj
    have hcomes := exec_comesTo k r i j hj
    cases i <;> first | cases hi; done | cases j <;> first | rfl | cases hcomes
  refine ⟨?_, hcode⟩
  cases i <;> try cases hi
  case semDestroy s => exact fun _ h => h
  case semUnregister s => exact fun _ h => h
  case registryLock =>
      simp only [exec]
      split <;> exact fun _ h => h
  case semLock s =>
      simp only [exec]
      split <;> exact fun _ h => h
  case semDestroyLocked s =>
      exact fun a ha => FreesNothing.of_outside (semDestroyBody_outside k s) a ha

/-- `create_pipe` destroys the semaphores it has made and frees the pipe: their objects stay. -/
theorem openPipeFail_leaks {pipe s : Addr} (hs : s ≠ pipe) (destroyed : List Addr) :
    (callCode FreesNothing).Triple (fun _ _ => True) (fun x => x.1.live s ≠ none)
      (destroyed.map .semDestroy ++ [.openPipeFail pipe])
      (fun x => x.1.live s ≠ none ∧ x.2.rax = -1) := by
  refine .append (m := fun x => x.1.live s ≠ none) (.invariant (fun i => i.isSemDestroy) ?_ ?_ ?_ ?_) ?_
  · intro i hi
    obtain ⟨t, -, rfl⟩ := List.mem_map.mp hi
    rfl
  · intro x i hx hi _
    obtain ⟨hlive, hcode⟩ := exec_isSemDestroy x.1 x.2 hi
    exact ⟨hlive s hx, hcode⟩
  · exact fun x x' hx hb => hb.1 s hx
  · exact fun _ _ _ _ => trivial
  · refine .simple (by simp [callCode]) (fun _ _ => rfl) (fun _ _ => trivial) fun x hx => ⟨?_, rfl⟩
    show Function.update x.1.live pipe none s ≠ none
    rwa [Function.update_of_ne hs]

/-- The spin lock of a call that found it taken is never given back. -/
theorem openPipe_spins : (callCode FreesNothing).Triple (fun _ _ => True) (fun _ => True) [.spin]
    (fun _ => False) :=
  .spin (by simp [callCode]) (fun _ _ => trivial) fun _ _ => .inl rfl

/-! ## The whole call -/

/-- The call of `open_pipe` in `m` returns in `m'`; meanwhile other processes free no block. -/
structure OpenPipeReturns (m : Machine) (rest : List Instr) (as : List Action) (m' : Machine) : Prop where
  run : GuardedRun Machine.step
    (fun t a => t.InCall m.cpu rest a ∧ t.Relies FreesNothing m.cpu a) m as m'
  cpu : m'.cpu = m.cpu
  returned : (m'.threads m.cpu).sys = rest

/-- Its first instruction. -/
theorem OpenPipeReturns.cases {m m' : Machine} {rest : List Instr} {as : List Action}
    (h : OpenPipeReturns m rest as m') (hcall : (m.threads m.cpu).sys = .openPipe :: rest) :
    ∃ as', GuardedRun Machine.step (fun t a => t.InCall m.cpu rest a ∧ t.Relies FreesNothing m.cpu a)
      (m.execInstr .openPipe) as' m' := by
  cases h.run with
  | nil =>
      have hlen := congrArg List.length (hcall.symm.trans h.returned)
      simp at hlen
  | cons _ hs hrest =>
      obtain ⟨-, rfl⟩ := Machine.step_of_sys hcall hs
      exact ⟨_, hrest⟩

/-- `open_pipe` returns, and when it does it has done all of its work or none, exactly when it does not
    come to a `registry_lock` that is taken and its allocations leave nothing half done. -/
theorem open_pipe_all_or_nothing {m : Machine} {rest : List Instr}
    (hcall : (m.threads m.cpu).sys = .openPipe :: rest) :
    ((∃ as m', OpenPipeReturns m rest as m') ∧ ∀ as m', OpenPipeReturns m rest as m' →
      OpenPipeDone m.k m'.k (m'.threads m.cpu).regs.rax) ↔
        openPipePasses m.k = true ∧ openPipeFits m.k = true := by
  obtain ⟨hcpu, hthread⟩ := Machine.execInstr_thread hcall (by simp) (exec_spawn_none _ _ rfl)
  rw [Machine.thread, hcpu] at hthread
  have hk := m.execInstr_k (i := .openPipe) (by simp)
  have hstep : m.step .exec = some (m.execInstr .openPipe) := by
    unfold Machine.step
    rw [Machine.next_of_sys hcall]
  have hexec : exec m.k m.thread.regs .openPipe = openPipeCode m.k m.thread.regs := rfl
  rw [hexec] at hk hthread
  set o := openPipeCode m.k m.thread.regs with ho
  -- a call that has no code left is over after its first instruction
  have hfirst : o.code = [] → ∀ as m', OpenPipeReturns m rest as m' → m' = m.execInstr .openPipe := by
    intro hcode as m' h
    obtain ⟨as', hrun⟩ := h.cases hcall
    refine (Machine.InCall.over (hrun.mono fun _ _ hg => hg.1) ?_).2
    rw [hthread, hcode]
    rfl
  have hreturns : o.code = [] → OpenPipeReturns m rest [.exec] (m.execInstr .openPipe) := by
    intro hcode
    refine ⟨.cons ⟨⟨?_, ?_⟩, fun hne => absurd rfl hne⟩ hstep (.nil _), hcpu, ?_⟩
    · rw [hcall]
      exact Nat.lt_succ_self _
    · rintro ⟨i, hi, hspawn⟩
      obtain ⟨-, rfl⟩ : Action.exec = .exec ∧ i = .openPipe :=
        ⟨rfl, Option.some.inj (hi.2.symm.trans (Machine.next_of_sys hcall))⟩
      rw [Outcome.spawned, Instr.isPlain_spawn rfl] at hspawn
      cases hspawn
    · rw [hthread, hcode]
      rfl
  have hregs : ((m.execInstr .openPipe).threads m.cpu).regs = o.r := by rw [hthread]
  -- a call that is not over after it is a path of the code that is left
  have hpath : ∀ {as m'}, OpenPipeReturns m rest as m' →
      (callCode FreesNothing).Path ((o.k, o.r), o.code) ((m'.k, (m'.threads m.cpu).regs), []) := by
    intro as m' h
    obtain ⟨as', hrun⟩ := h.cases hcall
    have hpath := Machine.path_of_call (fun _ _ _ h h' => h.trans h')
      (fun k rsp => .of_outside (scheduleTick_outside k rsp)) hrun hcpu (congrArg (·.sys) hthread)
      (exec_spawns _ _ (i := .openPipe) rfl) h.cpu h.returned
    rwa [hk, hregs, hexec] at hpath
  rcases openPipe_case m.k m.thread.regs with ⟨hcode, htaken⟩ | ⟨hcode, hdone, hfits, hpasses⟩ |
    ⟨hcode, hhalf, hunfit⟩ | ⟨pipe, canRead, destroyed, hfree, hne, hlive, hcode, hunfit⟩ <;> rw [← ho] at *
  · simp only [htaken, Bool.false_eq_true, false_and, iff_false]
    rintro ⟨⟨as, m', h⟩, -⟩
    have hspin := hpath h
    rw [hcode] at hspin
    exact (openPipe_spins _ trivial _ _ hspin).1 rfl
  · simp only [hfits, hpasses, and_self, iff_true]
    refine ⟨⟨_, _, hreturns hcode⟩, fun as m' h => ?_⟩
    rw [hfirst hcode as m' h, hk, hregs]
    exact hdone
  · simp only [hunfit, Bool.false_eq_true, and_false, iff_false]
    rintro ⟨-, hall⟩
    have h := hall _ _ (hreturns hcode)
    rw [hk, hregs] at h
    exact hhalf h
  · simp only [hunfit, Bool.false_eq_true, and_false, iff_false]
    rintro ⟨⟨as, m', h⟩, hall⟩
    have hleak := hpath h
    rw [hcode] at hleak
    obtain ⟨hlive', hrax⟩ := (openPipeFail_leaks hne destroyed _ hlive _ _ hleak).1 rfl
    cases hall as m' h with
    | opened _ hid =>
        rw [hrax] at hid
        omega
    | failed _ _ _ _ hsame =>
        -- the object of the first semaphore is still there
        rw [hsame] at hlive'
        exact hlive' hfree

/-! ## Memory that runs out -/

/-- The processor is about to execute `open_pipe`, and the handler does nothing after it. -/
def Machine.opensPipe (m : Machine) : Bool :=
  match (m.threads m.cpu).sys with
  | [.openPipe] => true
  | _ => false

theorem Machine.sys_of_opensPipe {m : Machine} (h : m.opensPipe) : (m.threads m.cpu).sys = [.openPipe] := by
  unfold opensPipe at h
  split at h
  · next hsys => exact hsys
  · cases h

theorem OpenPipeReturns.of_alone {m m' : Machine} {as : List Action}
    (h : GuardedRun Machine.step (Machine.Alone m.cpu) m as m') (hcpu : m'.cpu = m.cpu)
    (hret : (m'.threads m.cpu).sys = []) : OpenPipeReturns m [] as m' :=
  ⟨h.mono fun _ _ h => h.relies, hcpu, hret⟩

/-- The shell calls `open_pipe`. -/
def shellOpens : List Action := startShell ++ [.syscall .openPipe, .exec]

set_option maxRecDepth 100000 in
/-- There is memory for everything. -/
theorem open_pipe_all_or_nothing_opened : ∃ m m' : Machine, Reaches freshBlocks shellOpens m ∧
    OpenPipeReturns m [] [.exec] m' ∧ (m'.threads m.cpu).regs.rax = 3 ∧
      OpenPipeDone m.k m'.k (m'.threads m.cpu).regs.rax := by
  obtain ⟨x, hx, hfacts⟩ := (Option.any_eq_true (fun x : Machine × Machine =>
    x.1.opensPipe && decide (x.2.cpu = x.1.cpu) && (x.2.threads x.1.cpu).sys.isEmpty &&
      decide ((x.2.threads x.1.cpu).regs.rax = 3) && openPipePasses x.1.k && openPipeFits x.1.k)
    (callRun freshBlocks Machine.Alone shellOpens [.exec])).mp (by decide +kernel)
  simp only [Bool.and_eq_true, decide_eq_true_eq, List.isEmpty_iff] at hfacts
  obtain ⟨⟨⟨⟨⟨hcall, hcpu⟩, hret⟩, hrax⟩, hpasses⟩, hfits⟩ := hfacts
  obtain ⟨hreach, hrun⟩ := callRun_eq_some hx
  have hreturns := OpenPipeReturns.of_alone hrun hcpu hret
  exact ⟨x.1, x.2, hreach, hreturns, hrax,
    ((open_pipe_all_or_nothing (Machine.sys_of_opensPipe hcall)).mpr ⟨hpasses, hfits⟩).2 _ _ hreturns⟩

/-- The allocator has nothing for the object of the second semaphore. -/
def noSecondSem (n : Nat) : Option Addr := if n = 19 then none else freshBlocks n

set_option maxRecDepth 100000 in
/-- The call returns -1, and the object of the first semaphore stays allocated. -/
theorem open_pipe_leaks : ¬ ∀ (memAnswers : Nat → Option Addr) (before : List Action) (m m' : Machine)
    (rest : List Instr) (as : List Action), Reaches memAnswers before m →
    (m.threads m.cpu).sys = .openPipe :: rest → OpenPipeReturns m rest as m' →
    OpenPipeDone m.k m'.k (m'.threads m.cpu).regs.rax := by
  intro hall
  obtain ⟨x, hx, hfacts⟩ := (Option.any_eq_true (fun x : Machine × Machine =>
    x.1.opensPipe && decide (x.2.cpu = x.1.cpu) && (x.2.threads x.1.cpu).sys.isEmpty &&
      decide ((x.2.threads x.1.cpu).regs.rax = -1) &&
      decide (x.1.k.live (KERNEL_BASE + 115) ≠ x.2.k.live (KERNEL_BASE + 115)))
    (callRun noSecondSem Machine.Alone shellOpens (List.replicate 7 .exec))).mp (by decide +kernel)
  simp only [Bool.and_eq_true, decide_eq_true_eq, List.isEmpty_iff] at hfacts
  obtain ⟨⟨⟨⟨hcall, hcpu⟩, hret⟩, hrax⟩, hlive⟩ := hfacts
  obtain ⟨hreach, hrun⟩ := callRun_eq_some hx
  cases hall _ _ _ _ _ _ hreach (Machine.sys_of_opensPipe hcall) (.of_alone hrun hcpu hret) with
  | opened _ hid =>
      rw [hrax] at hid
      omega
  | failed _ _ _ _ hsame => exact hlive (by rw [hsame])

end TpSo
