import TpSo.Process.Table
import TpSo.Process.Family
import TpSo.Kernel.Exec

set_option autoImplicit false

/-! # Building a process object

What `createProcess` does before it attaches the new process to its pipes: it fills in one process
object and allocates blocks, and disturbs neither another process nor a semaphore that exists. -/

namespace TpSo

/-- Work on the object at `p`: other objects, and everything allocated before, stay as they are. -/
structure Builds (p : Addr) (k k' : Kernel) : Prop where
  kernel : k' = { k with
    proc := k'.proc, sem := k'.sem, live := k'.live, memCalls := k'.memCalls
    registeredSemaphores := k'.registeredSemaphores }
  other : ∀ q, q ≠ p → k'.proc q = k.proc q
  object : k'.proc p = { k.proc p with
    rsp := (k'.proc p).rsp, fdTargets := (k'.proc p).fdTargets, argv := (k'.proc p).argv
    stackBase := (k'.proc p).stackBase, exitSem := (k'.proc p).exitSem }
  rsp : (k'.proc p).rsp = (k.proc p).rsp ∨ (k'.proc p).rsp = p
  sem : ∀ s, k.live s ≠ none → k'.sem s = k.sem s
  live : ∀ a, k.live a ≠ none → k'.live a = k.live a

namespace Builds

variable {p : Addr} {k k' k'' : Kernel}

theorem refl (p : Addr) (k : Kernel) : Builds p k k :=
  ⟨rfl, fun _ _ => rfl, rfl, .inl rfl, fun _ _ => rfl, fun _ _ => rfl⟩

theorem trans (h : Builds p k k') (h' : Builds p k' k'') : Builds p k k'' where
  kernel := by rw [h'.kernel, h.kernel]
  other q hq := (h'.other q hq).trans (h.other q hq)
  object := by rw [h'.object, h.object]
  rsp := by
    rcases h'.rsp with e | e
    · exact h.rsp.imp e.trans e.trans
    · exact .inr e
  sem s hs := (h'.sem s (h.live s hs ▸ hs)).trans (h.sem s hs)
  live a ha := (h'.live a (h.live a ha ▸ ha)).trans (h.live a ha)

/-- A write to the object's own fields. -/
theorem modProc (k : Kernel) (p : Addr) (f : Process → Process)
    (ho : f (k.proc p) = { k.proc p with
      rsp := (f (k.proc p)).rsp, fdTargets := (f (k.proc p)).fdTargets
      argv := (f (k.proc p)).argv, stackBase := (f (k.proc p)).stackBase
      exitSem := (f (k.proc p)).exitSem })
    (hr : (f (k.proc p)).rsp = (k.proc p).rsp ∨ (f (k.proc p)).rsp = p) :
    Builds p k (k.modProc p f) where
  kernel := rfl
  other q hq := Function.update_of_ne hq _ _
  object := by simpa only [Kernel.modProc, Function.update_self] using ho
  rsp := by simpa only [Kernel.modProc, Function.update_self] using hr
  sem _ _ := rfl
  live _ _ := rfl

theorem allocNext (p : Addr) (k : Kernel) : Builds p k k.allocNext :=
  ⟨rfl, fun _ _ => rfl, rfl, .inl rfl, fun _ _ => rfl, fun _ _ => rfl⟩

/-- A block that was free. -/
theorem grant {a : Addr} (p : Addr) (k : Kernel) (b : Block) (ha : k.live a = none) :
    Builds p k (k.grant a b) where
  kernel := rfl
  other _ _ := rfl
  object := rfl
  rsp := .inl rfl
  sem _ _ := rfl
  live c hc := Function.update_of_ne (fun h : c = a => hc (h ▸ ha)) _ _

end Builds

/-- The strings are allocated and nothing else. -/
theorem allocArgs_kernel (n : Nat) : ∀ (k : Kernel) (done : List (Option Addr)),
    (allocArgs k n done).2.2 = { k with
      live := (allocArgs k n done).2.2.live, memCalls := (allocArgs k n done).2.2.memCalls } := by
  induction n with
  | zero => exact fun _ _ => rfl
  | succ n ih =>
      intro k done
      unfold allocArgs
      rcases memAlloc_cases k .bytes with h | ⟨a, -, -, h⟩ <;> rw [h] <;> dsimp only
      · rfl
      · rw [ih]
        rfl

theorem allocArgs_builds (n : Nat) :
    ∀ (k : Kernel) (done : List (Option Addr)) (p : Addr), Builds p k (allocArgs k n done).2.2 := by
  induction n with
  | zero => exact fun k done p => .refl p k
  | succ n ih =>
      intro k done p
      unfold allocArgs
      rcases memAlloc_cases k .bytes with h | ⟨a, ha, -, h⟩ <;> rw [h]
      · exact .allocNext p k
      · exact (Builds.grant p k _ ha).trans (ih _ _ p)

theorem allocArgv_builds (k : Kernel) (p : Addr) (argc : Nat) :
    Builds p k (allocArgv k p argc).2 := by
  unfold allocArgv
  rcases memAlloc_cases k .bytes with h | ⟨a, ha, -, h⟩ <;> rw [h]
  · exact .allocNext p k
  · exact ((Builds.grant p k _ ha).trans (allocArgs_builds argc _ [] p)).trans
      (.modProc _ p (Process.setArgv a _) rfl (.inl rfl))

theorem allocStack_builds (k : Kernel) (p : Addr) : Builds p k (allocStack k p).2 := by
  unfold allocStack
  rcases memAlloc_cases k .bytes with h | ⟨a, ha, -, h⟩ <;> rw [h]
  · exact .allocNext p k
  · exact (Builds.grant p k _ ha).trans (.modProc _ p (Process.setStack a p) rfl (.inr rfl))

/-- What `sem_init` leaves alone. -/
structure InitsSem (s : Addr) (k k' : Kernel) : Prop where
  kernel : k' = { k with
    sem := k'.sem, memCalls := k'.memCalls, registeredSemaphores := k'.registeredSemaphores }
  other : ∀ t, t ≠ s → k'.sem t = k.sem t

theorem InitsSem.trans {s : Addr} {k k' k'' : Kernel} (h : InitsSem s k k') (h' : InitsSem s k' k'') :
    InitsSem s k k'' where
  kernel := by rw [h'.kernel, h.kernel]
  other t ht := (h'.other t ht).trans (h.other t ht)

theorem ensureRegistry_inits (s : Addr) (k : Kernel) : InitsSem s k (ensureRegistry k) := by
  unfold ensureRegistry
  split <;> exact ⟨rfl, fun _ _ => rfl⟩

theorem registerSem_inits (k : Kernel) (s : Addr) (name : Name) :
    InitsSem s k (registerSem k s name) := by
  unfold registerSem
  split
  · dsimp only
    rw [queuePush_kernel]
    exact ⟨rfl, fun _ _ => rfl⟩
  · exact ⟨rfl, fun _ _ => rfl⟩

/-- Entering a semaphore writes to the registry alone. -/
theorem registerSem_kernel (k : Kernel) (s : Addr) (name : Name) :
    registerSem k s name = { k with
      memCalls := (registerSem k s name).memCalls
      registeredSemaphores := (registerSem k s name).registeredSemaphores } := by
  unfold registerSem
  split
  · dsimp only
    rw [queuePush_kernel]
  · rfl

theorem registerSem_sem (k : Kernel) (s : Addr) (name : Name) : (registerSem k s name).sem = k.sem := by
  rw [registerSem_kernel]

/-- So does the end of the `sem_init` in `createProcess`, which gives the lock back. -/
theorem createNamedCode_kernel (k : Kernel) (r : Regs) (c : Creation) (s : Addr) (name : Name)
    (targets : List Nat) :
    (createNamedCode k r c s name targets).k = { k with
      memCalls := (registerSem k s name).memCalls
      registeredSemaphores := (registerSem k s name).registeredSemaphores, registryLock := false } := by
  have hk : registryUnlock (registerSem k s name) = { k with
      memCalls := (registerSem k s name).memCalls
      registeredSemaphores := (registerSem k s name).registeredSemaphores, registryLock := false } := by
    unfold registryUnlock
    rw [registerSem_kernel]
  unfold createNamedCode
  dsimp only
  split <;> exact hk

theorem modSem_inits (k : Kernel) (s : Addr) (f : Sem → Sem) : InitsSem s k (k.modSem s f) :=
  ⟨rfl, fun _ ht => Function.update_of_ne ht _ _⟩

theorem allocNext_inits (s : Addr) (k : Kernel) : InitsSem s k k.allocNext := ⟨rfl, fun _ _ => rfl⟩

theorem semInitFields_inits (k : Kernel) (s : Addr) (name : Name) (count : Nat) :
    InitsSem s k (semInitFields k s name count).2 := by
  have h1 := (ensureRegistry_inits s k).trans (allocNext_inits s _)
  unfold semInitFields
  dsimp only
  split
  · exact (h1.trans (allocNext_inits s _)).trans (modSem_inits _ s _)
  · exact h1.trans (modSem_inits _ s (fun t => { t with name := none }))

theorem semInit_inits (k : Kernel) (s : Addr) (name : Name) (count : Nat) :
    InitsSem s k (semInit k s name count) := by
  have hfields := semInitFields_inits k s name count
  unfold semInit
  dsimp only
  split
  · exact hfields.trans (registerSem_inits _ s name)
  · exact hfields

theorem allocExitSem_builds (k : Kernel) (p : Addr) (pid : Nat) :
    Builds p k (allocExitSem k p pid).2 := by
  unfold allocExitSem
  rcases memAlloc_cases k .semaphore with h | ⟨s, hs, -, h⟩ <;> rw [h]
  · exact .allocNext p k
  · dsimp only
    have hset : Builds p k ((k.grant s .semaphore).modProc p (Process.setExitSem s)) :=
      (Builds.grant p k _ hs).trans (.modProc _ p (Process.setExitSem s) rfl (.inl rfl))
    have hinit := semInitFields_inits ((k.grant s .semaphore).modProc p (Process.setExitSem s)) s
      (exitSemName pid) 0
    refine ⟨?_, fun q hq => ?_, ?_, ?_, fun t ht => ?_, fun a ha => ?_⟩
    · rw [hinit.kernel, hset.kernel]
    · rw [hinit.kernel]; exact hset.other q hq
    · rw [hinit.kernel]; exact hset.object
    · rw [hinit.kernel]; exact hset.rsp
    · rw [hinit.other t fun h : t = s => ht (h ▸ hs)]; exact hset.sem t ht
    · rw [hinit.kernel]; exact hset.live a ha

/-- **Building a process** disturbs nothing that exists. -/
theorem buildProcess_builds (k : Kernel) (p pid : Nat) (args : CreateArgs) :
    Builds p (k.modProc p (fun _ => newProcess pid args)) (buildProcess k p pid args).2 := by
  unfold buildProcess
  dsimp only
  split
  · exact .refl p _
  · set k1 := k.modProc p (fun _ => newProcess pid args) with hk1
    set k2 := k1.modProc p (Process.setTargets (inheritedTargets k1 (processLookup k1 args.ppid)))
      with hk2
    have h2 : Builds p k1 k2 := .modProc k1 p (Process.setTargets _) rfl (.inl rfl)
    have h3 := h2.trans (allocArgv_builds k2 p args.argc)
    have h4 := h3.trans (allocStack_builds (allocArgv k2 p args.argc).2 p)
    split
    · exact h3
    · split
      · exact h4
      · exact h4.trans (allocExitSem_builds _ p pid)

/-! ## Opening a pipe -/

/-- What `open_pipe` leaves alone. -/
structure OpensPipe (k k' : Kernel) : Prop where
  kernel : k' = { k with
    sem := k'.sem, pipe := k'.pipe, live := k'.live, memCalls := k'.memCalls
    registeredSemaphores := k'.registeredSemaphores, pipes := k'.pipes
    nextPipeId := k'.nextPipeId }
  sem : ∀ s, k.live s ≠ none → k'.sem s = k.sem s
  pipe : ∀ a, k.live a ≠ none → k'.pipe a = k.pipe a
  live : ∀ a, k.live a ≠ none → k'.live a = k.live a

namespace OpensPipe

variable {k k' k'' : Kernel}

theorem refl (k : Kernel) : OpensPipe k k := ⟨rfl, fun _ _ => rfl, fun _ _ => rfl, fun _ _ => rfl⟩

theorem trans (h : OpensPipe k k') (h' : OpensPipe k' k'') : OpensPipe k k'' where
  kernel := by rw [h'.kernel, h.kernel]
  sem s hs := (h'.sem s (h.live s hs ▸ hs)).trans (h.sem s hs)
  pipe a ha := (h'.pipe a (h.live a ha ▸ ha)).trans (h.pipe a ha)
  live a ha := (h'.live a (h.live a ha ▸ ha)).trans (h.live a ha)

theorem allocNext (k : Kernel) : OpensPipe k k.allocNext :=
  ⟨rfl, fun _ _ => rfl, fun _ _ => rfl, fun _ _ => rfl⟩

theorem grant {a : Addr} (k : Kernel) (b : Block) (ha : k.live a = none) :
    OpensPipe k (k.grant a b) :=
  ⟨rfl, fun _ _ => rfl, fun _ _ => rfl,
    fun c hc => Function.update_of_ne (fun h : c = a => hc (h ▸ ha)) _ _⟩

/-- `sem_create` and `sem_init` on what it returned. -/
theorem semInit {s : Addr} (k : Kernel) (name : Name) (count : Nat) (hs : k.live s = none) :
    OpensPipe k (semInit (k.grant s .semaphore) s name count) := by
  have hgrant := OpensPipe.grant k .semaphore hs
  have hinit := semInit_inits (k.grant s .semaphore) s name count
  refine ⟨?_, fun t ht => ?_, fun a ha => ?_, fun a ha => ?_⟩
  · rw [hinit.kernel, hgrant.kernel]
  · rw [hinit.other t fun h : t = s => ht (h ▸ hs)]; exact hgrant.sem t ht
  · rw [hinit.kernel]; exact hgrant.pipe a ha
  · rw [hinit.kernel]; exact hgrant.live a ha

/-- Giving back a block that was free at the start. -/
theorem memFree {a : Addr} (h : OpensPipe k k') (ha : k.live a = none) :
    OpensPipe k (k'.memFree a) where
  kernel := by rw [h.kernel]; rfl
  sem := h.sem
  pipe := h.pipe
  live c hc := (Function.update_of_ne (fun e : c = a => hc (e ▸ ha)) _ _).trans (h.live c hc)

/-- Writing to a pipe object that was free at the start, and to the pipe table. -/
theorem fill {a : Addr} (h : OpensPipe k k') (ha : k.live a = none) (f : Pipe → Pipe)
    (pipes : Nat → Option Addr) (next : Nat) :
    OpensPipe k { k'.modPipe a f with pipes := pipes, nextPipeId := next } where
  kernel := by rw [h.kernel]; rfl
  sem := h.sem
  pipe c hc := (Function.update_of_ne (fun e : c = a => hc (e ▸ ha)) _ _).trans (h.pipe c hc)
  live := h.live

end OpensPipe

/-- **Opening a pipe** disturbs nothing that exists. -/
theorem openPipeCode_opens (k : Kernel) (r : Regs) : OpensPipe k (openPipeCode k r).k := by
  unfold openPipeCode
  dsimp only
  split
  · exact .refl k
  rcases memAlloc_cases k .pipe with h | ⟨a, ha, -, h⟩ <;> rw [h] <;> dsimp only
  · exact .allocNext k
  have h1 := OpensPipe.grant k .pipe ha
  rcases memAlloc_cases (k.grant a .pipe) .semaphore with h | ⟨s, hs, -, h⟩ <;> rw [h] <;> dsimp only
  · exact (h1.trans (.allocNext _)).memFree ha
  have h2 := h1.trans (.semInit _ (semName k.nextPipeId 'R') 0 hs)
  split
  · exact .refl k
  rcases memAlloc_cases (semInit ((k.grant a .pipe).grant s .semaphore) s
    (semName k.nextPipeId 'R') 0) .semaphore with h | ⟨t, ht, -, h⟩ <;> rw [h] <;> dsimp only
  · exact h2.trans (.allocNext _)
  have h3 := h2.trans (.semInit _ (semName k.nextPipeId 'W') 0 ht)
  split
  · exact .refl k
  rcases memAlloc_cases (semInit ((semInit ((k.grant a .pipe).grant s .semaphore) s
    (semName k.nextPipeId 'R') 0).grant t .semaphore) t (semName k.nextPipeId 'W') 0)
    .semaphore with h | ⟨u, hu, -, h⟩ <;> rw [h] <;> dsimp only
  · exact h3.trans (.allocNext _)
  split
  · exact .refl k
  · exact (h3.trans (.semInit _ (semName k.nextPipeId 'M') 1 hu)).fill ha _ _ _

/-! ## Entering the process tree -/

/-- Registering a process and adding it to its parent's children. -/
structure EntersTree (k k' : Kernel) : Prop where
  kernel : k' = { k with
    proc := k'.proc, memCalls := k'.memCalls, processes := k'.processes
    processCount := k'.processCount, runningPid := k'.runningPid }
  proc : ∀ p, k'.proc p =
    { k.proc p with ppid := (k'.proc p).ppid, children := (k'.proc p).children }

theorem enterTree_enters (k : Kernel) (c : Creation) : EntersTree k (enterTree k c).2 := by
  have hreg : EntersTree k (processRegister k c.process).2 := by
    rw [processRegister_kernel]
    exact ⟨rfl, fun _ => rfl⟩
  unfold enterTree
  dsimp only
  split
  · exact hreg
  · split
    · exact hreg
    · next parent _ =>
      have hfam := addChild_family (processRegister k c.process).2 parent c.process
      have hadd : EntersTree k (addChild (processRegister k c.process).2 parent c.process).2 :=
        ⟨by rw [hfam.kernel, hreg.kernel], fun p => by rw [hfam.proc p, hreg.proc p]⟩
      split
      · exact hadd
      · rw [processUnregister_kernel]
        exact ⟨by dsimp only; rw [hadd.kernel], hadd.proc⟩

/-- `createProcess` from `process_register` on does no more to the kernel. -/
theorem createRegisterCode_k (k : Kernel) (r : Regs) (c : Creation) (attached : List Nat) :
    (createRegisterCode k r c attached).k = (enterTree k c).2 := by
  unfold createRegisterCode
  dsimp only
  split <;> rfl

/-- **A process that does not get into the tree** leaves the table as it was. -/
theorem enterTree_fails {k : Kernel} {c : Creation} (h : (enterTree k c).1 = false) :
    (enterTree k c).2.processes = k.processes ∧ (enterTree k c).2.processCount = k.processCount ∧
      ∀ r, KeepsChildren (k.proc r).children ((enterTree k c).2.proc r).children := by
  cases hreg : (processRegister k c.process).1 with
  | false =>
      have heq : enterTree k c = processRegister k c.process := by simp [enterTree, hreg]
      rw [heq, processRegister_fails hreg]
      exact ⟨rfl, rfl, fun r => .refl _⟩
  | true =>
      have hproc : (processRegister k c.process).2.proc = k.proc := by rw [processRegister_kernel]
      cases hparent : c.parent with
      | none => simp [enterTree, hreg, hparent] at h
      | some q =>
          cases hadd : (addChild (processRegister k c.process).2 q c.process).1 with
          | true => simp [enterTree, hreg, hparent, hadd] at h
          | false =>
              have hfam := addChild_family (processRegister k c.process).2 q c.process
              have hkeeps := addChild_fails hadd
              have heq : (enterTree k c).2 =
                  processUnregister (addChild (processRegister k c.process).2 q c.process).2
                    (k.proc c.process).pid := by
                simp [enterTree, hreg, hparent, hadd, hfam.pid, hproc]
              rw [heq]
              have hprocesses' : (addChild (processRegister k c.process).2 q c.process).2.processes =
                  (processRegister k c.process).2.processes := by rw [hfam.kernel]
              have hcount' : (addChild (processRegister k c.process).2 q c.process).2.processCount =
                  (processRegister k c.process).2.processCount := by rw [hfam.kernel]
              obtain ⟨hprocesses, hcount⟩ := processUnregister_register hreg hprocesses' hcount'
              refine ⟨hprocesses, hcount, fun r => ?_⟩
              rw [processUnregister_kernel, ← hproc]
              exact hkeeps r

/-! ## Freeing a process -/

/-- `mem_free` writes to the allocator's books alone. -/
theorem freeBlock_kernel (k : Kernel) (a : Option Addr) :
    freeBlock k a = { k with live := (freeBlock k a).live } := by
  cases a <;> rfl

theorem freeBlocks_kernel (blocks : List (Option Addr)) :
    ∀ k : Kernel, blocks.foldl freeBlock k = { k with live := (blocks.foldl freeBlock k).live } := by
  induction blocks with
  | nil => exact fun k => rfl
  | cons a rest ih =>
      intro k
      rw [List.foldl_cons, ih, freeBlock_kernel]

/-- `process_free_memory` writes to the allocator's books and to the pointers of the object it
    frees. -/
structure FreesProcess (p : Addr) (k k' : Kernel) : Prop where
  kernel : k' = { k with proc := k'.proc, live := k'.live }
  other : ∀ q, q ≠ p → k'.proc q = k.proc q
  object : k'.proc p = { k.proc p with
    argv := (k'.proc p).argv, stackBase := (k'.proc p).stackBase, exitSem := (k'.proc p).exitSem
    children := (k'.proc p).children }

theorem freeArgvAndStack_frees (k : Kernel) (p : Addr) :
    FreesProcess p k (freeArgvAndStack k p) := by
  have hargv : ∀ k1 : Kernel, k1 = { k with live := k1.live } →
      FreesProcess p k ((freeBlock k1 (k1.proc p).stackBase).modProc p
        (fun q => { q with argv := none, stackBase := none })) := by
    intro k1 hk1
    rw [freeBlock_kernel, hk1]
    exact ⟨rfl, fun q hq => Function.update_of_ne hq _ _, by
      simp only [Kernel.modProc, Function.update_self]⟩
  unfold freeArgvAndStack
  split
  · exact hargv k rfl
  · refine hargv _ ?_
    rw [freeBlocks_kernel]
    rfl

theorem freeExitSemAndProcess_frees (k : Kernel) (p : Addr) :
    FreesProcess p k (freeExitSemAndProcess k p) := by
  unfold freeExitSemAndProcess
  rw [freeBlock_kernel]
  exact ⟨rfl, fun q hq => Function.update_of_ne hq _ _, by
    simp only [Kernel.modProc, Kernel.memFree, Function.update_self]⟩

end TpSo
