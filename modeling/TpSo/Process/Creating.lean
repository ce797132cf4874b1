import TpSo.Pipes.OpenPipe
import TpSo.Process.Rollback

set_option autoImplicit false

/-! # The object `createProcess` builds

The call allocates the object, `argv` with its strings, the stack and the exit semaphore, in this order.
Wherever there is no memory for the next block, what it has built can be taken back, and whether it gets
as far as the name of the exit semaphore is decided by what the allocator grants. -/

namespace TpSo

/-! ## What the allocator grants -/

/-- Allocate these blocks one after the other; `none` if there is no memory for one of them. -/
def grantAll (k : Kernel) : List Block → Option Kernel
  | [] => some k
  | b :: blocks => if (k.memAlloc b).1.isNone then none else grantAll (k.memAlloc b).2 blocks

/-- What `mem_alloc` and `ensure_registry` go by. -/
def Kernel.heap (k : Kernel) : (Addr → Option Block) × (Nat → Option Addr) × Nat × Queue Addr :=
  (k.live, k.memAnswers, k.memCalls, k.registeredSemaphores)

/-- Code that allocates these blocks: whether it has got them all, and where it has left the allocator. -/
def Grants (k : Kernel) (blocks : List Block) (ok : Bool) (k' : Kernel) : Prop :=
  (grantAll k blocks).map Kernel.heap = if ok then some k'.heap else none

theorem memAlloc_congr {k k' : Kernel} (h : k.heap = k'.heap) (b : Block) :
    (k.memAlloc b).1 = (k'.memAlloc b).1 ∧ (k.memAlloc b).2.heap = (k'.memAlloc b).2.heap := by
  simp only [Kernel.heap, Prod.mk.injEq] at h
  obtain ⟨hlive, hanswers, hcalls, hregistered⟩ := h
  unfold Kernel.memAlloc
  rw [hanswers, hcalls, hlive]
  split
  · simp [Kernel.heap, Kernel.allocNext, *]
  · split <;> simp [Kernel.heap, Kernel.grant, Kernel.allocNext, *]

theorem ensureRegistry_congr {k k' : Kernel} (h : k.heap = k'.heap) :
    (ensureRegistry k).allocOk = (ensureRegistry k').allocOk := by
  simp only [Kernel.heap, Prod.mk.injEq] at h
  obtain ⟨-, hanswers, hcalls, hregistered⟩ := h
  unfold ensureRegistry
  rw [hregistered]
  split <;> simp only [queueCreate, Kernel.allocOk, Kernel.allocNext, hanswers, hcalls]

theorem grantAll_congr {k k' : Kernel} (h : k.heap = k'.heap) (blocks : List Block) :
    (grantAll k blocks).map Kernel.heap = (grantAll k' blocks).map Kernel.heap := by
  induction blocks generalizing k k' with
  | nil => exact congrArg some h
  | cons b blocks ih =>
      obtain ⟨hans, hheap⟩ := memAlloc_congr h b
      simp only [grantAll, hans]
      split
      · rfl
      · exact ih hheap

theorem grantAll_append (k : Kernel) (blocks blocks' : List Block) :
    grantAll k (blocks ++ blocks') = (grantAll k blocks).bind (fun k => grantAll k blocks') := by
  induction blocks generalizing k with
  | nil => rfl
  | cons b blocks ih =>
      simp only [List.cons_append, grantAll]
      split
      · rfl
      · exact ih _

namespace Grants
variable {k k' k'' : Kernel} {blocks blocks' : List Block} {ok : Bool}

theorem nil (k : Kernel) : Grants k [] true k := rfl

theorem cons {b : Block} {a : Addr} (h : k.memAlloc b = (some a, k.grant a b))
    (h' : Grants (k.grant a b) blocks ok k') : Grants k (b :: blocks) ok k' := by
  simpa [Grants, grantAll, h] using h'

theorem refused {b : Block} (h : k.memAlloc b = (none, k.allocNext)) (blocks : List Block) :
    Grants k (b :: blocks) false k' := by
  simp [Grants, grantAll, h]

theorem trans (h : Grants k blocks true k') (h' : Grants k' blocks' ok k'') :
    Grants k (blocks ++ blocks') ok k'' := by
  obtain ⟨k1, hk1, hheap⟩ := Option.map_eq_some_iff.mp h
  rw [Grants, grantAll_append, hk1, Option.bind_some, grantAll_congr hheap]
  exact h'

theorem fails (h : Grants k blocks false k') (blocks' : List Block) :
    Grants k (blocks ++ blocks') false k' := by
  have hnone : grantAll k blocks = none := Option.map_eq_none_iff.mp h
  rw [Grants, grantAll_append, hnone]
  rfl

/-- Nothing that the allocator goes by is written. -/
theorem congr (h : Grants k blocks ok k') (hheap : k''.heap = k'.heap) : Grants k blocks ok k'' := by
  unfold Grants
  rw [hheap]
  exact h

end Grants

theorem allocArgs_grants (n : Nat) (k : Kernel) (done : List (Option Addr)) :
    Grants k (List.replicate n .bytes) (allocArgs k n done).1 (allocArgs k n done).2.2 := by
  induction n generalizing k done with
  | zero => exact .nil k
  | succ n ih =>
      rw [List.replicate_succ]
      unfold allocArgs
      rcases memAlloc_cases k .bytes with h | ⟨a, -, -, h⟩
      · rw [h]
        exact .refused h _
      · rw [h]
        exact .cons h (ih _ _)

theorem allocArgv_grants (k : Kernel) (p : Addr) (argc : Nat) :
    Grants k (.bytes :: List.replicate argc .bytes) (allocArgv k p argc).1 (allocArgv k p argc).2 := by
  unfold allocArgv
  rcases memAlloc_cases k .bytes with h | ⟨a, -, -, h⟩
  · rw [h]
    exact .refused h _
  · rw [h]
    exact .cons h ((allocArgs_grants argc _ []).congr rfl)

theorem allocStack_grants (k : Kernel) (p : Addr) :
    Grants k [.bytes] (allocStack k p).1 (allocStack k p).2 := by
  unfold allocStack
  rcases memAlloc_cases k .bytes with h | ⟨a, -, -, h⟩
  · rw [h]
    exact .refused h []
  · rw [h]
    exact .cons h ((Grants.nil _).congr rfl)

/-! ## Building the object -/

/-- `argv` is all that is written. -/
theorem allocArgv_kernel (k : Kernel) (p : Addr) (argc : Nat) : ∃ argv live calls,
    (allocArgv k p argc).2 =
      { k.modProc p (fun q => { q with argv := argv }) with live := live, memCalls := calls } := by
  unfold allocArgv
  rcases memAlloc_cases k .bytes with h | ⟨a, -, -, h⟩ <;> rw [h] <;> dsimp only
  · refine ⟨(k.proc p).argv, k.live, k.memCalls + 1, ?_⟩
    simp only [Kernel.modProc, Kernel.allocNext, Function.update_eq_self]
  · rw [allocArgs_kernel]
    exact ⟨_, _, _, rfl⟩

theorem allocStack_kernel (k : Kernel) (p : Addr) : ∃ stack rsp live calls,
    (allocStack k p).2 =
      { k.modProc p (fun q => { q with stackBase := stack, rsp := rsp }) with
        live := live, memCalls := calls } := by
  unfold allocStack
  rcases memAlloc_cases k .bytes with h | ⟨a, -, -, h⟩ <;> rw [h] <;> dsimp only
  · refine ⟨(k.proc p).stackBase, (k.proc p).rsp, k.live, k.memCalls + 1, ?_⟩
    simp only [Kernel.modProc, Kernel.allocNext, Function.update_eq_self]
  · exact ⟨_, _, _, _, rfl⟩

section Building
variable {k0 k : Kernel} {p : Addr}

/-- The object alone is written, and not its pid or exit semaphore. -/
theorem Creating.of_modProc {k' : Kernel} (h : Creating k0 p [] k) {f : Process → Process}
    {live : Addr → Option Block} {calls : Nat}
    (hk : k' = { k.modProc p f with live := live, memCalls := calls })
    (hpid : (f (k.proc p)).pid = (k.proc p).pid) (hsem : (f (k.proc p)).exitSem = (k.proc p).exitSem)
    (howned : Owned k0 k' p) : Creating k0 p [] k' := by
  subst hk
  refine h.of_object rfl (fun q hq => Function.update_of_ne hq ..) ?_ ?_ howned
  · simpa [Kernel.modProc] using hpid
  · simpa [Kernel.modProc] using hsem

theorem allocArgv_creating (h : Creating k0 p [] k) (hargv : (k.proc p).argv = none) (argc : Nat) :
    Creating k0 p [] (allocArgv k p argc).2 ∧
      ((allocArgv k p argc).2.proc p).stackBase = (k.proc p).stackBase ∧
      ((allocArgv k p argc).2.proc p).exitSem = (k.proc p).exitSem := by
  have howned := allocArgv_owned h.owned hargv argc
  obtain ⟨argv, live, calls, hk⟩ := allocArgv_kernel k p argc
  refine ⟨h.of_modProc hk rfl rfl howned, ?_, ?_⟩ <;> rw [hk] <;> simp [Kernel.modProc]

theorem allocStack_creating (h : Creating k0 p [] k) (hstack : (k.proc p).stackBase = none) :
    Creating k0 p [] (allocStack k p).2 ∧
      ((allocStack k p).2.proc p).exitSem = (k.proc p).exitSem := by
  have howned := allocStack_owned h.owned hstack
  obtain ⟨stack, rsp, live, calls, hk⟩ := allocStack_kernel k p
  refine ⟨h.of_modProc hk rfl rfl howned, ?_⟩
  rw [hk]
  simp [Kernel.modProc]

/-- The object as the call has zeroed and filled it. -/
theorem newProcess_creating (hfree : k0.live p = none) (args : CreateArgs) :
    Creating k0 p [] ((k0.grant p .process).modProc p (fun _ => newProcess (allocatePid k0) args)) := by
  have hobject : ((k0.grant p .process).modProc p (fun _ => newProcess (allocatePid k0) args)).proc p =
      newProcess (allocatePid k0) args := Function.update_self ..
  refine { processes := rfl, processCount := rfl, foreground := rfl, pipes := rfl, pipeSems := fun _ => rfl
           attached := fun _ => rfl, children := fun q hq => ?_, registryLock := rfl
           pid := congrArg Process.pid hobject
           owned := ⟨hfree, ?_, fun x hx _ => Function.update_of_ne hx ..⟩, registered := .inl rfl
           sems := fun _ _ _ => rfl, destroyable := ?_ }
  · exact .inl (congrArg Process.children (Function.update_of_ne hq ..))
  · rw [hobject]
    simp [newProcess, Process.blocks]
  · rw [hobject]
    intro s hs
    cases hs

/-- The object has its exit semaphore, which is not registered yet. -/
structure Unregistered (k0 : Kernel) (p s : Addr) (k : Kernel) : Prop extends Creating k0 p [] k where
  unregistered : k.registeredSemaphores = k0.registeredSemaphores
  exitSem : (k.proc p).exitSem = some s

theorem Unregistered.undisturbed {s : Addr} {k k' : Kernel} (h : Unregistered k0 p s k)
    (hu : CallUndisturbed k0 k k') : Unregistered k0 p s k' :=
  { h.toCreating.undisturbed hu with
    unregistered := hu.registered.trans h.unregistered
    exitSem := (hu.fields p).2.2.2.2.trans h.exitSem }

/-- `sem_init` as far as the registry, where there is memory for the name. -/
theorem semInitFields_named {k : Kernel} (hname : (ensureRegistry k).allocOk = true) (s : Addr) (name : Name)
    (count : Nat) : ((semInitFields k s name count).2.sem s) =
      Sem.start name count (queueCreate Addr (ensureRegistry k).allocNext).1
        ((queueCreate Addr (ensureRegistry k).allocNext).2.sem s) := by
  simp only [semInitFields, hname, if_true, Kernel.modSem, Function.update_self]

/-- It leaves the registry as it was. -/
theorem semInitFields_registered {k : Kernel} {others : List Addr} (h : k.registeredSemaphores = some others)
    (s : Addr) (name : Name) (count : Nat) :
    (semInitFields k s name count).2.registeredSemaphores = some others := by
  have hensure : ensureRegistry k = k := by simp only [ensureRegistry, h]
  unfold semInitFields
  simp only [hensure]
  split <;> exact h

/-- **The exit semaphore**, where there is memory for its name. -/
theorem semInitFields_creating (h : Creating k0 p [] k) (hsem : (k.proc p).exitSem = none)
    (hregistry : ∃ others, k0.registeredSemaphores = some others) {s : Addr} (hs : k.live s = none)
    (hname : (ensureRegistry (k.grant s .semaphore)).allocOk = true) (name : Name) :
    Unregistered k0 p s
      (semInitFields ((k.grant s .semaphore).modProc p (Process.setExitSem s)) s name 0).2 := by
  have howned := setExitSem_owned h.owned hs hsem
  have hregistered : k.registeredSemaphores = k0.registeredSemaphores := by
    rcases h.registered with heq | ⟨t, -, ht, -⟩
    · exact heq
    · rw [hsem] at ht
      cases ht
  obtain ⟨others, hothers⟩ := hregistry
  obtain ⟨k1, hk1⟩ : ∃ k1, k1 = (k.grant s .semaphore).modProc p (Process.setExitSem s) := ⟨_, rfl⟩
  rw [← hk1] at howned ⊢
  have hregistered1 : k1.registeredSemaphores = some others := by
    rw [hk1]
    exact hregistered.trans hothers
  have hname1 : (ensureRegistry k1).allocOk = true := by
    rw [← hname, hk1]
    exact ensureRegistry_congr rfl
  have hexit : (k1.proc p).exitSem = some s := by
    rw [hk1]
    simp [Kernel.modProc, Process.setExitSem]
  have hinit := semInitFields_inits k1 s name 0
  have hreg := semInitFields_registered hregistered1 s name 0
  have hnamed := semInitFields_named hname1 s name 0
  generalize (semInitFields k1 s name 0).2 = k' at hinit hreg hnamed ⊢
  have hproc : k'.proc = k1.proc := by rw [hinit.kernel]
  have hother : ∀ q, q ≠ p → k1.proc q = k.proc q := fun q hq => hk1 ▸ Function.update_of_ne hq ..
  have hsame : k'.registeredSemaphores = k0.registeredSemaphores := hreg.trans hothers.symm
  refine { h.toSurrounds.congr ?_ ?_ ?_ ?_ ?_ (fun q hq => ?_) ?_ ?_
             (howned.congr (by rw [hproc]) (by rw [hinit.kernel])) with
           registered := .inl hsame, sems := fun t ht hne => ?_, destroyable := fun t ht => ?_
           unregistered := hsame, exitSem := by rw [hproc, hexit] }
  · rw [hinit.kernel, hk1]
    rfl
  · rw [hinit.kernel, hk1]
    rfl
  · rw [hinit.kernel, hk1]
    rfl
  · rw [hinit.kernel, hk1]
    rfl
  · rw [hinit.kernel, hk1]
    rfl
  · rw [hproc, hother q hq]
    exact .refl _
  · rw [hinit.kernel, hk1]
    rfl
  · rw [hproc, hk1]
    simp [Kernel.modProc, Process.setExitSem, Kernel.grant, Kernel.allocNext]
  · rw [hproc, hexit] at hne
    rw [hinit.other t fun heq => hne (heq ▸ rfl), hk1]
    exact h.sems t ht (by simp [hsem])
  · rw [hproc, hexit] at ht
    obtain rfl := Option.some.inj ht
    constructor <;> rw [hnamed] <;> simp [Sem.start, queueCreate]
    split <;> rfl

/-- `sem_init` enters the semaphore in the registry, or leaves the registry as it was. -/
theorem registerSem_registered {k : Kernel} {others : List Addr} (h : k.registeredSemaphores = some others)
    (s : Addr) (name : Name) : (registerSem k s name).registeredSemaphores = some others ∨
      (registerSem k s name).registeredSemaphores = some (others ++ [s]) := by
  unfold registerSem
  split
  · rw [h]
    rcases queuePush_queue k (some others) s with hq | ⟨xs, hxs, hq⟩
    · exact .inl hq
    · cases hxs
      exact .inr hq
  · exact .inl h

/-- **The end of the `sem_init`**: whether or not there was memory for the entry, what the call has built can
    be taken back. -/
theorem registerSem_creating {s : Addr} (h : Unregistered k0 p s (registryUnlock k))
    (hregistry : ∃ others, k0.registeredSemaphores = some others) (name : Name) :
    Creating k0 p [] (registryUnlock (registerSem k s name)) := by
  obtain ⟨others, hothers⟩ := hregistry
  have hunregistered : k.registeredSemaphores = some others := h.unregistered.trans hothers
  have hreg := registerSem_registered hunregistered s name
  have hk := registerSem_kernel k s name
  generalize registerSem k s name = k' at hreg hk ⊢
  have hproc : k'.proc = k.proc := by rw [hk]
  have hsem : k'.sem = k.sem := by rw [hk]
  have hsurrounds : Surrounds k0 p [] (registryUnlock k') := by
    rw [hk]
    exact { h.toSurrounds with owned := h.owned.congr rfl rfl }
  refine { hsurrounds with registered := ?_, sems := fun t ht hne => ?_, destroyable := fun t ht => ?_ }
  · rw [hothers]
    refine hreg.imp_right fun hnew => ⟨s, others, ?_, rfl, hnew⟩
    show (k'.proc p).exitSem = some s
    rw [hproc]
    exact h.exitSem
  · show k'.sem t = _
    rw [hsem]
    refine h.sems t ht fun heq => hne ?_
    show (k'.proc p).exitSem = some t
    rw [hproc]
    exact heq
  · have hexit : (k'.proc p).exitSem = some t := ht
    rw [hproc] at hexit
    obtain ⟨hname, hlock, hwaiting⟩ := h.destroyable t hexit
    constructor <;> show _ <;> simp only [registryUnlock, hsem]
    · exact hname
    · exact hlock
    · exact hwaiting

/-! ## By what the call fails -/

/-- What `createProcess` allocates before it names the exit semaphore: the object, `argv` with its
    strings, the stack, and the semaphore. -/
def createBlocks (args : CreateArgs) : List Block :=
  [.process] ++ (.bytes :: List.replicate args.argc .bytes) ++ [.bytes] ++ [.semaphore]

/-- `createProcess` gets as far as the exit semaphore, and there is no memory for its name. -/
def exitSemUnnamed (k : Kernel) (args : CreateArgs) : Bool :=
  decide (args.entryPoint ≠ 0 ∧ allocatePid k ≠ 0 ∧
    ¬ (args.ppid ≥ PROCESS_FIRST_PID ∧ (processLookup k args.ppid).isNone)) &&
  (grantAll k (createBlocks args)).any (fun k => !(ensureRegistry k).allocOk)

theorem any_of_grants {k k' : Kernel} {blocks : List Block} {ok : Bool} (h : Grants k blocks ok k') :
    (grantAll k blocks).any (fun k => !(ensureRegistry k).allocOk) = (ok && !(ensureRegistry k').allocOk) := by
  cases ok with
  | false =>
      have hnone : grantAll k blocks = none := Option.map_eq_none_iff.mp h
      rw [hnone]
      rfl
  | true =>
      obtain ⟨k1, hk1, hheap⟩ := Option.map_eq_some_iff.mp h
      rw [hk1, Option.any_some, ensureRegistry_congr hheap, Bool.true_and]

/-- Up to where `createProcess` has come with the object. -/
inductive BuildCase (k0 : Kernel) (args : CreateArgs) (p : Addr) (built : Bool × Kernel) : Prop
  | without (failed : built.1 = false) (creating : Creating k0 p [] built.2)
      (named : exitSemUnnamed k0 args = false)
  | exitSem (k : Kernel) (s : Addr) (creating : Creating k0 p [] k) (before : (k.proc p).exitSem = none)
      (free : k.live s = none)
      (fields : built = semInitFields ((k.grant s .semaphore).modProc p (Process.setExitSem s)) s
        (exitSemName (allocatePid k0)) 0)
      (named : exitSemUnnamed k0 args = !(ensureRegistry (k.grant s .semaphore)).allocOk)

theorem unnamed_of_grants {args : CreateArgs} {ok : Bool} (hentry : args.entryPoint ≠ 0)
    (hpid : allocatePid k0 ≠ 0)
    (hparent : ¬ (args.ppid ≥ PROCESS_FIRST_PID ∧ (processLookup k0 args.ppid).isNone))
    (h : Grants k0 (createBlocks args) ok k) :
    exitSemUnnamed k0 args = (ok && !(ensureRegistry k).allocOk) := by
  rw [exitSemUnnamed, any_of_grants h, decide_eq_true ⟨hentry, hpid, hparent⟩, Bool.true_and]

theorem Creating.allocNext {attached : List Nat} (h : Creating k0 p attached k) :
    Creating k0 p attached k.allocNext :=
  h.of_object rfl (fun _ _ => rfl) rfl rfl (h.owned.congr rfl rfl)

/-- The last allocation. -/
theorem allocExitSem_case {args : CreateArgs} (h : Creating k0 p [] k) (hsem : (k.proc p).exitSem = none)
    (hunnamed : ∀ ok k', Grants k [.semaphore] ok k' →
      exitSemUnnamed k0 args = (ok && !(ensureRegistry k').allocOk)) :
    BuildCase k0 args p (allocExitSem k p (allocatePid k0)) := by
  unfold allocExitSem
  rcases memAlloc_cases k .semaphore with halloc | ⟨s, hs, -, halloc⟩
  · rw [halloc]
    exact .without rfl h.allocNext (hunnamed false k (.refused halloc []))
  · rw [halloc]
    exact .exitSem k s h hsem hs rfl (hunnamed true _ (.cons halloc (.nil _)))

/-- **The allocations**, one after the other. -/
theorem buildProcess_case {args : CreateArgs} (hentry : args.entryPoint ≠ 0) (hpid : allocatePid k0 ≠ 0)
    (hfree : k0.live p = none) (halloc : k0.memAlloc .process = (some p, k0.grant p .process)) :
    BuildCase k0 args p (buildProcess (k0.grant p .process) p (allocatePid k0) args) := by
  have hnew := newProcess_creating hfree args
  unfold buildProcess
  dsimp only
  have hlookup : processLookup ((k0.grant p .process).modProc p
      (fun _ => newProcess (allocatePid k0) args)) args.ppid = processLookup k0 args.ppid := rfl
  rw [hlookup]
  by_cases horphan : args.ppid ≥ PROCESS_FIRST_PID ∧ (processLookup k0 args.ppid).isNone
  · -- the parent is not there
    rw [if_pos horphan]
    exact .without rfl hnew (by simp [exitSemUnnamed, horphan])
  rw [if_neg horphan]
  generalize htargets : inheritedTargets ((k0.grant p .process).modProc p
    (fun _ => newProcess (allocatePid k0) args)) (processLookup k0 args.ppid) = targets
  obtain ⟨k2, hk2⟩ : ∃ k2, k2 = ((k0.grant p .process).modProc p
    (fun _ => newProcess (allocatePid k0) args)).modProc p (Process.setTargets targets) := ⟨_, rfl⟩
  rw [← hk2]
  have hobject : k2.proc p = (newProcess (allocatePid k0) args).setTargets targets := by
    simp [hk2, Kernel.modProc]
  have h2 : Creating k0 p [] k2 := by
    refine hnew.of_modProc hk2 rfl rfl (hnew.owned.congr ?_ ?_)
    · rw [hobject]
      simp [Kernel.modProc, Process.blocks, Process.setTargets]
    · rw [hk2]
      rfl
  have hgrants : Grants k0 [.process] true k2 := .cons halloc ((Grants.nil _).congr (by rw [hk2]; rfl))
  obtain ⟨h3, hstack, hsem⟩ := allocArgv_creating h2 (by rw [hobject]; rfl) args.argc
  have hgrants3 := hgrants.trans (allocArgv_grants k2 p args.argc)
  rw [hobject] at hstack hsem
  cases hargv : (allocArgv k2 p args.argc).1 with
  | false =>
      -- no memory for `argv` or one of its strings
      rw [hargv] at hgrants3
      rw [if_pos (by simp)]
      exact .without hargv h3 (unnamed_of_grants hentry hpid horphan ((hgrants3.fails _).fails _))
  | true =>
      rw [hargv] at hgrants3
      rw [if_neg (by simp)]
      obtain ⟨h4, hsem4⟩ := allocStack_creating h3 hstack
      have hgrants4 := hgrants3.trans (allocStack_grants (allocArgv k2 p args.argc).2 p)
      cases hok : (allocStack (allocArgv k2 p args.argc).2 p).1 with
      | false =>
          -- no memory for the stack
          rw [hok] at hgrants4
          rw [if_pos (by simp)]
          exact .without hok h4 (unnamed_of_grants hentry hpid horphan (hgrants4.fails _))
      | true =>
          rw [hok] at hgrants4
          rw [if_neg (by simp)]
          exact allocExitSem_case h4 (hsem4.trans hsem) fun ok k' hlast =>
            unnamed_of_grants hentry hpid horphan (hgrants4.trans hlast)

end Building

end TpSo
