import TpSo.Process.Creating

set_option autoImplicit false

/-! # `createProcess` does all of its work or none

Every allocation of the call can fail, and one failure is not recovered from: without memory for its
name `sem_init` leaves the fields of the exit semaphore as they were in memory, and `sem_destroy` works
with them. -/

namespace TpSo

/-! ## The attachments and the tree -/

section Code
variable {k0 k : Kernel} {p : Addr} {attached : List Nat} {parent : Option Addr}

theorem enterTree_creating {c : Creation} (h : Creating k0 c.process attached k)
    (hfail : (enterTree k c).1 = false) : Creating k0 c.process attached (enterTree k c).2 := by
  have henters := enterTree_enters k c
  obtain ⟨hprocesses, hcount, hchildren⟩ := enterTree_fails hfail
  generalize (enterTree k c).2 = k' at henters hprocesses hcount hchildren ⊢
  have hlive : k'.live = k.live := by rw [henters.kernel]
  refine h.of_surrounds (h.toSurrounds.congr hprocesses hcount ?_ ?_ ?_ (fun q _ => hchildren q) ?_ ?_
    (h.owned.congr ?_ hlive)) ?_ ?_ fun s _ => ?_
  · rw [henters.kernel]
  · rw [henters.kernel]
  · rw [henters.kernel]
  · rw [henters.kernel]
  · rw [henters.proc]
  · rw [henters.proc]
    rfl
  · rw [henters.kernel]
  · rw [henters.proc]
  · rw [henters.kernel]

/-- What is left of the call once the process is entered: it cannot fail any more. -/
theorem rollsBack_entered {c : Creation} (x : Kernel × Regs) :
    RollsBack k0 parent (fun y => y = x) [.createForeground c] (fun _ => True) := by
  have hany : RollsBack k0 parent (fun _ => True) [.createForeground c] (fun _ => True) := by
    refine .invariant (fun j => ∃ c, j = .createForeground c ∨ j = .createMark c ∨ j = .createDone c)
      (fun _ _ _ _ => trivial) (by simp) ?_ ?_
    · rintro y j - ⟨d, rfl | rfl | rfl⟩ -
      · exact ⟨trivial, by simp [callCode, exec]⟩
      · exact ⟨trivial, by simp [callCode, exec]⟩
      · refine ⟨trivial, ?_⟩
        simp only [callCode, exec, createDone]
        cases d.use <;> simp
    · rintro y j - ⟨d, rfl | rfl | rfl⟩ <;> exact trivial
  exact hany.start trivial

section Creation
variable {c : Creation} (hpipes : PipeSemsLive k0) (hpid : allocatePid k0 ≠ 0)
  (hparent : ∀ q, parent = some q → q ≠ c.process) (hregistry : RegistryReady k0)
include hpipes hpid hparent hregistry

/-- The code `createRollback` returns. -/
theorem rollsBack_createRollback {x : Kernel × Regs} (h : Creating k0 c.process attached x.1) :
    RollsBack k0 parent (fun y => y = x) (createRollback x.1 x.2 c attached).code (fun _ => True) := by
  unfold createRollback
  rw [h.pid]
  exact .start (rollsBack_all hpipes hpid hparent hregistry c.use) h

/-- From `process_register` on. -/
theorem rollsBack_createRegister : RollsBack k0 parent (fun x => Creating k0 c.process attached x.1)
    [.createRegister c attached] (fun _ => True) := by
  refine .instr creating_stable' (by simp [callCode]) fun x h => ⟨trivial, ?_⟩
  have hexec : exec x.1 x.2 (.createRegister c attached) = createRegisterCode x.1 x.2 c attached := rfl
  simp only [callCode, hexec, createRegisterCode]
  cases hentered : (enterTree x.1 c).1 with
  | false =>
      simp only [Bool.false_eq_true, not_false_eq_true, if_true]
      exact rollsBack_createRollback hpipes hpid hparent hregistry (x := ((enterTree x.1 c).2, x.2))
        (enterTree_creating h hentered)
  | true =>
      simp only [not_true_eq_false, if_false]
      exact rollsBack_entered _

/-- **The attachments**, by induction on those still to be made. -/
theorem rollsBack_createAttach (targets : List Nat)
    (hroom : ∀ id a, TpSo.pipeOf k0 id = some a →
      (k0.pipe a).attachedCount + idsOf k0 attached a + idsOf k0 targets a < 256) :
    RollsBack k0 parent (fun x => Creating k0 c.process attached x.1) [.createAttach c targets attached]
      (fun _ => True) := by
  induction targets generalizing attached with
  | nil =>
      refine .instr creating_stable' (by simp [callCode]) fun x h => ⟨trivial, ?_⟩
      exact .start (rollsBack_createRegister hpipes hpid hparent hregistry) h
  | cons target targets ih =>
      refine .instr creating_stable' (by simp [callCode]) fun x h => ⟨trivial, ?_⟩
      show RollsBack k0 parent (fun y => y = x)
        [.attachToPipe target, .createAttached c target targets attached] _
      cases hid : TpSo.pipeOf k0 target with
      | none =>
          refine .start (.cons (rollsBack_attach_none hid) ?_) h
          refine .instr (creating_stable fun r => r.rax = -1) (by simp [callCode])
            fun y hy => ⟨trivial, ?_⟩
          obtain ⟨hrax, hy⟩ := hy
          simp only [callCode, exec, hrax, show ¬ (-1 : Int) = 0 by decide, if_false]
          -- without that pipe only a process that has a parent is given up
          split
          · exact rollsBack_createRollback hpipes hpid hparent hregistry hy
          · refine .start (ih fun id a ha => ?_) hy
            have hle := hroom id a ha
            rw [idsOf_cons] at hle
            omega
      | some a =>
          have hle : (k0.pipe a).attachedCount + idsOf k0 (target :: attached) a < 256 := by
            have hle := hroom target a hid
            rw [idsOf_cons] at hle ⊢
            omega
          refine .start (.cons (rollsBack_attach hpipes hid hle) ?_) h
          refine .instr (creating_stable fun r => r.rax = 0) (by simp [callCode])
            fun y hy => ⟨trivial, ?_⟩
          obtain ⟨hrax, hy⟩ := hy
          -- one more pipe to give up if the call fails from here on
          simp only [callCode, exec, hrax, if_true]
          refine .start (ih fun id b hb => ?_) hy
          have hle := hroom id b hb
          rw [idsOf_cons] at hle ⊢
          omega

/-- **The end of the `sem_init`**: where its waiting queue found no memory the call fails. -/
theorem rollsBack_createNamed {s : Addr} (hthere : ∃ others, k0.registeredSemaphores = some others)
    (name : Name) (targets : List Nat)
    (hroom : ∀ id a, TpSo.pipeOf k0 id = some a →
      (k0.pipe a).attachedCount + idsOf k0 targets a < 256) :
    RollsBack k0 parent (fun x => Unregistered k0 c.process s (registryUnlock x.1))
      [.createNamed c s name targets] (fun _ => True) := by
  refine .instr (fun _ _ h hb => h.undisturbed hb.1.unlocked) (by simp [callCode]) fun x h => ⟨trivial, ?_⟩
  have hcreating := registerSem_creating h hthere name
  have hexec : exec x.1 x.2 (.createNamed c s name targets) = createNamedCode x.1 x.2 c s name targets := rfl
  simp only [callCode, hexec, createNamedCode]
  split
  · have hall : RollsBack k0 parent (fun x => Creating k0 c.process [] x.1)
        [.processFreeMemory c.process, .createFailed c.use] (fun _ => True) :=
      rollsBack_all hpipes hpid hparent hregistry c.use
    exact hall.start hcreating
  · exact .start (rollsBack_createAttach hpipes hpid hparent hregistry targets hroom) hcreating

end Creation

end Code

/-! ## The call -/

/-- The pipes the new process is attached to. -/
def createTargets (k : Kernel) (args : CreateArgs) : List Nat :=
  let targets := inheritedTargets k (processLookup k args.ppid)
  [targets 0, targets 1, targets 2]

/-- What `createProcess` can count on before it begins: the registry is there and its spin lock free, the blocks
    it works with are allocated, and three more attachments fit in the counts of the pipes. -/
structure CreateReady (k : Kernel) (args : CreateArgs) : Prop where
  parent : ∀ q, processLookup k args.ppid = some q → k.live q ≠ none
  registry : ∃ others, k.registeredSemaphores = some others
  registered : RegistryReady k
  pipes : PipeSemsLive k
  room : ∀ id a, pipeOf k id = some a →
    (k.pipe a).attachedCount + idsOf k (createTargets k args) a < 256

instance (k : Kernel) (args : CreateArgs) : Decidable (CreateReady k args) :=
  decidable_of_iff (k.registryLock = false ∧ (∀ q ∈ processLookup k args.ppid, k.live q ≠ none) ∧
    (∃ others ∈ k.registeredSemaphores, ∀ s ∈ others, k.live s ≠ none) ∧
    ∀ id, id < MAX_PIPES → ∀ a ∈ pipeOf k id, (∀ s ∈ (k.pipe a).sems, k.live s ≠ none) ∧
      (k.pipe a).attachedCount + idsOf k (createTargets k args) a < 256) <| by
    have hid : ∀ {id a}, pipeOf k id = some a → id < MAX_PIPES := by
      intro id a h
      by_contra hge
      rw [pipeOf, if_pos (Nat.not_lt.mp hge)] at h
      cases h
    constructor
    · rintro ⟨hfree, hparent, ⟨others, hothers, hlive⟩, hpipes⟩
      exact ⟨hparent, ⟨others, hothers⟩, ⟨by rwa [hothers], hfree⟩, fun id a ha =>
        (hpipes id (hid ha) a ha).1, fun id a ha => (hpipes id (hid ha) a ha).2⟩
    · intro h
      obtain ⟨others, hothers⟩ := h.registry
      have hlive := h.registered.live
      rw [hothers] at hlive
      exact ⟨h.registered.free, h.parent, ⟨others, hothers, hlive⟩, fun id _ a ha => ⟨h.pipes id a ha, h.room id a ha⟩⟩

/-- **All or nothing**: while others leave alone what the call has to restore, it destroys a semaphore only
    where `sem_init` has completed it, and returns `NULL` only where everything is as before. -/
def AllOrNothing (k : Kernel) (args : CreateArgs) (use : CreateUse) : Prop :=
  ∀ r x i more, (callCode (CallUndisturbed k)).interrupted.Path ((k, r), [some (.createProcess args use)])
    (x, some i :: more) → FindsReady k (processLookup k args.ppid) x i

theorem Restored.refl (k : Kernel) (parent : Option Addr) : Restored k k parent where
  processes := rfl
  processCount := rfl
  foreground := rfl
  attached _ := rfl
  registered := rfl
  children _ _ := .refl _
  live := rfl
  sems _ _ := .inl rfl

theorem Restored.allocNext (k : Kernel) (parent : Option Addr) : Restored k k.allocNext parent :=
  { Restored.refl k parent with }

/-- Where the call is when it has built the object, or has failed to. -/
def createBuilt (k : Kernel) (r : Regs) (args : CreateArgs) (use : CreateUse) :
    (Kernel × Regs) × List Instr :=
  let o := createProcessCode k r args use
  ((o.k, o.r), o.code)

/-- Where there is memory for the name of the exit semaphore, or the call does not get that far. -/
theorem rollsBack_create {k : Kernel} {args : CreateArgs} (h : CreateReady k args)
    (hnamed : exitSemUnnamed k args = false) (r : Regs) (use : CreateUse) :
    RollsBack k (processLookup k args.ppid)
      (fun x => x = (createBuilt k r args use).1) (createBuilt k r args use).2 (fun _ => True) := by
  unfold createBuilt createProcessCode
  by_cases hentry : args.entryPoint = 0
  · rw [if_pos hentry]
    exact .start (rollsBack_createFailed use) (.refl k _)
  rw [if_neg hentry]
  by_cases hpid : allocatePid k = 0
  · rw [if_pos hpid]
    exact .start (rollsBack_createFailed use) (.refl k _)
  rw [if_neg hpid]
  rcases memAlloc_cases k .process with halloc | ⟨p, hfree, -, halloc⟩
  · rw [halloc]
    exact .start (rollsBack_createFailed use) (.allocNext k _)
  rw [halloc]
  dsimp only
  have hparent : ∀ q, processLookup k args.ppid = some q → q ≠ p := by
    rintro q hq rfl
    exact h.parent q hq hfree
  have hall : RollsBack k (processLookup k args.ppid) (fun x => Creating k p [] x.1)
      [.processFreeMemory p, .createFailed use] (fun _ => True) :=
    rollsBack_all h.pipes hpid hparent h.registered use
  have hcase := buildProcess_case hentry hpid hfree halloc
  generalize buildProcess (k.grant p .process) p (allocatePid k) args = built at hcase ⊢
  cases hcase with
  | without hfailed hcreating _ =>
      -- whatever is missing of the object, it can be taken back
      rw [if_neg (by simp [hfailed])]
      exact hall.start hcreating
  | exitSem k4 s hcreating hsem hs hfields hunnamed =>
      have hname : (ensureRegistry (k4.grant s .semaphore)).allocOk = true := by
        simpa [hnamed] using hunnamed.symm
      have hset := semInitFields_creating hcreating hsem h.registry hs hname (exitSemName (allocatePid k))
      have hbuilt : built.1 = true := by
        have hsame : (ensureRegistry ((k4.grant s .semaphore).modProc p (Process.setExitSem s))).allocOk =
            (ensureRegistry (k4.grant s .semaphore)).allocOk := ensureRegistry_congr rfl
        have hok := hsame.trans hname
        simp [hfields, semInitFields, hok]
      rw [← hfields] at hset
      rw [if_pos hbuilt, hset.exitSem]
      have hlock : RollsBack k (processLookup k args.ppid) (fun x => Unregistered k p s x.1) [.registryLock]
          (fun x => Unregistered k p s (registryUnlock x.1)) :=
        rollsBack_registryLock (fun _ _ h hu => h.undisturbed hu)
          fun _ h' => h'.registryLock.trans h.registered.free
      exact .start (.cons hlock (rollsBack_createNamed
        (c := { process := p, parent := processLookup k args.ppid, args := args, use := use }) h.pipes hpid
        hparent h.registered h.registry (exitSemName (allocatePid k)) (createTargets k args) h.room)) hset

/-- What the call can do where others come in only when it gives the processor away, it can do. -/
theorem AllOrNothing.findsReady {k : Kernel} {args : CreateArgs} {use : CreateUse}
    (h : AllOrNothing k args use) {r : Regs} {x : Kernel × Regs} {i : Instr} {more : List Instr}
    (hpath : (callCode (CallUndisturbed k)).Path (createBuilt k r args use) (x, i :: more)) :
    FindsReady k (processLookup k args.ppid) x i := by
  have hrefl : ∀ x, (callCode (CallUndisturbed k)).back x x := fun x => ⟨.refl k x.1, rfl⟩
  have hfirst : (callCode (CallUndisturbed k)).interrupted.Path ((k, r), [some (.createProcess args use)])
      ((createBuilt k r args use).1, CodeSystem.marked (createBuilt k r args use).2 ++ []) :=
    .executes (by simp [callCode, CodeSystem.interrupted]) rfl
  rw [List.append_nil] at hfirst
  have hlast : (callCode (CallUndisturbed k)).interrupted.Step (x, CodeSystem.marked (i :: more))
      (x, some i :: CodeSystem.marked more) := .leave trivial (hrefl x)
  exact h r x i _ ((hfirst.trans (hpath.interrupted hrefl)).tail hlast)

/-- `process_free_memory` comes to the exit semaphore. -/
theorem processFreeMemory_path (k0 : Kernel) {k : Kernel} {p s : Addr} (hs : (k.proc p).exitSem = some s)
    (r : Regs) (rest : List Instr) : (callCode (CallUndisturbed k0)).Path
      ((k, r), .processFreeMemory p :: rest)
      ((freeArgvAndStack k p, r), .semDestroy s :: .processFreeRest p :: rest) := by
  have hrun : (callCode (CallUndisturbed k0)).run (k, r) (.processFreeMemory p) =
      ((freeArgvAndStack k p, r), [.semDestroy s, .processFreeRest p]) := by
    simp only [callCode, exec, hs]
    rfl
  exact .executes (by simp [callCode]) hrun

/-- Without memory for its name the call comes to `sem_destroy` of a semaphore that `sem_init` has given
    up on. -/
theorem unnamed_destroyed {k : Kernel} {args : CreateArgs} (h : exitSemUnnamed k args = true) (r : Regs)
    (use : CreateUse) : ∃ x s more, (callCode (CallUndisturbed k)).Path (createBuilt k r args use)
      (x, .semDestroy s :: more) ∧ (x.1.sem s).name = none := by
  obtain ⟨hargs, hname⟩ := Bool.and_eq_true_iff.mp h
  obtain ⟨hentry, hpid, -⟩ := of_decide_eq_true hargs
  rcases memAlloc_cases k .process with halloc | ⟨p, hfree, -, halloc⟩
  · simp [createBlocks, grantAll, halloc] at hname
  have hcase := buildProcess_case hentry hpid hfree halloc
  generalize hbuilt : buildProcess (k.grant p .process) p (allocatePid k) args = built at hcase
  cases hcase with
  | without _ _ hnamed =>
      rw [hnamed] at h
      cases h
  | exitSem k4 s _ _ hs hfields hunnamed =>
      have hset : (ensureRegistry ((k4.grant s .semaphore).modProc p (Process.setExitSem s))).allocOk =
          (ensureRegistry (k4.grant s .semaphore)).allocOk := ensureRegistry_congr rfl
      have hnoname := hset.trans (by simpa [h] using hunnamed.symm)
      have hnone : (built.2.sem s).name = none := by
        simp [hfields, semInitFields, hnoname, Kernel.modSem]
      have hexit : (built.2.proc p).exitSem = some s := by
        rw [hfields, (semInitFields_inits _ s _ 0).kernel]
        simp [Kernel.modProc, Process.setExitSem]
      have hfailed : built.1 = false := by simp [hfields, semInitFields, hnoname]
      have hstart : createBuilt k r args use =
          ((built.2, r), [.processFreeMemory p, .createFailed use]) := by
        simp [createBuilt, createProcessCode, hentry, hpid, halloc, hbuilt, hfailed]
      rw [hstart]
      refine ⟨_, s, _, processFreeMemory_path k hexit r [.createFailed use], ?_⟩
      rw [(freeArgvAndStack_frees built.2 p).kernel]
      exact hnone

/-! ## The call in a run of the machine -/

namespace Machine
variable {m m' : Machine} {rest : List Instr}

/-- The running handler after an instruction that prepares another stack, or none. -/
theorem execInstr_running {i : Instr} (hsys : (m.threads m.cpu).sys = i :: rest) (hi : i ≠ .int20)
    (hspawn : (exec m.k m.thread.regs i).spawned ≠ some m.cpu) :
    ((m.execInstr i).threads m.cpu).sys = (exec m.k m.thread.regs i).code ++ rest ∧
      ((m.execInstr i).threads m.cpu).regs = (exec m.k m.thread.regs i).r := by
  have hadvance : m.advance (exec m.k m.thread.regs i).code =
      { m.thread with sys := (exec m.k m.thread.regs i).code ++ rest } := by
    unfold advance thread
    rw [hsys]
  rw [m.execInstr_eq hi, hadvance]
  cases hs : (exec m.k m.thread.regs i).spawn with
  | none => simp [spawn, setThread]
  | some x =>
      have hne : m.cpu ≠ x.1 := by
        intro heq
        exact hspawn (by simp [Outcome.spawned, hs, heq])
      simp [spawn, setThread, Function.update_of_ne hne]

/-- The code of the call prepares no further stack. -/
theorem createProcess_spawns (k : Kernel) (r : Regs) (args : CreateArgs) (use : CreateUse) :
    ∀ i ∈ (exec k r (.createProcess args use)).code, i.spawns = false := by
  intro i hi
  have hcomes := exec_comesTo k r _ i hi
  cases i <;> first | rfl | cases hcomes

/-- **Run lemma.** A system call that creates a process finds what it needs wherever a run of the machine
    has come to with it, if others leave alone what the call has to restore. -/
theorem findsReady_of_run {args : CreateArgs} {use : CreateUse} {as : List Action} {i : Instr}
    {left : List Instr} (hall : AllOrNothing m.k args use)
    (hsys : (m.threads m.cpu).sys = .createProcess args use :: rest)
    (hrun : GuardedRun step
      (fun t a => t.InCall m.cpu rest a ∧ t.Relies (CallUndisturbed m.k) m.cpu a) m as m')
    (hcpu : m'.cpu = m.cpu) (hleft : (m'.threads m.cpu).sys = i :: left ++ rest) :
    FindsReady m.k (processLookup m.k args.ppid) (m'.k, (m'.threads m.cpu).regs) i := by
  cases hrun with
  | nil =>
      obtain rfl := (List.cons.inj (hsys.symm.trans hleft)).1
      trivial
  | cons hg hs hrest =>
      -- the first stretch may prepare the stack of the new process, the rest of the call no other
      obtain ⟨hexecutes, rfl⟩ := step_of_sys hsys hs
      have hspawn : (exec m.k m.thread.regs (.createProcess args use)).spawned ≠ some m.cpu := fun h =>
        hg.1.2 ⟨_, hexecutes, h⟩
      obtain ⟨hsys1, hregs1⟩ := execInstr_running hsys (by simp) hspawn
      have hpath := path_in_call (fun _ _ _ h h' => h.trans h')
        (fun k rsp => .of_outside (scheduleTick_outside k rsp)) hrest (m.execInstr_cpu (by simp)) hsys1
        (createProcess_spawns _ _ args use) hcpu hleft
      rw [m.execInstr_k (by simp), hregs1] at hpath
      exact hall.findsReady hpath

end Machine

/-- The shell is about to create a process. -/
def shellCreates : List Action :=
  startShell ++ [.syscall (.processCreate 0 0 false (KERNEL_BASE * 4)), .exec]

/-- The process the machine is about to create, if it does nothing else in the handler. -/
def Machine.creates (m : Machine) : Option (CreateArgs × CreateUse) :=
  match (m.threads m.cpu).sys with
  | [.createProcess args use] => some (args, use)
  | _ => none

theorem Machine.sys_of_creates {m : Machine} {args : CreateArgs} {use : CreateUse}
    (h : m.creates = some (args, use)) : (m.threads m.cpu).sys = [.createProcess args use] := by
  unfold creates at h
  split at h
  · next hsys =>
    cases h
    exact hsys
  · cases h

/-- The allocator has nothing for the name of the exit semaphore. -/
def noExitSemName (n : Nat) : Option Addr := if n = 18 then none else freshBlocks n

set_option maxRecDepth 100000 in
/-- There is memory for everything. -/
example : ((Boot.machine freshBlocks).run shellCreates).any (fun m => m.creates.any fun c =>
    decide (CreateReady m.k c.1) && !exitSemUnnamed m.k c.1) = true := by decide +kernel

end TpSo
