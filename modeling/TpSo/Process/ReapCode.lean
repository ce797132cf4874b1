import TpSo.Machine.ExecActs
import TpSo.Machine.Expansion
import TpSo.Machine.Progress
import TpSo.Pipes.OpenPipe

set_option autoImplicit false

/-! # Which code concerns a process

The kernel names a process in the code of its creation, of its `process_exit` and of its reap. Here is
what leaves such code to be executed, and which process it can name. -/

namespace TpSo

/-- The instruction belongs to the creation of `p`. -/
def Instr.makes (p : Addr) : Instr → Bool
  | .createNamed c _ _ _ | .createAttach c _ _ | .createAttached c _ _ _ | .createRegister c _ =>
    c.process == p
  | _ => false

/-- The instruction frees the object of `p`. -/
def Instr.discards (p : Addr) : Instr → Bool
  | .processFreeMemory q | .processFreeRest q => q == p
  | _ => false

/-- The object of `p` is in the hands of the instruction. -/
def Instr.handles (p : Addr) (i : Instr) : Bool := i.makes p || i.discards p

/-- The instruction reaps `p`. -/
def Instr.reaps (p : Addr) : Instr → Bool
  | .reapChildProcess q | .reapUnregister q => q == p
  | _ => false

/-- The instruction is about the end of `p`: the end of its `process_exit`, or of a reap that has seen
    that it is `TERMINATED`. -/
def Instr.mourns (p : Addr) : Instr → Bool
  | .exitSemPost q => q == p
  | .waitChildrenLoop _ terminated _ => decide (p ∈ terminated)
  | _ => false

/-- The instruction names `p` in one of these ways. -/
def Instr.concerns (p : Addr) (i : Instr) : Bool := i.handles p || i.reaps p || i.mourns p

/-- A `sem_wait` on `s`, at the latest before it returns 0. -/
def Instr.awaits (s : Addr) : Instr → Bool
  | .semWait t | .semWaitLocked t => t == s
  | .semWaitReturn t ret => t == s && ret == 0
  | _ => false

/-! ## `createProcess` -/

/-- A new exit semaphore with a name has the count 0. -/
theorem allocExitSem_built {k : Kernel} {p pid : Nat} (h : (allocExitSem k p pid).1 = true) :
    ∃ s, ((allocExitSem k p pid).2.proc p).exitSem = some s ∧
      ((allocExitSem k p pid).2.sem s).count = 0 := by
  unfold allocExitSem at h ⊢
  rcases memAlloc_cases k .semaphore with ha | ⟨s, -, -, ha⟩ <;> rw [ha] at h ⊢
  · cases h
  · dsimp only at h ⊢
    set k1 := (k.grant s .semaphore).modProc p (Process.setExitSem s) with hk1
    refine ⟨s, ?_, ?_⟩
    · rw [(semInitFields_inits k1 s (exitSemName pid) 0).kernel]
      simp [hk1, Kernel.modProc, Process.setExitSem]
    · unfold semInitFields at h ⊢
      dsimp only at h ⊢
      split at h
      · next hname =>
        rw [if_pos hname]
        simp [Kernel.modSem, Sem.start]
      · cases h

/-- A process that is built has an exit semaphore with the count 0. -/
theorem buildProcess_built {k : Kernel} {p pid : Nat} {args : CreateArgs}
    (h : (buildProcess k p pid args).1 = true) :
    ∃ s, ((buildProcess k p pid args).2.proc p).exitSem = some s ∧
      ((buildProcess k p pid args).2.sem s).count = 0 := by
  unfold buildProcess at h ⊢
  dsimp only at h ⊢
  split at h
  · cases h
  · next hparent =>
    rw [if_neg hparent]
    split at h
    · next hargv => exact absurd h hargv
    · next hargv =>
      rw [if_neg hargv]
      split at h
      · next hstack => exact absurd h hstack
      · next hstack =>
        rw [if_neg hstack]
        exact allocExitSem_built h

/-- What `createProcess` does before the attachments. -/
inductive CreateCase (k : Kernel) (args : CreateArgs) (use : CreateUse) (o : Outcome) : Prop
  | refused (acts : createActs k args = []) (code : o.code = [.createFailed use])
      (spawned : o.spawned = none) (proc : o.k.proc = k.proc) (events : o.events = [])
  | failed (p : Addr) (acts : createActs k args = [.fresh p])
      (code : o.code = [.processFreeMemory p, .createFailed use]) (spawned : o.spawned = none)
      (proc : ∀ q, q ≠ p → o.k.proc q = k.proc q)
      (events : o.events = (o.k.proc p).exitSem.toList.map (initEvent o.k))
  | built (p s : Addr) (c : Creation) (targets : List Nat) (name : Name)
      (acts : createActs k args = [.fresh p]) (object : c.process = p)
      (code : o.code = [.registryLock, .createNamed c s name targets])
      (spawned : o.spawned = some p) (proc : ∀ q, q ≠ p → o.k.proc q = k.proc q)
      (exitSem : (o.k.proc p).exitSem = some s) (count : (o.k.sem s).count = 0)
      (events : o.events = [initEvent o.k s])

theorem createProcess_case (k : Kernel) (r : Regs) (args : CreateArgs) (use : CreateUse) :
    CreateCase k args use (createProcessCode k r args use) := by
  unfold createProcessCode
  split
  · next h0 => exact .refused (by simp [createActs, h0]) rfl rfl rfl rfl
  · next h0 =>
    split
    · next hpid => exact .refused (by simp [createActs, hpid]) rfl rfl rfl rfl
    · next hpid =>
      have hacts : createActs k args = (k.memAlloc .process).1.toList.map .fresh := if_neg (by tauto)
      dsimp only
      rcases memAlloc_cases k .process with h | ⟨p, -, -, h⟩ <;> rw [h] at hacts ⊢ <;> dsimp only
      · exact .refused hacts rfl rfl rfl rfl
      · have hb := buildProcess_builds (k.grant p .process) p (allocatePid k) args
        have hother : ∀ q, q ≠ p →
            (buildProcess (k.grant p .process) p (allocatePid k) args).2.proc q = k.proc q :=
          fun q hq => (hb.other q hq).trans (Function.update_of_ne hq _ _)
        split
        · next hbuilt =>
          obtain ⟨s, hs, hcount⟩ := buildProcess_built hbuilt
          let targets := inheritedTargets k (processLookup k args.ppid)
          refine .built p s { process := p, parent := processLookup k args.ppid, args := args, use := use }
            [targets 0, targets 1, targets 2] (exitSemName (allocatePid k)) hacts rfl ?_ rfl hother hs hcount ?_
          · show onSem _ _ = _
            rw [hs]
            rfl
          · show List.map _ _ = _
            rw [hs]
            rfl
        · exact .failed p hacts rfl rfl hother rfl

/-- It leaves the object in the hands of one instruction, and ends and reaps nobody. -/
theorem createProcess_hands (k : Kernel) (r : Regs) (args : CreateArgs) (use : CreateUse) (p : Addr) :
    (createProcessCode k r args use).code.countP (Instr.handles p) ≤ 1 ∧
      ∀ j ∈ (createProcessCode k r args use).code, j.mourns p = false ∧ j.reaps p = false := by
  cases createProcess_case k r args use with
  | refused _ code _ _ _ =>
      simp [code, Instr.handles, Instr.makes, Instr.discards, Instr.mourns, Instr.reaps]
  | failed q _ code _ _ _ =>
      rw [code]
      refine ⟨?_, by simp [Instr.mourns, Instr.reaps]⟩
      exact (List.countP_cons ..).trans_le (by simp [Instr.handles, Instr.makes, Instr.discards]; split <;> omega)
  | built q s c targets name _ _ code _ _ _ _ _ =>
      rw [code]
      refine ⟨?_, by simp [Instr.mourns, Instr.reaps]⟩
      exact (List.countP_cons ..).trans_le (by simp [Instr.handles, Instr.makes, Instr.discards]; split <;> omega)

section Exec
variable {k : Kernel} {r : Regs} {i j : Instr} {p : Addr}

/-! ## Creations -/

/-- A creation is begun by `createProcess`, which has just got the object, and goes on by itself. -/
theorem exec_makes (hj : j ∈ (exec k r i).code) (hp : j.makes p = true) :
    i.makes p = true ∨ .fresh p ∈ schedActs k i := by
  have hcomes := exec_comesTo k r i j hj
  cases j <;> try cases hp
  case createNamed c s name targets =>
      cases i <;> try cases hcomes
      case createProcess args use =>
          refine .inr ?_
          change _ ∈ (createProcessCode k r args use).code at hj
          cases createProcess_case k r args use with
          | refused _ code _ _ _ => simp [code] at hj
          | failed _ _ code _ _ _ => simp [code] at hj
          | built q s' c' targets' name' acts object code _ _ _ _ _ =>
              simp only [code, List.mem_cons, reduceCtorEq, List.not_mem_nil, or_false, false_or] at hj
              cases hj
              have hq : c.process = p := eq_of_beq hp
              show _ ∈ createActs k args
              rw [acts, ← object, hq]
              exact List.mem_singleton_self _
  case createAttach c targets attached =>
      cases i <;> try cases hcomes
      case createNamed c' s name targets' =>
          refine .inl ?_
          simp only [exec, createNamedCode] at hj
          split at hj <;> simp_all [Instr.makes]
      case createAttached c' target targets' attached' =>
          refine .inl ?_
          simp only [exec, createRollback] at hj
          repeat' split at hj
          all_goals simp_all [Instr.makes]
  case createAttached c target targets attached =>
      cases i <;> try cases hcomes
      case createAttach c' targets' attached' =>
          refine .inl ?_
          cases targets' <;> simp_all [exec, Instr.makes]
  case createRegister c attached =>
      cases i <;> try cases hcomes
      case createAttach c' targets' attached' =>
          refine .inl ?_
          cases targets' <;> simp_all [exec, Instr.makes]

/-! ## Freeing the object -/

/-- Where an element satisfies `P` and is the only one to do so, it is found. -/
theorem split_at_only (P : Instr → Bool) (before : List Instr) {front back after : List Instr} {a : Instr}
    (h : front ++ j :: back = before ++ a :: after) (hj : P j = true)
    (hbefore : ∀ x ∈ before, P x = false) (hafter : ∀ x ∈ after, P x = false) :
    j = a ∧ back = after := by
  rcases List.append_eq_append_iff.mp h with ⟨mid, rfl, hmid⟩ | ⟨mid, rfl, hmid⟩
  · cases mid with
    | nil => exact List.cons.inj hmid
    | cons b mid =>
        obtain ⟨rfl, -⟩ := List.cons.inj hmid
        exact absurd hj (by simp [hbefore j (by simp)])
  · cases mid with
    | nil =>
        obtain ⟨rfl, rfl⟩ := List.cons.inj hmid
        exact ⟨rfl, rfl⟩
    | cons b mid =>
        obtain ⟨-, rfl⟩ := List.cons.inj hmid
        exact absurd hj (by simp [hafter j (by simp)])

/-- The end of a creation that is rolled back. -/
theorem createRollback_discards {c : Creation} {attached : List Nat} {front back : List Instr}
    (h : (createRollback k r c attached).code = front ++ j :: back) (hj : j.discards p = true) :
    back = [.createFailed c.use] :=
  (split_at_only (Instr.discards p) _ h.symm hj (by simp [Instr.discards]) (by simp [Instr.discards])).2

/-- **What is behind the freeing of a process.** After a creation that failed it is that failure. -/
theorem exec_discards {front back : List Instr} (h : (exec k r i).code = front ++ j :: back)
    (hj : j.discards p = true) : (∃ use, back = [.createFailed use]) ∨
      i = .processFreeMemory p ∧ back = [] ∨ i = .reapUnregister p ∧ back = [.setRax 0] := by
  have hcomes := exec_comesTo k r i j (h ▸ by simp)
  cases j <;> try cases hj
  case processFreeMemory q =>
      cases i <;> try cases hcomes
      case createProcess args use =>
          refine .inl ⟨use, ?_⟩
          change (createProcessCode k r args use).code = _ at h
          cases createProcess_case k r args use with
          | refused _ code _ _ _ => cases front <;> simp [code] at h
          | failed q' _ code _ _ _ =>
              exact (split_at_only (Instr.discards p) [] (h.symm.trans code) hj (by simp)
                (by simp [Instr.discards])).2
          | built _ _ _ _ _ _ _ code _ _ _ _ _ =>
              have hmem : Instr.processFreeMemory q ∈ (createProcessCode k r args use).code := by
                rw [h]
                simp
              simp [code] at hmem
      case createNamed c s name targets =>
          refine .inl ⟨c.use, ?_⟩
          simp only [exec, createNamedCode] at h
          split at h
          · exact (split_at_only (Instr.discards p) [] h.symm hj (by simp) (by simp [Instr.discards])).2
          · cases front <;> simp at h
      case createAttached c target targets attached =>
          refine .inl ⟨c.use, ?_⟩
          simp only [exec] at h
          repeat' split at h
          · cases front <;> simp at h
          · exact createRollback_discards h hj
          · cases front <;> simp at h
      case createRegister c attached =>
          refine .inl ⟨c.use, ?_⟩
          simp only [exec, createRegisterCode] at h
          split at h
          · exact createRollback_discards h hj
          · cases front <;> simp at h
      case reapUnregister q' =>
          refine .inr (.inr ?_)
          have hq : q = p := by simpa [Instr.discards] using hj
          obtain ⟨heq, hback⟩ := split_at_only (Instr.discards p) [] h.symm hj (by simp)
            (by simp [Instr.discards])
          cases heq
          exact ⟨by rw [hq], hback⟩
  case processFreeRest q =>
      cases i <;> try cases hcomes
      case processFreeMemory q' =>
          refine .inr (.inl ?_)
          have hq : q = p := by simpa [Instr.discards] using hj
          have hbefore : ∀ x ∈ onSem (k.proc q').exitSem (fun s => [.semDestroy s]), x.discards p = false := by
            unfold onSem
            split <;> simp [Instr.discards]
          obtain ⟨heq, hback⟩ := split_at_only (Instr.discards p) _ h.symm hj hbefore (by simp)
          cases heq
          exact ⟨by rw [hq], hback⟩

/-- **One hand at most.** The object of a process goes from one instruction to the next; it is taken
    up by `createProcess`, and by the reap that takes the process out of the table. -/
theorem exec_handles (hfresh : .fresh p ∉ schedActs k i) (hreap : i ≠ .reapUnregister p) :
    (exec k r i).code.countP (Instr.handles p) ≤ if i.handles p then 1 else 0 := by
  have hzero : ∀ code : List Instr, (∀ j ∈ code, j.handles p = false) → code.countP (Instr.handles p) = 0 :=
    fun code h => List.countP_eq_zero.mpr fun j hj => by simp [h j hj]
  have hrollback : ∀ (k : Kernel) (c : Creation) (attached : List Nat),
      (createRollback k r c attached).code.countP (Instr.handles p) = if c.process == p then 1 else 0 := by
    intro k c attached
    unfold createRollback
    rw [List.countP_append, hzero _ (by simp [Instr.handles, Instr.makes, Instr.discards])]
    simp [List.countP_cons, Instr.handles, Instr.makes, Instr.discards]
  have hother : (∀ j, i.comesTo j = true → j.handles p = false) →
      (exec k r i).code.countP (Instr.handles p) ≤ if i.handles p then 1 else 0 := by
    intro h
    rw [hzero _ fun j hj => h j (exec_comesTo k r i j hj)]
    exact Nat.zero_le _
  cases i
  case createProcess args use =>
      rw [hzero _ fun j hj => ?_]
      · exact Nat.zero_le _
      · change _ ∈ (createProcessCode k r args use).code at hj
        change _ ∉ createActs k args at hfresh
        cases createProcess_case k r args use with
        | refused _ code _ _ _ =>
            rw [code, List.mem_singleton] at hj
            rw [hj]
            rfl
        | failed q acts code _ _ _ =>
            have hq : q ≠ p := by
              rintro rfl
              exact hfresh (by simp [acts])
            rw [code] at hj
            rcases List.mem_cons.mp hj with rfl | hj
            · simp [Instr.handles, Instr.makes, Instr.discards, hq]
            · rw [List.mem_singleton.mp hj]
              rfl
        | built q s c targets name acts object code _ _ _ _ _ =>
            have hq : c.process ≠ p := by
              rintro rfl
              exact hfresh (by simp [acts, object])
            rw [code] at hj
            rcases List.mem_cons.mp hj with rfl | hj
            · rfl
            · rw [List.mem_singleton.mp hj]
              simp [Instr.handles, Instr.makes, Instr.discards, hq]
  case createNamed c s name targets =>
      simp only [exec, createNamedCode]
      split <;> simp [List.countP_cons, Instr.handles, Instr.makes, Instr.discards]
  case createAttach c targets attached =>
      cases targets <;> simp [exec, List.countP_cons, Instr.handles, Instr.makes, Instr.discards]
  case createAttached c target targets attached =>
      have hself : (Instr.createAttached c target targets attached).handles p = (c.process == p) := by
        simp [Instr.handles, Instr.makes, Instr.discards]
      rw [hself]
      by_cases hrax : r.rax = 0
      · simp [exec, hrax, List.countP_cons, Instr.handles, Instr.makes, Instr.discards]
      · by_cases hparent : c.args.ppid ≥ PROCESS_FIRST_PID
        · simp only [exec, if_neg hrax, if_pos hparent]
          rw [hrollback]
        · simp [exec, hrax, hparent, List.countP_cons, Instr.handles, Instr.makes, Instr.discards]
  case createRegister c attached =>
      simp only [exec, createRegisterCode]
      split
      · rw [hrollback]
        simp [Instr.handles, Instr.makes, Instr.discards]
      · rw [hzero _ (by simp [Instr.handles, Instr.makes, Instr.discards])]
        exact Nat.zero_le _
  case processFreeMemory q =>
      simp only [exec]
      rw [List.countP_append, hzero _ (by unfold onSem; split <;> simp [Instr.handles, Instr.makes, Instr.discards])]
      simp [List.countP_cons, Instr.handles, Instr.makes, Instr.discards]
  case reapUnregister q =>
      have hq : q ≠ p := fun h => hreap (by rw [h])
      rw [hzero _ (by simp [exec, Instr.handles, Instr.makes, Instr.discards, hq])]
      exact Nat.zero_le _
  all_goals exact hother fun j hj => by cases j <;> first | rfl | cases hj

/-- A creation that has entered the object in the tree leaves it to nobody. -/
theorem createRegister_goesOn {c : Creation} {attached : List Nat} (h : (enterTree k c).1 = true) :
    (exec k r (.createRegister c attached)).code = [.createForeground c] := by
  simp only [exec, createRegisterCode, h, not_true, if_false]

/-! ## Reaps -/

/-- **`process_wait_pid`** returns -1, or goes on to reap the process with that pid. -/
theorem processWaitPid_reaps (k : Kernel) (r : Regs) (pid : Nat) :
    (exec k r (.sys (.processWaitPid pid))).code = [] ∧ (exec k r (.sys (.processWaitPid pid))).r.rax = -1 ∨
      ∃ child, processLookup k pid = some child ∧
        (exec k r (.sys (.processWaitPid pid))).code = [.reapChildProcess child] := by
  simp only [exec, sysCode, processWaitPidCode]
  split
  · next current child _ hchild =>
    split
    · exact .inl ⟨rfl, rfl⟩
    · split
      · exact .inl ⟨rfl, rfl⟩
      · exact .inr ⟨child, hchild, rfl⟩
  · exact .inl ⟨rfl, rfl⟩

/-- **Who is reaped**: a registered process, or one that is `TERMINATED`. -/
theorem exec_reaps (hj : j ∈ (exec k r i).code) (hp : j.reaps p = true) :
    i.reaps p = true ∨ i.mourns p = true ∨ (∃ pid, processLookup k pid = some p) ∨
      schedActs k i = [] ∧ (k.proc p).state = .terminated := by
  have hcomes := exec_comesTo k r i j hj
  cases j <;> try cases hp
  case reapChildProcess q =>
      have hq : q = p := by simpa [Instr.reaps] using hp
      subst hq
      cases i <;> try cases hcomes
      case waitChildrenLoop parent terminated reaped =>
          refine .inr (.inl ?_)
          simp only [exec] at hj
          split at hj
          · simp at hj
          · simp only [Instr.mourns]
            split at hj <;> simp_all
      case initScan self left =>
          refine .inr (.inr (.inr ⟨rfl, ?_⟩))
          have hsame : ∀ cs, ((k.setChildren self cs).proc q).state = (k.proc q).state := fun cs =>
            (FamilyOnly.setChildren k self cs).state q
          simp only [exec, initScanCode] at hj
          split at hj
          · simp at hj
          · split at hj
            · simp at hj
            · next child _ =>
              split at hj
              · next hended =>
                have hq : q = child := by split at hj <;> simpa using hj
                rw [hq] at hsame ⊢
                exact (hsame _).symm.trans hended
              · simp at hj
      case sys c =>
          cases c <;> simp only [exec, sysCode] at hj <;> (try (repeat' split at hj) <;> simp at hj)
          case processWaitPid pid =>
              refine .inr (.inr (.inl ⟨pid, ?_⟩))
              rcases processWaitPid_reaps k r pid with ⟨hcode, -⟩ | ⟨child, hchild, hcode⟩
              · exact absurd (hcode ▸ hj : _ ∈ []) List.not_mem_nil
              · have heq := List.mem_singleton.mp (hcode ▸ hj)
                cases heq
                exact hchild
  case reapUnregister q =>
      cases i <;> try cases hcomes
      case reapChildProcess q' =>
          refine .inl ?_
          simp only [exec, onSem] at hj
          split at hj <;> simp_all [Instr.reaps]

/-- **Who is mourned** has just ended, or is `TERMINATED`. -/
theorem exec_mourns (hj : j ∈ (exec k r i).code) (hp : j.mourns p = true) :
    i.mourns p = true ∨ i = .processExit p ∨ schedActs k i = [] ∧ (k.proc p).state = .terminated := by
  have hcomes := exec_comesTo k r i j hj
  cases j <;> try cases hp
  case exitSemPost q =>
      cases i <;> try cases hcomes
      case processExit q' =>
          refine .inr (.inl ?_)
          simp only [exec] at hj
          split at hj <;> simp_all [Instr.mourns]
  case waitChildrenLoop parent terminated reaped =>
      have hmem : p ∈ terminated := by simpa [Instr.mourns] using hp
      cases i <;> try cases hcomes
      case waitChildrenLoop parent' terminated' reaped' =>
          refine .inl ?_
          simp only [exec] at hj
          split at hj
          · simp at hj
          · simp only [Instr.mourns]
            split at hj <;> simp_all
      case sys c =>
          cases c <;> simp only [exec, sysCode] at hj <;> (try (repeat' split at hj) <;> simp at hj <;> done)
          case processWaitChildren =>
              refine .inr (.inr ⟨rfl, ?_⟩)
              split at hj
              · simp at hj
              · next current _ =>
                simp only [List.mem_singleton, Instr.waitChildrenLoop.injEq] at hj
                obtain ⟨-, rfl, -⟩ := hj
                have hchild := List.mem_of_mem_take hmem
                simp only [List.mem_filter, Bool.and_eq_true, decide_eq_true_eq] at hchild
                exact hchild.2.2
          case processWaitPid pid =>
              simp only [processWaitPidCode] at hj
              (repeat' split at hj) <;> simp at hj

/-- **A `sem_wait` goes on** until it returns 0, unless nobody is current. -/
theorem exec_awaits {s : Addr} (hi : i.awaits s = true) :
    (∃ j ∈ (exec k r i).code, j.awaits s = true) ∨ i = .semWaitReturn s 0 ∨
      i = .semWaitLocked s ∧ (k.sem s).count = 0 ∧ k.current = none := by
  cases i <;> try cases hi
  case semWait t =>
      exact .inl ⟨.semWaitLocked t, by simp [exec], hi⟩
  case semWaitLocked t =>
      have ht : t = s := by simpa [Instr.awaits] using hi
      subst ht
      by_cases hcount : 0 < (k.sem t).count
      · refine .inl ⟨.semWaitReturn t 0, ?_, by simp [Instr.awaits]⟩
        simp [exec, semWaitBody, hcount]
      · cases hc : k.current with
        | none => exact .inr (.inr ⟨rfl, by omega, rfl⟩)
        | some c =>
            refine .inl ⟨.semWaitReturn t 0, ?_, by simp [Instr.awaits]⟩
            simp [exec, semWaitBody, hcount, hc]
  case semWaitReturn t ret =>
      refine .inr (.inl ?_)
      simp only [Instr.awaits, Bool.and_eq_true, beq_iff_eq] at hi
      rw [hi.1, hi.2]

end Exec

end TpSo
