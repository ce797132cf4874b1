import TpSo.Machine.Terminated
import TpSo.Machine.Uninterrupted
import TpSo.Sem.Tokens

set_option autoImplicit false

/-! # No wake-up is lost

A semaphore with tokens has nobody in its queue, so a waiter in the queue is one for whom a `sem_post`
is still to come, and a `sem_post` wakes the oldest waiter that is asleep. Three operations could break
this: `sem_post`, which drops waiters that are not asleep, `sem_set_value`, which lowers the count after
it has given up the lock under which it read it, and `sem_init`, which finds in the memory of a new
object whatever was there before. -/

namespace TpSo

/-- **No wake-up is lost**: while there are tokens, nobody is in the queue. -/
def WakeUp (k : Kernel) (s : Addr) : Prop := 0 < (k.sem s).count → waiters k s = []

/-- Code that adds neither tokens nor waiters. -/
theorem WakeUp.of_le {k k' : Kernel} {s : Addr} (h : WakeUp k s)
    (hcount : (k'.sem s).count ≤ (k.sem s).count) (hw : (waiters k' s).Sublist (waiters k s)) :
    WakeUp k' s := by
  intro hpos
  rw [h (lt_of_lt_of_le hpos hcount)] at hw
  exact List.sublist_nil.mp hw

theorem WakeUp.of_sem {k k' : Kernel} {s : Addr} (h : WakeUp k s) (hs : k'.sem s = k.sem s) :
    WakeUp k' s := by
  refine h.of_le (le_of_eq (by rw [hs])) ?_
  unfold waiters
  rw [hs]

/-! ## `sem_set_value` -/

/-- Is the instruction a part of `sem_set_value`, or a system call that may come to one? -/
def Instr.setsValue : Instr → Bool
  | .semReadValue _ _ | .semStoreValue _ _ | .sys _ => true
  | _ => false

/-- **All other code** has no part of `sem_set_value` in it. -/
theorem exec_setsValue (k : Kernel) (r : Regs) {i : Instr} (hi : i.setsValue = false) :
    ∀ j ∈ (exec k r i).code, j.setsValue = false := by
  intro j hj
  have hcomes := exec_comesTo k r i j hj
  cases j <;> first | rfl | cases i <;> first | cases hi; done | cases hcomes

/-- The second half of a `sem_set_value` that lowers the count follows on its first half. -/
theorem exec_stores {k : Kernel} {r : Regs} {i : Instr} {s : Addr} {v : Nat}
    (h : .semStoreValue s v ∈ (exec k r i).code) :
    i = .semReadValue s v ∧ v < (k.sem s).count ∧
      (exec k r i).code = [.semLock s, .semStoreValue s v] := by
  by_cases hi : i.setsValue = false
  · exact absurd (exec_setsValue k r hi _ h) (by simp [Instr.setsValue])
  · cases i with
    | semReadValue t value =>
      simp only [exec] at h ⊢
      split at h
      · simp at h
      · next hle =>
        split at h
        · next hlt =>
          obtain ⟨rfl, rfl⟩ : s = t ∧ v = value := by simpa using h
          exact ⟨rfl, hlt, by rw [if_neg hle, if_pos hlt]⟩
        · cases h
    | semStoreValue t value => cases h
    | sys c =>
      cases c <;> simp only [exec, sysCode, processWaitPidCode] at h <;> (repeat' split at h) <;>
        simp at h
    | _ => exact absurd rfl hi

namespace Machine

/-- No system call and no part of `sem_set_value` outside the handlers. -/
def QuietBases (m : Machine) : Prop := ∀ t, ∀ i ∈ (m.threads t).base, i.setsValue = false

/-- The code has no second half of a `sem_set_value` on `s` in it. -/
def StoreFree (s : Addr) (code : List Instr) : Prop := ∀ v, .semStoreValue s v ∉ code

/-- A `sem_set_value` on `s` that lowers the count is between its halves on the running stack, or there
    is none. -/
inductive Lowering (m : Machine) (s : Addr) : Prop
  | none (code : ∀ t, StoreFree s (m.code t))
  | locking (v : Nat) (rest : List Instr)
      (sys : (m.threads m.cpu).sys = .semLock s :: .semStoreValue s v :: rest)
      (rest : StoreFree s (rest ++ (m.threads m.cpu).base))
      (others : ∀ t, t ≠ m.cpu → StoreFree s (m.code t))
  | storing (v : Nat) (rest : List Instr)
      (sys : (m.threads m.cpu).sys = .semStoreValue s v :: rest)
      (rest : StoreFree s (rest ++ (m.threads m.cpu).base))
      (others : ∀ t, t ≠ m.cpu → StoreFree s (m.code t))

section Lowering
variable {m m' : Machine} {a : Action} {s : Addr}

theorem QuietBases.setThread (h : QuietBases m) {t : Thread} (ht : ∀ i ∈ t.base, i.setsValue = false) :
    QuietBases (m.setThread t) := by
  intro a
  simp only [Machine.setThread, Function.update_apply]
  split
  · exact ht
  · exact h a

/-- The running thread goes on. -/
theorem QuietBases.advance (h : QuietBases m) {code : List Instr}
    (hcode : (m.threads m.cpu).sys = [] → ∀ i ∈ code, i.setsValue = false) :
    ∀ i ∈ (m.advance code).base, i.setsValue = false := by
  have hbase := h m.cpu
  unfold Machine.advance Machine.thread
  intro i hi
  cases hsys : (m.threads m.cpu).sys with
  | cons j sys =>
    rw [hsys] at hi
    exact hbase i hi
  | nil =>
    rw [hsys] at hi
    rcases List.mem_append.mp hi with hi | hi
    · exact hcode hsys i hi
    · exact hbase i (List.mem_of_mem_tail hi)

/-- **Step lemma.** -/
theorem QuietBases.step (h : QuietBases m) (hs : m.step a = some m') : QuietBases m' := by
  have hnil : ∀ i ∈ ([] : List Instr), i.setsValue = false := fun i hi => absurd hi List.not_mem_nil
  cases a with
  | exec =>
    obtain ⟨i, hn, -, rfl⟩ := step_exec hs
    by_cases hi : i = .int20
    · subst hi
      exact h.setThread (h.advance fun _ => hnil)
    · have hcode : (m.threads m.cpu).sys = [] →
          ∀ j ∈ (exec m.k m.thread.regs i).code, j.setsValue = false := by
        intro hsys
        refine exec_setsValue _ _ (h m.cpu i ?_)
        unfold next thread at hn
        rw [hsys] at hn
        cases hb : (m.threads m.cpu).base with
        | nil =>
          rw [hb] at hn
          cases hn
        | cons y rest =>
          rw [hb] at hn
          cases hn
          exact List.mem_cons_self
      rw [m.execInstr_eq hi]
      -- the code an instruction leaves goes to its own stack, and a new process starts with `user`
      have hset : QuietBases (m.setThread { m.advance (exec m.k m.thread.regs i).code with
          regs := (exec m.k m.thread.regs i).r }) := h.setThread (h.advance hcode)
      intro t j hj
      cases hsp : (exec m.k m.thread.regs i).spawn with
      | none =>
        rw [hsp] at hj
        exact hset t j hj
      | some x =>
        rw [hsp] at hj
        simp only [spawn, Function.update_apply] at hj
        split at hj
        · rw [(exec_spawn hsp).1] at hj
          cases List.mem_singleton.mp hj
          rfl
        · exact hset t j hj
  | tick =>
    obtain ⟨-, rfl⟩ := step_tick hs
    exact h
  | syscall c =>
    obtain ⟨-, -, -, rfl⟩ := step_syscall hs
    exact h.setThread (h m.cpu)
  | ret =>
    obtain ⟨-, -, rfl⟩ := step_ret hs
    exact h.setThread (h.advance fun _ => hnil)
  | exception =>
    obtain ⟨-, -, rfl⟩ := step_exception hs
    exact h.setThread (h m.cpu)
  | key e =>
    obtain ⟨-, rfl⟩ := step_key hs
    exact h.setThread (h m.cpu)

/-- No interrupt handler starts with a part of `sem_set_value`. -/
theorem entered_storeFree (m : Machine) (a : Action) (s : Addr) : StoreFree s (m.entered a) := by
  intro v hv
  cases a with
  | syscall c => simp [entered] at hv
  | exception =>
    simp only [entered, exceptionCode] at hv
    split at hv <;> simp at hv
  | key e =>
    cases e <;> simp only [entered, keyHandler, keyCode] at hv <;> (repeat' split at hv) <;> simp at hv
  | _ => cases hv

/-- **Step lemma.** -/
theorem Lowering.step (h : Lowering m s) (hb : QuietBases m) (hs : m.step a = some m') :
    Lowering m' s := by
  cases h with
  | none hcode =>
    by_cases hread : ∃ i v, m.Executes a i ∧ .semStoreValue s v ∈ (exec m.k m.thread.regs i).code
    · -- the first half of a `sem_set_value`, which is code of a handler
      obtain ⟨i, v, ⟨rfl, hn⟩, hv⟩ := hread
      obtain ⟨rfl, -, hnew⟩ := exec_stores hv
      obtain ⟨rest, hsys⟩ : ∃ rest, (m.threads m.cpu).sys = .semReadValue s v :: rest := by
        unfold next thread at hn
        cases hsys : (m.threads m.cpu).sys with
        | cons j sys =>
          rw [hsys] at hn
          cases hn
          exact ⟨sys, rfl⟩
        | nil =>
          rw [hsys] at hn
          cases hbase : (m.threads m.cpu).base with
          | nil =>
            rw [hbase] at hn
            cases hn
          | cons j base =>
            rw [hbase] at hn
            cases hn
            have hquiet := hb m.cpu (.semReadValue s v) (hbase ▸ List.mem_cons_self)
            cases hquiet
      obtain ⟨-, rfl⟩ := step_of_sys hsys hs
      obtain ⟨hcpu, hsys', hbase'⟩ := execInstr_plain hsys rfl
      have hself := hcode m.cpu
      unfold code at hself
      rw [hsys] at hself
      refine .locking v rest ?_ ?_ fun t ht => ?_
      · rw [hcpu, hsys', hnew]
        rfl
      · rw [hcpu, hbase']
        exact fun w hw => hself w (.tail _ hw)
      · rw [hcpu] at ht
        rw [execInstr_others rfl ht]
        exact hcode t
    · refine .none fun t v hv => ?_
      rcases step_code hs hv with hold | ⟨i, hi, hnew⟩ | he | hin
      · exact hcode t v hold
      · exact hread ⟨i, v, hi, hnew⟩
      · cases he
      · exact entered_storeFree m a s v hin
  -- whether `sem_lock` takes the lock or spins, the code behind it is the same
  | locking v rest hsys hrest hothers =>
    obtain ⟨-, rfl⟩ := step_of_sys hsys hs
    obtain ⟨hcpu, hsys', hbase'⟩ := execInstr_plain hsys rfl
    have hothers' : ∀ t, t ≠ (m.execInstr (.semLock s)).cpu →
        StoreFree s ((m.execInstr (.semLock s)).code t) := by
      intro t ht
      rw [hcpu] at ht
      rw [execInstr_others rfl ht]
      exact hothers t ht
    have hrest' : StoreFree s (rest ++ ((m.execInstr (.semLock s)).threads
        (m.execInstr (.semLock s)).cpu).base) := by
      rw [hcpu, hbase']
      exact hrest
    by_cases hlock : (m.k.sem s).lock
    · refine .locking v rest ?_ hrest' hothers'
      rw [hcpu, hsys']
      simp [exec, hlock]
    · refine .storing v rest ?_ hrest' hothers'
      rw [hcpu, hsys']
      simp [exec, hlock]
  -- the store itself: no other one is left, since the rest of the handler holds none
  | storing v rest hsys hrest hothers =>
    obtain ⟨-, rfl⟩ := step_of_sys hsys hs
    obtain ⟨hcpu, hsys', hbase'⟩ := execInstr_plain hsys rfl
    refine .none fun t => ?_
    by_cases ht : t = m.cpu
    · subst ht
      unfold code
      rw [hsys', hbase']
      exact hrest
    · rw [execInstr_others rfl ht]
      exact hothers t ht

end Lowering

end Machine

/-! ## `sem_init` -/

/-- What becomes of the semaphores where those in `ss` are initialised. One that got no memory for its
    name has only lost its name; one that did has an empty queue. -/
def Renews (k k' : Kernel) (ss : List Addr) : Prop :=
  ∀ t, (k'.sem t = k.sem t ∧ t ∉ ss) ∨ waiters k' t = [] ∨ k'.sem t = { k.sem t with name := none }

namespace Renews

variable {k k' k'' : Kernel} {ss ss' : List Addr}

theorem of_sem (h : k'.sem = k.sem) : Renews k k' [] := fun t => .inl ⟨by rw [h], List.not_mem_nil⟩

theorem trans (h : Renews k k' ss) (h' : Renews k' k'' ss') : Renews k k'' (ss' ++ ss) := by
  intro t
  rcases h' t with ⟨hsem', hnot'⟩ | hempty' | hname'
  · have hw : waiters k'' t = waiters k' t := by
      unfold waiters
      rw [hsem']
    rcases h t with ⟨hsem, hnot⟩ | hempty | hname
    · exact .inl ⟨hsem'.trans hsem, fun hin => (List.mem_append.mp hin).elim hnot' hnot⟩
    · exact .inr (.inl (hw.trans hempty))
    · exact .inr (.inr (hsem'.trans hname))
  · exact .inr (.inl hempty')
  · have hw : waiters k'' t = waiters k' t := by
      unfold waiters
      rw [hname']
    rcases h t with ⟨hsem, -⟩ | hempty | hname
    · exact .inr (.inr (by rw [hname', hsem]))
    · exact .inr (.inl (hw.trans hempty))
    · exact .inr (.inr (by rw [hname', hname]))

/-- Work that leaves the semaphores alone, before and after. -/
theorem frame {j j' : Kernel} (h : Renews k k' ss) (hj : k.sem = j.sem) (hj' : j'.sem = k'.sem) :
    Renews j j' ss := by
  intro t
  unfold waiters
  rw [← hj, hj']
  exact h t

theorem wakeUp (h : Renews k k' ss) {t : Addr} (hw : WakeUp k t) : WakeUp k' t := by
  rcases h t with ⟨hsem, -⟩ | hempty | hname
  · exact hw.of_sem hsem
  · exact fun _ => hempty
  · unfold WakeUp waiters at hw ⊢
    rw [hname]
    exact hw

/-- An initialised semaphore with a name has nobody in its queue. -/
theorem empty (h : Renews k k' ss) {s : Addr} (hs : s ∈ ss) (hname : (k'.sem s).name ≠ none) :
    waiters k' s = [] := by
  rcases h s with ⟨-, hnot⟩ | hempty | hunnamed
  · exact absurd hs hnot
  · exact hempty
  · rw [hunnamed] at hname
    exact absurd rfl hname

end Renews

theorem semInitFields_renews (k : Kernel) (s : Addr) (name : Name) (count : Nat) :
    Renews k (semInitFields k s name count).2 [s] := by
  have hother := (semInitFields_inits k s name count).other
  intro t
  by_cases ht : t = s
  · subst ht
    refine .inr ?_
    have hregistry : (ensureRegistry k).sem = k.sem := by
      unfold ensureRegistry
      split <;> rfl
    unfold semInitFields
    dsimp only
    split
    · refine .inl ?_
      unfold waiters
      simp only [Kernel.modSem, Function.update_self, Sem.start, queueCreate]
      split <;> rfl
    · refine .inr ?_
      rw [← hregistry]
      exact Function.update_self ..
  · exact .inl ⟨hother t ht, by simpa using ht⟩

theorem semInit_renews (k : Kernel) (s : Addr) (name : Name) (count : Nat) :
    Renews k (semInit k s name count) [s] := by
  have hfields := semInitFields_renews k s name count
  unfold semInit
  dsimp only
  split
  · exact hfields.frame rfl (registerSem_sem _ s name)
  · exact hfields

theorem openPipe_renews (k : Kernel) (r : Regs) : ∃ ss, Renews k (openPipeCode k r).k ss ∧
    ∀ s n, .semInit s n ∈ (openPipeCode k r).events → s ∈ ss := by
  have hinit : ∀ (k : Kernel) (s : Addr) (name : Name) (n : Nat),
      Renews k (semInit (k.grant s .semaphore) s name n) [s] := fun k s name n =>
    (semInit_renews (k.grant s .semaphore) s name n).frame rfl rfl
  unfold openPipeCode
  dsimp only
  split
  · exact ⟨[], .of_sem rfl, fun s n h => absurd h List.not_mem_nil⟩
  · rcases memAlloc_cases k .pipe with h | ⟨a, -, -, h⟩ <;> rw [h] <;> dsimp only
    · exact ⟨[], .of_sem rfl, fun s n h => absurd h List.not_mem_nil⟩
    · rcases memAlloc_cases (k.grant a .pipe) .semaphore with h | ⟨s, -, -, h⟩ <;> rw [h] <;>
        dsimp only
      · exact ⟨[], .of_sem rfl, fun s n h => absurd h List.not_mem_nil⟩
      · have h1 : Renews k _ [s] := (hinit (k.grant a .pipe) s (semName k.nextPipeId 'R') 0).frame rfl rfl
        split
        · exact ⟨[], .of_sem rfl, fun s n h => absurd h List.not_mem_nil⟩
        rcases memAlloc_cases (semInit ((k.grant a .pipe).grant s .semaphore) s
          (semName k.nextPipeId 'R') 0) .semaphore with h | ⟨t, -, -, h⟩ <;> rw [h] <;> dsimp only
        · refine ⟨[s], h1.frame rfl rfl, fun x n hx => ?_⟩
          simp only [initEvent, List.mem_singleton, Event.semInit.injEq] at hx
          simp [hx.1]
        · have h2 := h1.trans (hinit _ t (semName k.nextPipeId 'W') 0)
          split
          · exact ⟨[], .of_sem rfl, fun s n h => absurd h List.not_mem_nil⟩
          rcases memAlloc_cases (semInit ((semInit ((k.grant a .pipe).grant s .semaphore) s
            (semName k.nextPipeId 'R') 0).grant t .semaphore) t (semName k.nextPipeId 'W') 0)
            .semaphore with h | ⟨u, -, -, h⟩ <;> rw [h] <;> dsimp only
          · refine ⟨_, h2.frame rfl rfl, fun x n hx => ?_⟩
            simp only [initEvent, List.mem_cons, List.not_mem_nil, or_false, Event.semInit.injEq] at hx
            rcases hx with hx | hx <;> simp [hx.1]
          split
          · exact ⟨[], .of_sem rfl, fun s n h => absurd h List.not_mem_nil⟩
          · refine ⟨_, (h2.trans (hinit _ u (semName k.nextPipeId 'M') 1)).frame rfl rfl, fun x n hx => ?_⟩
            simp only [initEvent, List.mem_cons, List.not_mem_nil, or_false, Event.semInit.injEq,
              reduceCtorEq, false_or] at hx
            rcases hx with hx | hx | hx <;> simp [hx.1]

/-- Until its exit semaphore is allocated the object has none. -/
theorem buildProcess_renews (k : Kernel) (p pid : Nat) (args : CreateArgs) :
    Renews k (buildProcess k p pid args).2
      (((buildProcess k p pid args).2.proc p).exitSem.toList) := by
  have hargv : ∀ k : Kernel, ((allocArgv k p args.argc).2.proc p).exitSem = (k.proc p).exitSem := by
    intro k
    unfold allocArgv
    rcases memAlloc_cases k .bytes with h | ⟨a, -, -, h⟩ <;> rw [h] <;> dsimp only
    · rfl
    · rw [allocArgs_kernel]
      simp [Kernel.modProc, Process.setArgv, Kernel.grant, Kernel.allocNext]
  have hstack : ∀ k : Kernel, ((allocStack k p).2.proc p).exitSem = (k.proc p).exitSem := by
    intro k
    unfold allocStack
    rcases memAlloc_cases k .bytes with h | ⟨a, -, -, h⟩ <;> rw [h]
    · rfl
    · simp [Kernel.modProc, Process.setStack, Kernel.grant, Kernel.allocNext]
  have hnone : ∀ k' : Kernel, k'.sem = k.sem → (k'.proc p).exitSem = none →
      Renews k k' ((k'.proc p).exitSem.toList) := by
    intro k' hsem he
    rw [he]
    exact .of_sem hsem
  unfold buildProcess
  dsimp only
  split
  · exact hnone _ rfl (by simp [Kernel.modProc, newProcess])
  -- `newProcess` clears `exit_sem`, and the allocations before the last one leave it so
  · set k1 := (k.modProc p (fun _ => newProcess pid args)).modProc p _ with hk1
    have hfresh : (k1.proc p).exitSem = none := by
      simp [hk1, Kernel.modProc, Process.setTargets, newProcess]
    split
    · exact hnone _ (allocArgv_sem k1 p args.argc) ((hargv k1).trans hfresh)
    · set k2 := (allocArgv k1 p args.argc).2 with hk2
      have hsem2 : k2.sem = k.sem := allocArgv_sem k1 p args.argc
      have hfresh2 : (k2.proc p).exitSem = none := (hargv k1).trans hfresh
      split
      · exact hnone _ ((allocStack_sem k2 p).trans hsem2) ((hstack k2).trans hfresh2)
      · set k3 := (allocStack k2 p).2 with hk3
        have hsem3 : k3.sem = k.sem := (allocStack_sem k2 p).trans hsem2
        unfold allocExitSem
        rcases memAlloc_cases k3 .semaphore with h | ⟨s, -, -, h⟩ <;> rw [h] <;> dsimp only
        · exact hnone _ hsem3 ((hstack k2).trans hfresh2)
        · set k4 := (k3.grant s .semaphore).modProc p (Process.setExitSem s) with hk4
          have hself : ((semInitFields k4 s (exitSemName pid) 0).2.proc p).exitSem = some s := by
            rw [(semInitFields_inits k4 s (exitSemName pid) 0).kernel]
            simp [hk4, Kernel.modProc, Process.setExitSem]
          rw [hself]
          exact (semInitFields_renews k4 s (exitSemName pid) 0).frame hsem3 rfl

theorem createProcess_renews (k : Kernel) (r : Regs) (args : CreateArgs) (use : CreateUse) :
    ∃ ss, Renews k (createProcessCode k r args use).k ss ∧
      ∀ s n, .semInit s n ∈ (createProcessCode k r args use).events → s ∈ ss := by
  have hnone : ∀ k' : Kernel, k'.sem = k.sem → ∃ ss, Renews k k' ss ∧
      ∀ s n, .semInit s n ∈ ([] : List Event) → s ∈ ss := fun k' hsem =>
    ⟨[], .of_sem hsem, fun s n h => absurd h List.not_mem_nil⟩
  unfold createProcessCode
  split
  · exact hnone k rfl
  · split
    · exact hnone k rfl
    · dsimp only
      rcases memAlloc_cases k .process with h | ⟨p, -, -, h⟩ <;> rw [h]
      · exact hnone _ rfl
      · have hbuilt := buildProcess_renews (k.grant p .process) p (allocatePid k) args
        have hevents : ∀ s n, .semInit s n ∈
            (((buildProcess (k.grant p .process) p (allocatePid k) args).2.proc p).exitSem.toList).map
              (initEvent (buildProcess (k.grant p .process) p (allocatePid k) args).2) →
            s ∈ ((buildProcess (k.grant p .process) p (allocatePid k) args).2.proc p).exitSem.toList := by
          intro s n hs
          obtain ⟨t, ht, he⟩ := List.mem_map.mp hs
          simp only [initEvent, Event.semInit.injEq] at he
          exact he.1 ▸ ht
        dsimp only
        split
        · exact ⟨_, hbuilt.frame rfl rfl, hevents⟩
        · exact ⟨_, hbuilt.frame rfl rfl, hevents⟩

theorem semOpen_renews (k : Kernel) (r : Regs) (name : Name) (count : Nat) (create : Bool) :
    ∃ ss, Renews k (sysCode k r (.semOpen name count create)).k ss ∧
      ∀ s n, .semInit s n ∈ (sysCode k r (.semOpen name count create)).events → s ∈ ss := by
  simp only [sysCode]
  split
  · exact ⟨[], .of_sem rfl, fun s n h => absurd h List.not_mem_nil⟩
  split
  · exact ⟨[], .of_sem rfl, fun s n h => absurd h List.not_mem_nil⟩
  · split
    · exact ⟨[], .of_sem rfl, fun s n h => absurd h List.not_mem_nil⟩
    · rcases memAlloc_cases k .userSemaphore with h | ⟨s, -, -, h⟩ <;> rw [h] <;> dsimp only
      · exact ⟨[], .of_sem rfl, fun s n h => absurd h List.not_mem_nil⟩
      · refine ⟨[s], (semInit_renews (k.grant s .userSemaphore) s name count).frame rfl rfl, ?_⟩
        intro t n ht
        simp only [initEvent, List.mem_singleton, Event.semInit.injEq] at ht
        simp [ht.1]

/-- **An instruction that initialises a semaphore** initialises all those it says, and leaves the
    others alone. -/
theorem exec_renews {k : Kernel} {r : Regs} {i : Instr} {s : Addr}
    (h : ∃ e ∈ (exec k r i).events, e.inits s ≠ none) :
    ∃ ss, Renews k (exec k r i).k ss ∧ ∀ s n, .semInit s n ∈ (exec k r i).events → s ∈ ss := by
  obtain ⟨e, he, hne⟩ := h
  by_cases hk : i.keepsBooks = false
  · exact absurd (exec_unrelated k r hk s e he).1 hne
  · cases i
    case createProcess args use => exact createProcess_renews k r args use
    case openPipe => exact openPipe_renews k r
    case sys c =>
        cases c <;> try exact absurd rfl hk
        exact semOpen_renews k r _ _ _
    case semWaitReturn t ret =>
        simp only [exec, List.mem_singleton] at he
        subst he
        exact absurd rfl hne
    case semPostLocked t =>
        simp only [exec, List.mem_singleton] at he
        subst he
        exact absurd rfl hne
    case exitSemPost p =>
        simp only [exec] at he
        split at he
        · cases he
        · simp only [List.mem_singleton] at he
          subst he
          exact absurd rfl hne
    all_goals exact absurd rfl hk

/-! ## All instructions -/

/-- The semaphore after a `sem_post` on it. -/
theorem exec_posted {k : Kernel} {r : Regs} {i : Instr} {s : Addr} (h : PostsOn k i s) :
    (exec k r i).k.sem s = postedSem k s := by
  rw [(exec_postsOn r h).1, sem_of_outside (semPostBody_outside k s)]
  exact Function.update_self ..

/-- **Every instruction** keeps the wake-ups of every semaphore, but for a `sem_set_value` that stores
    a count where somebody waits. -/
theorem exec_wakeUp {k : Kernel} {r : Regs} {i : Instr} {s : Addr} (h : WakeUp k s)
    (hstore : ∀ v, i = .semStoreValue s v → waiters k s = []) : WakeUp (exec k r i).k s := by
  -- an instruction that adds no tokens adds no waiters as long as there are tokens
  have hfewer : ((exec k r i).k.sem s).count ≤ (k.sem s).count → WakeUp (exec k r i).k s := by
    intro hcount hpos
    have hw : ∀ p, ¬ WaitsOn k i s p := fun p hp => by
      have hzero := hp.2.1
      omega
    exact (h.of_le hcount (exec_waiters_sublist r hw)) hpos
  cases exec_books k r i s with
  | still _ _ count => exact hfewer count
  | took _ _ _ count => exact hfewer (by omega)
  | waits _ _ _ _ _ _ count => exact fun hpos => absurd hpos (by omega)
  | returned _ _ _ count => exact hfewer (le_of_eq count)
  | posted instr _ _ count =>
    have hpost := exec_posted (r := r) instr
    cases hf : firstBlocked k (waiters k s) with
    | some w =>
      rw [hf] at count
      exact hfewer count
    | none =>
      intro _
      unfold waiters
      rw [hpost, postedSem, hf]
      cases (k.sem s).waitingProcesses <;> rfl
  | inited _ init _ _ =>
    obtain ⟨ss, hss, -⟩ := exec_renews init
    exact hss.wakeUp h
  | stored v instr _ _ _ =>
    intro _
    subst instr
    have hw := exec_waiters_sublist (k := k) r (i := .semStoreValue s v) (s := s) fun p hp => by
      cases hp.1
    rw [hstore v rfl] at hw
    exact List.sublist_nil.mp hw

/-! ## Every step -/

namespace Machine

variable {m m' : Machine} {a : Action} {s : Addr}

/-- The semaphores after a step are those after the instruction it executes. -/
theorem step_sem (hs : m.step a = some m') :
    (∃ i, m.Executes a i ∧ m'.k.sem = (exec m.k m.thread.regs i).k.sem) ∨ m'.k.sem = m.k.sem := by
  cases a with
  | exec =>
    obtain ⟨i, hn, -, rfl⟩ := step_exec hs
    by_cases hi : i = .int20
    · subst hi
      exact .inr (sem_of_outside (scheduleTick_outside m.k m.cpu))
    · exact .inl ⟨i, ⟨rfl, hn⟩, by rw [m.execInstr_k hi]⟩
  | tick =>
    obtain ⟨-, rfl⟩ := step_tick hs
    refine .inr ((sem_of_outside (scheduleTick_outside (timerHandler m.k) m.cpu)).trans ?_)
    exact (timerHandler_objects m.k).sem
  | syscall c =>
    obtain ⟨-, -, -, rfl⟩ := step_syscall hs
    exact .inr rfl
  | ret =>
    obtain ⟨-, -, rfl⟩ := step_ret hs
    exact .inr rfl
  | exception =>
    obtain ⟨-, -, rfl⟩ := step_exception hs
    exact .inr rfl
  | key e =>
    obtain ⟨-, rfl⟩ := step_key hs
    exact .inr rfl

/-- The invariant: no wake-up is lost, also by a `sem_set_value` under way. -/
structure Waking (m : Machine) (s : Addr) : Prop where
  bases : QuietBases m
  lowering : Lowering m s
  wakeUp : WakeUp m.k s
  lowered : ∀ t, ¬ StoreFree s (m.code t) → waiters m.k s = []

/-- Between its halves the `sem_set_value` has the processor. -/
theorem Lowering.executes (h : Lowering m s) {t : Addr} (ht : ¬ StoreFree s (m.code t))
    {i : Instr} (hi : m.next = some i) : i = .semLock s ∨ ∃ v, i = .semStoreValue s v := by
  cases h with
  | none code => exact absurd (code t) ht
  | locking v rest sys _ _ =>
    cases (next_of_sys sys).symm.trans hi
    exact .inl rfl
  | storing v rest sys _ _ =>
    cases (next_of_sys sys).symm.trans hi
    exact .inr ⟨v, rfl⟩

/-- **Step lemma.** -/
theorem Waking.step (h : Waking m s) (hs : m.step a = some m') : Waking m' s := by
  have hsame : m'.k.sem = m.k.sem → waiters m'.k s = waiters m.k s := fun hsem => by
    unfold waiters
    rw [hsem]
  refine ⟨h.bases.step hs, h.lowering.step h.bases hs, ?_, fun t ht => ?_⟩
  · rcases step_sem hs with ⟨i, hi, hsem⟩ | hsem
    · have hwake := exec_wakeUp (r := m.thread.regs) h.wakeUp (i := i) fun v hv => by
        subst hv
        obtain ⟨rest, hcode, -⟩ := code_of_next hi.2
        exact h.lowered m.cpu fun hfree => hfree v (hcode ▸ List.mem_cons_self)
      exact hwake.of_sem (by rw [hsem])
    · exact h.wakeUp.of_sem (by rw [hsem])
  · -- the second half of a `sem_set_value` was there before, or its first half has just read the count
    unfold StoreFree at ht
    push Not at ht
    obtain ⟨v, hv⟩ := ht
    have hold : ∀ i, m.Executes a i → (∀ p, ¬ WaitsOn m.k i s p) → waiters m.k s = [] →
        m'.k.sem = (exec m.k m.thread.regs i).k.sem → waiters m'.k s = [] := by
      intro i _ hno hempty hsem
      have hsub := exec_waiters_sublist m.thread.regs hno
      rw [hempty] at hsub
      unfold waiters at hsub ⊢
      rw [hsem]
      exact List.sublist_nil.mp hsub
    rcases step_code hs hv with hcode | ⟨i, hi, hnew⟩ | he | hin
    · have hfree : ¬ StoreFree s (m.code t) := fun hfree => hfree v hcode
      rcases step_sem hs with ⟨i, hi, hsem⟩ | hsem
      · refine hold i hi (fun p hp => ?_) (h.lowered t hfree) hsem
        rcases h.lowering.executes hfree hi.2 with rfl | ⟨w, rfl⟩ <;> cases hp.1
      · rw [hsame hsem]
        exact h.lowered t hfree
    · obtain ⟨rfl, hlt, -⟩ := exec_stores hnew
      rcases step_sem hs with ⟨j, hj, hsem⟩ | hsem
      · cases hi.2.symm.trans hj.2
        exact hold _ hi (fun p hp => by cases hp.1) (h.wakeUp (Nat.zero_lt_of_lt hlt)) hsem
      · rw [hsame hsem]
        exact h.wakeUp (Nat.zero_lt_of_lt hlt)
    · cases he
    · exact absurd hin (entered_storeFree m a s v)

/-- **Run lemma.** -/
theorem Waking.run {bs : List Action} (h : Waking m s) (hs : m.run bs = some m') : Waking m' s :=
  (run_guarded hs).invariant (fun m => Waking m s) (fun _ _ _ hi _ hs => hi.step hs) h

/-- After a step that initialises the semaphore. -/
theorem Waking.inited (hb : QuietBases m) (hl : Lowering m s) (hi : m.Inits a s)
    (hs : m.step a = some m') (hname : (m'.k.sem s).name ≠ none) : Waking m' s := by
  obtain ⟨i, hex, e, he, hne⟩ := hi
  obtain ⟨ss, hrenews, hmem⟩ := exec_renews ⟨e, he, hne⟩
  have hss : s ∈ ss := by
    cases e with
    | semInit t n =>
      have hts : t = s := by
        by_contra hts
        exact hne (if_neg hts)
      exact hmem s n (hts ▸ he)
    | _ => exact absurd rfl hne
  have hexec : i ≠ .int20 := by
    rintro rfl
    cases he
  have hsem : m'.k.sem = (exec m.k m.thread.regs i).k.sem := by
    obtain ⟨rfl, hn⟩ := hex
    obtain ⟨j, hj, -, rfl⟩ := step_exec hs
    cases hn.symm.trans hj
    rw [m.execInstr_k hexec]
  have hempty : waiters m'.k s = [] := by
    have hw := hrenews.empty hss (hsem ▸ hname)
    unfold waiters at hw ⊢
    rw [hsem]
    exact hw
  exact ⟨hb.step hs, hl.step hb hs, fun _ => hempty, fun _ _ => hempty⟩

end Machine

/-! ## `sem_post` -/

/-- What a `sem_post` does: it wakes the process of the oldest entry that is asleep, with that entry
    and those before it gone; or nobody is asleep, and there is a token more and no entry. -/
def PostWakes (k k' : Kernel) (s : Addr) : Prop :=
  (∃ before w after, waiters k s = before ++ w :: after ∧
    (∀ p ∈ before, (k.proc p).state ≠ .blocked) ∧ (k.proc w).state = .blocked ∧
    (k'.proc w).state = .ready ∧ (∀ p, p ≠ w → (k'.proc p).state = (k.proc p).state) ∧
    waiters k' s = after ∧ (k'.sem s).count = (k.sem s).count) ∨
  ((∀ p ∈ waiters k s, (k.proc p).state ≠ .blocked) ∧
    (∀ p, (k'.proc p).state = (k.proc p).state) ∧
    waiters k' s = [] ∧ (k'.sem s).count = ((k.sem s).count + 1) % 2 ^ 32)

theorem afterFirstBlocked_append {k : Kernel} {before after : List Addr} {w : Addr}
    (hb : ∀ p ∈ before, (k.proc p).state ≠ .blocked) (hw : (k.proc w).state = .blocked) :
    afterFirstBlocked k (before ++ w :: after) = after := by
  induction before with
  | nil => exact if_pos hw
  | cons p rest ih =>
    rw [List.cons_append, afterFirstBlocked, if_neg (hb p List.mem_cons_self)]
    exact ih fun q hq => hb q (List.mem_cons_of_mem p hq)

/-- The states after the loop of `sem_post`. -/
theorem semPostBody_proc (k : Kernel) (s : Addr) : (semPostBody k s).2.proc =
    match firstBlocked k (waiters k s) with
    | some w => (schedulerAddReady k w).proc
    | none => k.proc := by
  unfold semPostBody waiters
  cases hq : (k.sem s).waitingProcesses with
  | none => rfl
  | some ws =>
    rw [Option.getD_some]
    dsimp only
    rw [wakeOne_eq]
    cases firstBlocked k ws <;> rfl

/-- **`sem_post`.** -/
theorem semPostBody_wakes (k : Kernel) (s : Addr) : PostWakes k (semPostBody k s).2 s := by
  have hsem : (semPostBody k s).2.sem s = postedSem k s := by
    rw [sem_of_outside (semPostBody_outside k s)]
    exact Function.update_self ..
  have hproc := semPostBody_proc k s
  cases hf : firstBlocked k (waiters k s) with
  | none =>
    rw [hf] at hproc
    refine .inr ⟨fun p hp => ?_, fun p => by rw [hproc], ?_, ?_⟩
    · simpa using List.find?_eq_none.mp hf p hp
    · unfold waiters
      rw [hsem, postedSem, hf]
      cases (k.sem s).waitingProcesses <;> rfl
    · rw [hsem, postedSem, hf]
      rfl
  | some w =>
    rw [hf] at hproc
    obtain ⟨hw, before, after, hsplit, hbefore⟩ := List.find?_eq_some_iff_append.mp hf
    have hw := of_decide_eq_true hw
    have hbefore : ∀ p ∈ before, (k.proc p).state ≠ .blocked := fun p hp => by
      simpa using hbefore p hp
    have hready := (schedulerAddReady_between k w).state
    refine .inl ⟨before, w, after, hsplit, hbefore, hw, ?_, fun p hp => ?_, ?_, ?_⟩
    · rw [hproc, hready w]
      exact if_pos rfl
    · rw [hproc, hready p]
      exact if_neg hp
    · unfold waiters
      rw [hsem, postedSem, hf]
      dsimp only
      rw [hsplit, afterFirstBlocked_append hbefore hw]
      rfl
    · rw [hsem, postedSem, hf]

/-! ## All runs -/

/-- The machine after boot, where memory that is not allocated yet holds anything. -/
def Boot.machineOver (garbage : Addr → Sem) (memAnswers : Nat → Option Addr) : Machine :=
  { Boot.machine memAnswers with k := { Boot.kernel memAnswers with
    sem := fun a => if ((Boot.kernel memAnswers).live a).isSome then (Boot.kernel memAnswers).sem a
      else garbage a } }

theorem quiet_boot (garbage : Addr → Sem) (memAnswers : Nat → Option Addr) :
    (Boot.machineOver garbage memAnswers).QuietBases ∧
      ∀ s, (Boot.machineOver garbage memAnswers).Lowering s := by
  have hbase : ∀ t, ((Boot.machineOver garbage memAnswers).threads t).sys = [] ∧
      ∀ i ∈ ((Boot.machineOver garbage memAnswers).threads t).base, i.setsValue = false := by
    intro t
    simp only [Boot.machineOver, Boot.machine]
    split
    · exact ⟨rfl, fun i hi => by cases List.mem_singleton.mp hi; rfl⟩
    · exact ⟨rfl, fun i hi => by cases List.mem_singleton.mp hi; rfl⟩
  refine ⟨fun t => (hbase t).2, fun s => .none fun t v hv => ?_⟩
  unfold Machine.code at hv
  rw [(hbase t).1, List.nil_append] at hv
  have hquiet := (hbase t).2 _ hv
  cases hquiet

/-- **No wake-up is lost.** Once a `sem_init` has found memory for the semaphore's name: in every
    state that any run comes to, whatever its processes do, there are tokens only while nobody is in
    the queue, and a `sem_post` wakes the process of the oldest entry that is asleep, or leaves a
    token where nobody is. -/
theorem no_wakeup_lost {garbage : Addr → Sem} {memAnswers : Nat → Option Addr} {as bs : List Action}
    {m m1 m' : Machine} {a : Action} {s : Addr}
    (h : (Boot.machineOver garbage memAnswers).run as = some m) (hi : m.Inits a s)
    (hs : m.step a = some m1) (hname : (m1.k.sem s).name ≠ none) (hrun : m1.run bs = some m') :
    (0 < (m'.k.sem s).count → waiters m'.k s = []) ∧
      ∀ b m'', m'.Posts b s → m'.step b = some m'' → PostWakes m'.k m''.k s := by
  obtain ⟨hquiet, hlowering⟩ := quiet_boot garbage memAnswers
  have hcode : m.QuietBases ∧ m.Lowering s :=
    (run_guarded h).invariant (fun m => m.QuietBases ∧ m.Lowering s)
      (fun _ _ _ hi _ hs => ⟨hi.1.step hs, hi.2.step hi.1 hs⟩) ⟨hquiet, hlowering s⟩
  have hwaking := (Machine.Waking.inited hcode.1 hcode.2 hi hs hname).run hrun
  refine ⟨hwaking.wakeUp, fun b m'' hpost hb => ?_⟩
  obtain ⟨i, ⟨rfl, hn⟩, hon⟩ := hpost
  obtain ⟨j, hj, -, rfl⟩ := Machine.step_exec hb
  cases hn.symm.trans hj
  have hplain : i ≠ .int20 := by
    rcases hon with rfl | ⟨q, rfl, -⟩ <;> simp
  rw [m'.execInstr_k hplain, (exec_postsOn _ hon).1]
  exact semPostBody_wakes m'.k s

/-- The instruction is the part of a `sem_post` on `s` under its lock. -/
def Instr.postsLocked (s : Addr) : Instr → Bool
  | .semPostLocked t => t == s
  | _ => false

/-- The next instruction initialises `s`. -/
def Machine.initsNext (m : Machine) (s : Addr) : Bool :=
  m.next.any fun i => (exec m.k m.thread.regs i).events.any fun e => (e.inits s).isSome

theorem Machine.inits_of_next {m : Machine} {s : Addr} (h : m.initsNext s) : m.Inits .exec s := by
  obtain ⟨i, hi, hany⟩ := (Option.any_eq_true _ _).mp h
  obtain ⟨e, he, hinit⟩ := List.any_eq_true.mp hany
  exact ⟨i, ⟨rfl, hi⟩, e, he, fun hnone => by simp [hnone] at hinit⟩

/-- The states of a run before and after the step that follows on `as`, and after `bs`. -/
def runs (m : Machine) (as bs : List Action) : Option (Machine × Machine × Machine) :=
  (m.run as).bind fun m0 => (m0.step .exec).bind fun m1 => (m1.run bs).map fun m' => (m0, m1, m')

theorem runs_eq_some {m : Machine} {as bs : List Action} {x : Machine × Machine × Machine}
    (h : runs m as bs = some x) : m.run as = some x.1 ∧ x.1.step .exec = some x.2.1 ∧
      x.2.1.run bs = some x.2.2 := by
  obtain ⟨m0, h0, h⟩ := Option.bind_eq_some_iff.mp h
  obtain ⟨m1, h1, h⟩ := Option.bind_eq_some_iff.mp h
  obtain ⟨m', h', rfl⟩ := Option.map_eq_some_iff.mp h
  exact ⟨h0, h1, h'⟩

/-- The shell is about to open a semaphore without tokens. -/
def opensSem : List Action := startShell ++ [.syscall (.semOpen ['s'] 0 true)]

/-- It creates a child, which waits for the semaphore, and is about to post. -/
def childWaitsForPost : List Action :=
  .exec :: .syscall (.processCreate 0 0 false (KERNEL_BASE * 4)) :: List.replicate 45 .exec ++
  List.replicate 4 .tick ++
  .exec :: .syscall (.semWait (KERNEL_BASE + 114)) :: List.replicate 11 .exec ++
  [.syscall (.semPost (KERNEL_BASE + 114)), .exec, .exec, .exec]

set_option maxRecDepth 100000 in
theorem no_wakeup_lost_child : ∃ m' m'' : Machine,
    waiters m'.k (KERNEL_BASE + 114) = [KERNEL_BASE + 118] ∧ m'.step .exec = some m'' ∧
      PostWakes m'.k m''.k (KERNEL_BASE + 114) := by
  obtain ⟨x, hx, hfacts⟩ := (Option.any_eq_true (fun x : Machine × Machine × Machine =>
    x.1.initsNext (KERNEL_BASE + 114) && (x.2.1.k.sem (KERNEL_BASE + 114)).name.isSome &&
      decide (waiters x.2.2.k (KERNEL_BASE + 114) = [KERNEL_BASE + 118]) &&
      x.2.2.next.any (Instr.postsLocked (KERNEL_BASE + 114)))
    (runs (Boot.machineOver (fun _ => {}) freshBlocks) opensSem childWaitsForPost)).mp (by decide +kernel)
  simp only [Bool.and_eq_true, decide_eq_true_eq] at hfacts
  obtain ⟨⟨⟨hinit, hname⟩, hwaits⟩, hposts⟩ := hfacts
  obtain ⟨h0, h1, h'⟩ := runs_eq_some hx
  obtain ⟨i, hn, hi⟩ := (Option.any_eq_true _ _).mp hposts
  obtain rfl : i = .semPostLocked (KERNEL_BASE + 114) := by
    cases i with
    | semPostLocked t => rw [of_decide_eq_true hi]
    | _ => cases hi
  have hstep : x.2.2.step .exec = some (x.2.2.execInstr (.semPostLocked (KERNEL_BASE + 114))) := by
    rw [Machine.step, hn]
  have hlost := no_wakeup_lost h0 (Machine.inits_of_next hinit) h1
    (fun hnone => by simp [hnone] at hname) h'
  exact ⟨x.2.2, _, hwaits, hstep, hlost.2 .exec _ ⟨_, ⟨rfl, hn⟩, .inl rfl⟩ hstep⟩

/-- No memory for the name of the first semaphore of a new pipe. -/
def noNameForSem (n : Nat) : Option Addr := if n = 16 then none else freshBlocks n

/-- The memory of that semaphore has been in use before. -/
def usedBefore (a : Addr) : Sem :=
  if a = KERNEL_BASE + 115 then { count := 1, waitingProcesses := some [KERNEL_BASE + 100] } else {}

set_option maxRecDepth 100000 in
/-- `open_pipe` goes on with a semaphore on which `sem_init` has given up: it has what was there
    before, here a token and an entry in the queue. -/
theorem uninitialised_semaphore : ¬ ∀ (garbage : Addr → Sem) (memAnswers : Nat → Option Addr)
    (as : List Action) (m m1 : Machine) (a : Action) (s : Addr),
    (Boot.machineOver garbage memAnswers).run as = some m → m.Inits a s → m.step a = some m1 →
      ∀ bs m', m1.run bs = some m' → 0 < (m'.k.sem s).count → waiters m'.k s = [] := by
  intro hall
  obtain ⟨x, hx, hfacts⟩ := (Option.any_eq_true (fun x : Machine × Machine × Machine =>
    x.1.initsNext (KERNEL_BASE + 115) && decide (0 < (x.2.2.k.sem (KERNEL_BASE + 115)).count) &&
      !(waiters x.2.2.k (KERNEL_BASE + 115)).isEmpty)
    (runs (Boot.machineOver usedBefore noNameForSem)
      (startShell ++ [.syscall .openPipe, .exec]) [])).mp (by decide +kernel)
  simp only [Bool.and_eq_true, decide_eq_true_eq, Bool.not_eq_true', List.isEmpty_eq_false_iff] at hfacts
  obtain ⟨⟨hinit, hcount⟩, hwaits⟩ := hfacts
  obtain ⟨h0, h1, h'⟩ := runs_eq_some hx
  exact hwaits (hall _ _ _ _ _ _ _ h0 (Machine.inits_of_next hinit) h1 [] _ h' hcount)

end TpSo
