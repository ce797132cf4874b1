import TpSo.Machine.Call
import TpSo.Machine.Terminated

set_option autoImplicit false

/-! # What `set_fd_targets` does to the pipes

The call attaches the process to its new pipes, one after the other; if that fails it gives up those it
has, and otherwise it gives up the old ones. Between the steps it waits for the pipes' mutexes, and
other processes run. -/

namespace TpSo

/-- The same pipes with the same attachments, and the same targets of the process `c`. -/
structure SameAttachments (c : Addr) (k k' : Kernel) : Prop where
  pipes : k'.pipes = k.pipes
  attached : ∀ a, (k'.pipe a).attachedCount = (k.pipe a).attachedCount
  targets : (k'.proc c).fdTargets = (k.proc c).fdTargets
  pid : (k'.proc c).pid = (k.proc c).pid

namespace SameAttachments

variable {c : Addr} {k k' k'' : Kernel}

theorem trans (h : SameAttachments c k k') (h' : SameAttachments c k' k'') : SameAttachments c k k'' where
  pipes := h'.pipes.trans h.pipes
  attached a := (h'.attached a).trans (h.attached a)
  targets := h'.targets.trans h.targets
  pid := h'.pid.trans h.pid

theorem of_outside (h : k'.outside = k.outside) : SameAttachments c k k' where
  pipes := (SameObjects.of_outside h).pipes
  attached a := by rw [(SameObjects.of_outside h).pipe]
  targets := show (k'.outside.proc c).fdTargets = (k.outside.proc c).fdTargets by rw [h]
  pid := pid_of_outside h c

/-- Code that beyond the scheduler's data writes to one semaphore. -/
theorem of_modSem {s : Addr} {f : Sem → Sem} (h : k'.outside = (k.modSem s f).outside) :
    SameAttachments c k k' := by
  have hsem : SameAttachments c k (k.modSem s f) := ⟨rfl, fun _ => rfl, rfl, rfl⟩
  exact hsem.trans (of_outside h)

/-- A write to a pipe that is not to its attachments. -/
theorem modPipe (k : Kernel) (a : Addr) {f : Pipe → Pipe}
    (hf : (f (k.pipe a)).attachedCount = (k.pipe a).attachedCount) :
    SameAttachments c k (k.modPipe a f) where
  pipes := rfl
  attached b := by
    by_cases hb : b = a
    · subst hb
      simp [Kernel.modPipe, hf]
    · simp [Kernel.modPipe, hb]
  targets := rfl
  pid := rfl

end SameAttachments

/-- The code with which a call waits for a semaphore, or posts on it. -/
theorem exec_isLocking_attachments (c : Addr) (k : Kernel) (r : Regs) {i : Instr} (hi : i.isLocking) :
    SameAttachments c k (exec k r i).k := by
  cases i <;> try cases hi
  case int20 => exact .of_outside rfl
  case processYield =>
      simp only [exec]
      split
      · exact .of_outside rfl
      · next current _ => exact .of_outside (modProc_outside k current _ rfl)
  case semWait s => exact .of_outside rfl
  case semLock s =>
      simp only [exec]
      split
      · exact .of_outside rfl
      · exact .of_modSem rfl
  case semWaitLocked s => exact .of_modSem (semWaitBody_outside k s)
  case semWaitReturn s ret => exact .of_outside rfl
  case semPost s => exact .of_outside rfl
  case semPostLocked s => exact .of_modSem (semPostBody_outside k s)
  case readWoken pipe =>
      refine .modPipe k pipe ?_
      rw [Pipe.dropReader]

/-! ## The attachments as a function -/

section Attachments
variable (k0 : Kernel)

/-- `attach_to_pipe`. -/
def attachOne (count : Addr → Nat) (id : Nat) (a : Addr) : Nat :=
  if pipeOf k0 id = some a then (count a + 1) % 256 else count a

/-- `unattach_from_pipe`. -/
def unattachOne (count : Addr → Nat) (id : Nat) (a : Addr) : Nat :=
  if pipeOf k0 id = some a then count a - 1 else count a

/-- How many of these ids are those of the pipe at `a`. -/
def idsOf (ids : List Nat) (a : Addr) : Nat := ids.countP (fun id => pipeOf k0 id = some a)

theorem attachAll_eq (ids : List Nat) {count : Addr → Nat} {a : Addr} (h : count a < 256) :
    ids.foldl (attachOne k0) count a = (count a + idsOf k0 ids a) % 256 := by
  induction ids generalizing count with
  | nil => exact (Nat.mod_eq_of_lt h).symm
  | cons id ids ih =>
      rw [List.foldl_cons, ih, idsOf, idsOf, List.countP_cons, attachOne]
      · split
        · next hid =>
          simp only [hid, decide_true, if_true]
          omega
        · next hid => simp only [hid, decide_false, Bool.false_eq_true, if_false, Nat.add_zero]
      · unfold attachOne
        split
        · exact Nat.mod_lt _ (by decide)
        · exact h

theorem unattachAll_eq (ids : List Nat) (count : Addr → Nat) (a : Addr) :
    ids.foldl (unattachOne k0) count a = count a - idsOf k0 ids a := by
  induction ids generalizing count with
  | nil => rfl
  | cons id ids ih =>
      rw [List.foldl_cons, ih, idsOf, idsOf, List.countP_cons, unattachOne]
      split
      · next hid =>
        simp only [hid, decide_true, if_true]
        omega
      · next hid => simp only [hid, decide_false, Bool.false_eq_true, if_false, Nat.add_zero]

end Attachments

/-! ## The code of the call -/

/-- The pipes are those of `k0`, attached this often; the process `c` has these targets. -/
structure Attached (k0 : Kernel) (c : Addr) (count : Addr → Nat) (targets : Fin 3 → Nat) (k : Kernel) :
    Prop where
  pipes : k.pipes = k0.pipes
  count : ∀ a, (k.pipe a).attachedCount = count a
  targets : (k.proc c).fdTargets = targets
  pid : (k.proc c).pid = (k0.proc c).pid

/-- The code of a call while others leave the attachments alone. -/
abbrev Retargets (c : Addr) (pre : Kernel × Regs → Prop) (code : List Instr)
    (post : Kernel × Regs → Prop) : Prop :=
  (callCode (SameAttachments c)).Triple (fun _ _ => True) pre code post

section Call
variable {k0 : Kernel} {c : Addr} {count : Addr → Nat} {targets : Fin 3 → Nat}

theorem Attached.same {k k' : Kernel} (h : Attached k0 c count targets k) (hs : SameAttachments c k k') :
    Attached k0 c count targets k' where
  pipes := hs.pipes.trans h.pipes
  count a := (hs.attached a).trans (h.count a)
  targets := hs.targets.trans h.targets
  pid := hs.pid.trans h.pid

theorem Attached.pipeOf {k : Kernel} (h : Attached k0 c count targets k) (id : Nat) :
    pipeOf k id = TpSo.pipeOf k0 id := by
  unfold TpSo.pipeOf
  rw [h.pipes]

/-- `sem_wait` and `sem_post` leave the attachments alone. -/
theorem calls_locking (code : List Instr) (hcode : ∀ i ∈ code, i.isLocking) :
    Retargets c (fun s => Attached k0 c count targets s.1) code (fun s => Attached k0 c count targets s.1) := by
  refine .invariant (fun i => i.isLocking) hcode ?_ (fun s s' h hb => h.same hb.1)
    (fun _ _ _ _ => trivial)
  intro s i h hi _
  exact ⟨h.same (exec_isLocking_attachments c s.1 s.2 hi), exec_isLocking s.1 s.2 hi⟩

/-- `sem_wait(mutex)`, a write to the pipe, `sem_post(mutex)`. -/
theorem calls_underMutex {mutex a : Addr} {i : Instr} {f : Pipe → Pipe} {count' : Addr → Nat}
    (hi : i ≠ .int20) (hexec : ∀ k r, exec k r i = { k := k.modPipe a f, r := r })
    (hsame : ∀ b, b ≠ a → count' b = count b)
    (hf : ∀ p : Pipe, p.attachedCount = count a → (f p).attachedCount = count' a) :
    Retargets c (fun s => Attached k0 c count targets s.1) [.semWait mutex, i, .semPost mutex]
      (fun s => Attached k0 c count' targets s.1) := by
  refine .cons (calls_locking [.semWait mutex] (by simp [Instr.isLocking])) ?_
  refine .cons ?_ (calls_locking [.semPost mutex] (by simp [Instr.isLocking]))
  refine .simple hi (fun s _ => by simp [callCode, hexec]) (fun _ _ => trivial) fun s h => ?_
  simp only [callCode, hexec]
  refine ⟨h.pipes, fun b => ?_, h.targets, h.pid⟩
  by_cases hb : b = a
  · subst hb
    simpa [Kernel.modPipe] using hf _ (h.count b)
  · simpa [Kernel.modPipe, hb, hsame b hb] using h.count b

/-- An instruction that only writes to the registers. -/
theorem calls_setRax (v : Int) : Retargets c (fun s => Attached k0 c count targets s.1) [.setRax v]
    (fun s => s.2.rax = v ∧ Attached k0 c count targets s.1) :=
  .simple (by simp [callCode]) (fun _ _ => rfl) (fun _ _ => trivial) fun _ h => ⟨rfl, h⟩

/-- `attach_to_pipe` without such a pipe. -/
theorem calls_attach_none {id : Nat} (hid : pipeOf k0 id = none) :
    Retargets c (fun s => Attached k0 c count targets s.1) [.attachToPipe id]
      (fun s => s.2.rax = -1 ∧ Attached k0 c count targets s.1) := by
  have hexec : ∀ s : Kernel × Regs, Attached k0 c count targets s.1 →
      exec s.1 s.2 (.attachToPipe id) = { k := s.1, r := { s.2 with rax := -1 } } := by
    intro s h
    simp only [exec, h.pipeOf, hid]
  refine .simple (by simp [callCode]) (fun s h => ?_) (fun _ _ => trivial) fun s h => ?_
  · simp only [callCode, hexec s h]
  · simp only [callCode, hexec s h]
    exact ⟨trivial, h⟩

/-- `attach_to_pipe`. -/
theorem calls_attach {id : Nat} {a : Addr} (hid : pipeOf k0 id = some a) :
    Retargets c (fun s => Attached k0 c count targets s.1) [.attachToPipe id]
      (fun s => s.2.rax = 0 ∧ Attached k0 c (attachOne k0 count id) targets s.1) := by
  refine .instr (by simp [callCode]) fun s h => ⟨trivial, ?_⟩
  have hcode : (exec s.1 s.2 (.attachToPipe id)) = { k := s.1, r := s.2, code :=
      [.semWait (s.1.pipe a).mutex, .attachLocked a, .semPost (s.1.pipe a).mutex] ++ [.setRax 0] } := by
    simp only [exec, h.pipeOf, hid]
    rfl
  simp only [callCode, hcode]
  refine .append (.start (calls_underMutex (by simp) (fun _ _ => rfl) (fun b hb => ?_)
    fun p hp => ?_) h) (calls_setRax 0)
  · exact if_neg fun heq => hb (Option.some.inj (hid.symm.trans heq)).symm
  · rw [attachOne, if_pos hid, ← hp, Pipe.attach]

/-- `unattach_from_pipe` for a process with a valid pid. -/
theorem calls_unattach (hpid : PROCESS_FIRST_PID ≤ (k0.proc c).pid)
    (hpid' : (k0.proc c).pid < PROCESS_FIRST_PID + PROCESS_MAX_PROCESSES) (id : Nat) :
    Retargets c (fun s => Attached k0 c count targets s.1) [.fdUnattach c id]
      (fun s => Attached k0 c (unattachOne k0 count id) targets s.1) := by
  refine .instr (by simp [callCode]) fun s h => ⟨trivial, ?_⟩
  have hvalid : ¬ ((s.1.proc c).pid < PROCESS_FIRST_PID ∨
      (s.1.proc c).pid ≥ PROCESS_FIRST_PID + PROCESS_MAX_PROCESSES) := by
    rw [h.pid]
    omega
  refine .instr (by simp [callCode]) ?_
  rintro t rfl
  refine ⟨trivial, ?_⟩
  simp only [callCode, exec, h.pipeOf]
  cases hid : TpSo.pipeOf k0 id with
  | none =>
      refine .nil ?_
      rintro t rfl
      have hsame : unattachOne k0 count id = count := by
        funext a
        exact if_neg (by rw [hid]; exact (Option.some_ne_none a).symm)
      rw [hsame]
      exact h
  | some a =>
      simp only [if_neg hvalid]
      refine .start (calls_underMutex (by simp) (fun _ _ => rfl) (fun b hb => ?_) fun p hp => ?_)
        ⟨h.pipes, h.count, h.targets, h.pid⟩
      · exact if_neg fun heq => hb (Option.some.inj (hid.symm.trans heq)).symm
      · rw [unattachOne, if_pos hid, ← hp, Pipe.unattach]

/-- The same for several pipes. -/
theorem calls_unattachAll (hpid : PROCESS_FIRST_PID ≤ (k0.proc c).pid)
    (hpid' : (k0.proc c).pid < PROCESS_FIRST_PID + PROCESS_MAX_PROCESSES) (ids : List Nat) :
    Retargets c (fun s => Attached k0 c count targets s.1) (ids.map (.fdUnattach c))
      (fun s => Attached k0 c (ids.foldl (unattachOne k0) count) targets s.1) := by
  induction ids generalizing count with
  | nil => exact .nil fun _ h => h
  | cons id ids ih => exact .cons (calls_unattach hpid hpid' id) ih

/-- The targets after these changes. -/
def retarget (targets : Fin 3 → Nat) (changes : List (Fin 3 × Nat × Nat)) : Fin 3 → Nat :=
  changes.foldl (fun targets c => Function.update targets c.1 c.2.2) targets

/-- Each changed descriptor gets its new target, and its old one is given up. -/
theorem calls_retarget (hpid : PROCESS_FIRST_PID ≤ (k0.proc c).pid)
    (hpid' : (k0.proc c).pid < PROCESS_FIRST_PID + PROCESS_MAX_PROCESSES)
    (changes : List (Fin 3 × Nat × Nat)) : Retargets c (fun s => Attached k0 c count targets s.1)
      (changes.flatMap (fun ch => [.fdSet c ch.1 ch.2.2, .fdUnattach c ch.2.1]))
      (fun s => Attached k0 c ((changes.map (fun ch => ch.2.1)).foldl (unattachOne k0) count)
        (retarget targets changes) s.1) := by
  induction changes generalizing count targets with
  | nil => exact .nil fun _ h => h
  | cons ch changes ih =>
      refine .append (m := fun s => Attached k0 c (unattachOne k0 count ch.2.1)
        (Function.update targets ch.1 ch.2.2) s.1) ?_ ih
      refine .cons (m := fun s => Attached k0 c count (Function.update targets ch.1 ch.2.2) s.1) ?_
        (calls_unattach hpid hpid' ch.2.1)
      refine .simple (by simp [callCode]) (fun _ _ => rfl) (fun _ _ => trivial) fun s h => ?_
      refine ⟨h.pipes, h.count, ?_, ?_⟩
      · simp [callCode, exec, Kernel.modProc, Process.setTargets, h.targets]
      · simpa [callCode, exec, Kernel.modProc, Process.setTargets] using h.pid

/-- Is the new target of this change an open pipe? -/
def opens (k0 : Kernel) (ch : Fin 3 × Nat × Nat) : Bool := (pipeOf k0 ch.2.2).isSome

/-- What `set_fd_targets` has done when it returns, from where `attached` has been attached and `rest` is
    still to be: everything, or nothing. -/
def Retargeted (k0 : Kernel) (c : Addr) (count : Addr → Nat) (targets : Fin 3 → Nat)
    (changes rest : List (Fin 3 × Nat × Nat)) (attached : List Nat) (s : Kernel × Regs) : Prop :=
  if rest.all (opens k0) then
    s.2.rax = 0 ∧ Attached k0 c ((changes.map (fun ch => ch.2.1)).foldl (unattachOne k0)
      ((rest.map (fun ch => ch.2.2)).foldl (attachOne k0) count)) (retarget targets changes) s.1
  else
    s.2.rax = -1 ∧ Attached k0 c
      ((attached ++ (rest.takeWhile (opens k0)).map (fun ch => ch.2.2)).foldl (unattachOne k0)
        (((rest.takeWhile (opens k0)).map (fun ch => ch.2.2)).foldl (attachOne k0) count)) targets s.1

/-- **Run lemma.** `set_fd_targets` from any of its attempts on. -/
theorem calls_fdAttach (hpid : PROCESS_FIRST_PID ≤ (k0.proc c).pid)
    (hpid' : (k0.proc c).pid < PROCESS_FIRST_PID + PROCESS_MAX_PROCESSES)
    (changes rest : List (Fin 3 × Nat × Nat)) (attached : List Nat) :
    Retargets c (fun s => Attached k0 c count targets s.1) [.fdAttach c changes rest attached]
      (Retargeted k0 c count targets changes rest attached) := by
  induction rest generalizing count attached with
  | nil =>
      refine .instr (by simp [callCode]) fun s h => ⟨trivial, ?_⟩
      refine .append ((calls_retarget hpid hpid' changes).start h) ((calls_setRax 0).weaken fun t ht => ?_)
      rw [Retargeted, List.all_nil, if_pos rfl]
      exact ht
  | cons ch rest ih =>
      refine .instr (by simp [callCode]) fun s h => ⟨trivial, ?_⟩
      cases hid : pipeOf k0 ch.2.2 with
      | none =>
          have hclosed : opens k0 ch = false := by simp [opens, hid]
          refine .cons ((calls_attach_none hid).start h) (.instr (by simp [callCode]) fun t ht => ?_)
          obtain ⟨hrax, ht⟩ := ht
          have hexec : exec t.1 t.2 (.fdAttached c changes ch rest attached) =
              { k := t.1, r := t.2, code := attached.map (.fdUnattach c) ++ [.setRax (-1)] } := by
            simp only [exec, hrax]
            exact if_neg (by decide)
          refine ⟨trivial, ?_⟩
          simp only [callCode, hexec]
          refine .append ((calls_unattachAll hpid hpid' attached).start ht)
            ((calls_setRax (-1)).weaken fun u hu => ?_)
          rw [Retargeted, List.all_cons, hclosed, Bool.false_and, if_neg Bool.false_ne_true,
            List.takeWhile_cons, hclosed, if_neg Bool.false_ne_true, List.map_nil, List.append_nil]
          exact hu
      | some a =>
          have hopen : opens k0 ch = true := by simp [opens, hid]
          refine .cons ((calls_attach hid).start h) (.instr (by simp [callCode]) fun t ht => ?_)
          obtain ⟨hrax, ht⟩ := ht
          have hexec : exec t.1 t.2 (.fdAttached c changes ch rest attached) =
              { k := t.1, r := t.2, code := [.fdAttach c changes rest (attached ++ [ch.2.2])] } := by
            simp only [exec, hrax, if_true]
          refine ⟨trivial, ?_⟩
          simp only [callCode, hexec]
          refine ((ih (attached ++ [ch.2.2])).start ht).weaken fun u hu => ?_
          rw [Retargeted] at hu ⊢
          rw [List.all_cons, hopen, Bool.true_and, List.takeWhile_cons, hopen, if_pos rfl,
            List.map_cons, List.map_cons, List.foldl_cons, List.foldl_cons]
          simpa only [List.append_assoc, List.singleton_append] using hu

end Call

/-! ## The whole call -/

/-- The three targets a process asks for. -/
def requested (read write error : Nat) : Fin 3 → Nat
  | 0 => read
  | 1 => write
  | 2 => error

theorem retarget_fdChanges (p : Process) (read write error : Nat) :
    retarget p.fdTargets (fdChanges p read write error) = requested read write error := by
  -- a descriptor that is left out has the target it asks for
  have hkeep : ∀ (targets : Fin 3 → Nat) (changes : List (Fin 3 × Nat × Nat)) (fd : Fin 3) (new : Nat),
      targets fd = p.fdTargets fd →
      retarget targets (((fd, p.fdTargets fd, new) :: changes).filter
        (fun c => decide (c.2.2 ≠ c.2.1))) =
        retarget (Function.update targets fd new) (changes.filter (fun c => decide (c.2.2 ≠ c.2.1))) := by
    intro targets changes fd new hfd
    by_cases hnew : new = p.fdTargets fd
    · rw [List.filter_cons_of_neg (by simpa using hnew), hnew, ← hfd, Function.update_eq_self]
    · rw [List.filter_cons_of_pos (by simpa using hnew)]
      rfl
  unfold fdChanges
  rw [hkeep _ _ _ _ rfl, hkeep _ _ _ _ (by simp), hkeep _ _ _ _ (by simp)]
  funext i
  refine Fin.cases ?_ (Fin.cases ?_ (Fin.cases ?_ fun i => i.elim0)) i <;> simp [retarget, requested]

/-- How many of these descriptors lead to the pipe at `a` after the changes. -/
def newlyOn (k : Kernel) (changes : List (Fin 3 × Nat × Nat)) (a : Addr) : Nat :=
  idsOf k (changes.map (fun ch => ch.2.2)) a

/-- How many of them led to it before. -/
def formerlyOn (k : Kernel) (changes : List (Fin 3 × Nat × Nat)) (a : Addr) : Nat :=
  idsOf k (changes.map (fun ch => ch.2.1)) a

/-- The changes before the first one whose new target is no open pipe. -/
def triedChanges (k : Kernel) (c : Addr) (read write error : Nat) : List (Fin 3 × Nat × Nat) :=
  (fdChanges (k.proc c) read write error).takeWhile (opens k)

/-- **`set_fd_targets` does everything or nothing**, whatever other processes do that leaves the
    attachments alone. A count is a byte: it wraps at 256, and what is given up at 0 stays there. -/
theorem set_fd_targets_atomic {m m' : Machine} {c : Addr} {read write error : Nat} {rest : List Instr}
    {as : List Action} (hcall : (m.threads m.cpu).sys = .sys (.setFdTargets read write error) :: rest)
    (hcurrent : m.k.current = some c) (hpid : PROCESS_FIRST_PID ≤ (m.k.proc c).pid)
    (hpid' : (m.k.proc c).pid < PROCESS_FIRST_PID + PROCESS_MAX_PROCESSES)
    (hrun : GuardedRun Machine.step
      (fun t a => t.InCall m.cpu rest a ∧ t.Relies (SameAttachments c) m.cpu a) m as m')
    (hcpu : m'.cpu = m.cpu) (hret : (m'.threads m.cpu).sys = rest) :
    ((m'.threads m.cpu).regs.rax = 0 ∧ (m'.k.proc c).fdTargets = requested read write error ∧
      ∀ a, (m.k.pipe a).attachedCount < 256 → (m'.k.pipe a).attachedCount =
        ((m.k.pipe a).attachedCount + newlyOn m.k (fdChanges (m.k.proc c) read write error) a) % 256 -
          formerlyOn m.k (fdChanges (m.k.proc c) read write error) a) ∨
    ((m'.threads m.cpu).regs.rax = -1 ∧ (m'.k.proc c).fdTargets = (m.k.proc c).fdTargets ∧
      ∀ a, (m.k.pipe a).attachedCount < 256 → (m'.k.pipe a).attachedCount =
        ((m.k.pipe a).attachedCount + newlyOn m.k (triedChanges m.k c read write error) a) % 256 -
          newlyOn m.k (triedChanges m.k c read write error) a) := by
  cases hrun with
  | nil =>
      have hlen := congrArg List.length (hcall.symm.trans hret)
      simp at hlen
  | cons hg hs hrest =>
      obtain ⟨-, rfl⟩ := Machine.step_of_sys hcall hs
      have hexec : exec m.k m.thread.regs (.sys (.setFdTargets read write error)) =
          { k := m.k, r := m.thread.regs,
            code := [.fdAttach c (fdChanges (m.k.proc c) read write error)
              (fdChanges (m.k.proc c) read write error) []] } := by
        simp only [exec, sysCode, hcurrent]
      obtain ⟨hcpu1, hsys1, -⟩ := Machine.execInstr_plain hcall rfl
      rw [hexec] at hsys1
      have hk1 := m.execInstr_k (i := .sys (.setFdTargets read write error)) (by simp)
      rw [hexec] at hk1
      have hpath := Machine.path_of_call (fun _ _ _ h h' => h.trans h')
        (fun k rsp => .of_outside (scheduleTick_outside k rsp)) hrest hcpu1 hsys1 (by simp [Instr.spawns])
        hcpu hret
      have hat : Attached m.k c (fun a => (m.k.pipe a).attachedCount) (m.k.proc c).fdTargets
          (m.execInstr (.sys (.setFdTargets read write error))).k := by
        rw [hk1]
        exact ⟨rfl, fun _ => rfl, rfl, rfl⟩
      have hpost := (calls_fdAttach hpid hpid' _ _ _ _ hat _ _ hpath).1 rfl
      unfold Retargeted at hpost
      split at hpost
      · obtain ⟨hrax, h⟩ := hpost
        refine .inl ⟨hrax, h.targets.trans (retarget_fdChanges ..), fun a ha => ?_⟩
        rw [h.count, unattachAll_eq, attachAll_eq _ _ ha]
        rfl
      · obtain ⟨hrax, h⟩ := hpost
        refine .inr ⟨hrax, h.targets, fun a ha => ?_⟩
        rw [h.count, List.nil_append, unattachAll_eq, attachAll_eq _ _ ha]
        rfl

/-! ## Runs in which nobody else comes in between -/

/-- The call of `set_fd_targets` the processor is about to begin. -/
def Machine.fdCall (m : Machine) : Option (Nat × Nat × Nat) :=
  match (m.threads m.cpu).sys with
  | [.sys (.setFdTargets read write error)] => some (read, write, error)
  | _ => none

theorem Machine.sys_of_fdCall {m : Machine} {read write error : Nat}
    (h : m.fdCall = some (read, write, error)) :
    (m.threads m.cpu).sys = [.sys (.setFdTargets read write error)] := by
  unfold fdCall at h
  split at h
  · next hsys =>
    cases h
    exact hsys
  · cases h

/-- The call returned `ret` to the same process, which was the current one. -/
def fdReturned (ret : Int) (x : Machine × Machine) : Bool :=
  decide (x.1.k.current = some (KERNEL_BASE + 100) ∧ (x.1.k.proc (KERNEL_BASE + 100)).pid = 3 ∧
    x.2.cpu = x.1.cpu ∧ (x.2.threads x.1.cpu).regs.rax = ret) && (x.2.threads x.1.cpu).sys.isEmpty

set_option maxRecDepth 100000 in
/-- The shell opens a pipe and makes it its input and its output. -/
theorem set_fd_targets_atomic_twice : ∃ m m' : Machine, m.fdCall = some (3, 3, 2) ∧
    (m'.k.proc (KERNEL_BASE + 100)).fdTargets = requested 3 3 2 ∧
    ∀ a, (m.k.pipe a).attachedCount < 256 → (m'.k.pipe a).attachedCount =
      ((m.k.pipe a).attachedCount +
        newlyOn m.k (fdChanges (m.k.proc (KERNEL_BASE + 100)) 3 3 2) a) % 256 -
          formerlyOn m.k (fdChanges (m.k.proc (KERNEL_BASE + 100)) 3 3 2) a := by
  obtain ⟨x, hx, hfacts⟩ := (Option.any_eq_true (fun x : Machine × Machine =>
    decide (x.1.fdCall = some (3, 3, 2)) && fdReturned 0 x)
    (callRun freshBlocks Machine.Alone (startShell ++
      [.syscall .openPipe, .exec, .exec, .syscall (.setFdTargets 3 3 2)]) (List.replicate 49 .exec))).mp
        (by decide +kernel)
  simp only [fdReturned, Bool.and_eq_true, decide_eq_true_eq, List.isEmpty_iff] at hfacts
  obtain ⟨hcall, ⟨hcurrent, hpid, hcpu, hrax⟩, hret⟩ := hfacts
  obtain ⟨-, hrun⟩ := callRun_eq_some hx
  rcases set_fd_targets_atomic (Machine.sys_of_fdCall hcall) hcurrent (by rw [hpid]; decide)
    (by rw [hpid]; decide) (hrun.mono fun _ _ h => h.relies) hcpu hret with h | h
  · exact ⟨x.1, x.2, hcall, h.2⟩
  · exact absurd (hrax.symm.trans h.1) (by decide)

/-- The shell creates a child and kills it four times: `process_exit` gives up the attachments of a
    process that is dead already once more, until `STDIN` has none left. Then it opens a pipe. -/
def overkill : List Action :=
  .syscall (.processCreate 0 0 false (KERNEL_BASE * 4)) :: List.replicate 45 .exec ++
  (List.replicate 4 (.syscall (.processKill 4) :: List.replicate 66 .exec)).flatten ++
  [.syscall .openPipe, .exec, .exec, .syscall (.setFdTargets 3 1 2)]

set_option maxRecDepth 100000 in
/-- What is given up at 0 stays there. -/
theorem unattached_at_zero : ¬ ∀ (memAnswers : Nat → Option Addr) (before : List Action) (m m' : Machine)
    (c : Addr) (read write error : Nat) (rest : List Instr) (as : List Action), Reaches memAnswers before m →
    (m.threads m.cpu).sys = .sys (.setFdTargets read write error) :: rest → m.k.current = some c →
    GuardedRun Machine.step
      (fun t a => t.InCall m.cpu rest a ∧ t.Relies (SameAttachments c) m.cpu a) m as m' →
    m'.cpu = m.cpu → (m'.threads m.cpu).sys = rest → (m'.threads m.cpu).regs.rax = 0 →
    ∀ a, ((m'.k.pipe a).attachedCount : Int) = (m.k.pipe a).attachedCount +
      newlyOn m.k (fdChanges (m.k.proc c) read write error) a -
      formerlyOn m.k (fdChanges (m.k.proc c) read write error) a := by
  intro hall
  obtain ⟨x, hx, hfacts⟩ := (Option.any_eq_true (fun x : Machine × Machine =>
    decide (x.1.fdCall = some (3, 1, 2)) && fdReturned 0 x &&
      decide ((x.1.k.pipe (Boot.pipeAddr 0)).attachedCount = 0 ∧
        newlyOn x.1.k (fdChanges (x.1.k.proc (KERNEL_BASE + 100)) 3 1 2) (Boot.pipeAddr 0) = 0 ∧
        formerlyOn x.1.k (fdChanges (x.1.k.proc (KERNEL_BASE + 100)) 3 1 2) (Boot.pipeAddr 0) = 1))
    (callRun freshBlocks Machine.Alone (startShell ++ overkill) (List.replicate 26 .exec))).mp (by decide +kernel)
  simp only [fdReturned, Bool.and_eq_true, decide_eq_true_eq, List.isEmpty_iff] at hfacts
  obtain ⟨⟨hcall, ⟨hcurrent, -, hcpu, hrax⟩, hret⟩, hcount, hnew, hold⟩ := hfacts
  obtain ⟨hreach, hrun⟩ := callRun_eq_some hx
  have hexact := hall _ _ _ _ _ _ _ _ _ _ hreach (Machine.sys_of_fdCall hcall) hcurrent
    (hrun.mono fun _ _ h => h.relies) hcpu hret hrax (Boot.pipeAddr 0)
  omega

end TpSo
