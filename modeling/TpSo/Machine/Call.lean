import TpSo.Machine.Uninterrupted

set_option autoImplicit false

/-! # A call of the kernel and the other processes

A call runs on the stack of one process. Where it gives the processor away the others run, and what
they leave behind when the call goes on is in a relation `R`. `path_of_call` ties the machine's steps
to the rules of `Library/Stretch.lean` for such code. -/

namespace TpSo

/-- The code of `sem_wait` and `sem_post`, and what a reader does once it has been woken. -/
def Instr.isLocking : Instr → Bool
  | .semWait _ | .semLock _ | .semWaitLocked _ | .semWaitReturn _ _ | .semPost _ | .semPostLocked _
  | .processYield | .readWoken _ | .int20 => true
  | _ => false

/-- Such code comes to nothing else. -/
theorem exec_isLocking (k : Kernel) (r : Regs) {i : Instr} (hi : i.isLocking) :
    ∀ j ∈ (exec k r i).code, j.isLocking := by
  intro j hj
  have hcomes := exec_comesTo k r i j hj
  cases i <;> first | cases hi; done | cases j <;> first | rfl | cases hcomes

/-- Does the instruction prepare a stack, or can it come to one that does? -/
def Instr.spawns : Instr → Bool
  | .createProcess _ _ | .initFirst | .initLoop | .initScan _ _ | .entryWrapper | .sys _ | .user => true
  | _ => false

/-- All other instructions come to nothing else. -/
theorem exec_spawns (k : Kernel) (r : Regs) {i : Instr} (hi : i.spawns = false) :
    ∀ j ∈ (exec k r i).code, j.spawns = false := by
  intro j hj
  have hcomes := exec_comesTo k r i j hj
  cases j <;> first | rfl | cases i <;> first | cases hi; done | cases hcomes

/-- Such an instruction prepares no stack. -/
theorem spawn_none_of_spawns (k : Kernel) (r : Regs) {i : Instr} (hi : i.spawns = false) :
    (exec k r i).spawn = none := by
  cases h : (exec k r i).spawn with
  | none => rfl
  | some x =>
      obtain ⟨-, args, use, rfl⟩ := exec_spawn (p := x.1) h
      cases hi

/-- The code of a call; while it is away from the processor the kernel changes as `R` says. -/
def callCode (R : Kernel → Kernel → Prop) : CodeSystem (Kernel × Regs) Instr where
  run s i := (((exec s.1 s.2 i).k, (exec s.1 s.2 i).r), (exec s.1 s.2 i).code)
  leaves i := i = .int20
  back s s' := R s.1 s'.1 ∧ s'.2 = s.2

namespace Machine

/-- The instruction an action executes. -/
def executed (m : Machine) : Action → Option Instr
  | .exec => m.next
  | _ => none

theorem executes_iff {m : Machine} {a : Action} {i : Instr} : m.Executes a i ↔ m.executed a = some i := by
  cases a <;> simp [Executes, executed]

instance (m : Machine) (a : Action) (p : Addr) : Decidable (m.Spawns a p) :=
  decidable_of_iff ((m.executed a).bind (fun i => (exec m.k m.thread.regs i).spawned) = some p) (by
    simp only [Spawns, executes_iff, Option.bind_eq_some_iff])

/-- The call of `p` with `rest` after it has not returned, and nobody makes a new process of `p`. -/
def InCall (p : Addr) (rest : List Instr) (m : Machine) (a : Action) : Prop :=
  rest.length < (m.threads p).sys.length ∧ ¬ m.Spawns a p

instance (p : Addr) (rest : List Instr) (m : Machine) (a : Action) : Decidable (InCall p rest m a) :=
  instDecidableAnd

/-- A step by another process than `p` changes the kernel as `R` says. -/
def Relies (R : Kernel → Kernel → Prop) (p : Addr) (m : Machine) (a : Action) : Prop :=
  m.cpu ≠ p → ∀ m', m.step a = some m' → R m.k m'.k

variable {p : Addr} {rest : List Instr} {m m' : Machine}

/-- Nothing of the call is left. -/
theorem InCall.over {as : List Action} (h : GuardedRun step (InCall p rest) m as m')
    (hsys : (m.threads p).sys = rest) : as = [] ∧ m' = m := by
  cases h with
  | nil => exact ⟨rfl, rfl⟩
  | cons hg _ _ => exact absurd hg.1 (by rw [hsys]; exact Nat.lt_irrefl _)

/-- Where a call that began in `s0` with this code can be: it is on the processor, or other processes
    have been running since it gave it away in `s`. -/
inductive CallAt (R : Kernel → Kernel → Prop) (p : Addr) (rest : List Instr)
    (x0 : (Kernel × Regs) × List Instr) (m : Machine) (code : List Instr) : Prop
  | here (cpu : m.cpu = p) (path : (callCode R).Path x0 ((m.k, (m.threads p).regs), code))
  | away (cpu : m.cpu ≠ p) (k : Kernel) (changed : R k m.k)
      (path : (callCode R).Path x0 ((k, (m.threads p).regs), .int20 :: code))

/-- The call is on the processor again, or still away from it. -/
theorem CallAt.of_away {R : Kernel → Kernel → Prop} {x0 : (Kernel × Regs) × List Instr} {k : Kernel}
    {code : List Instr} (hR : R k m.k)
    (hpath : (callCode R).Path x0 ((k, (m.threads p).regs), .int20 :: code)) :
    CallAt R p rest x0 m code := by
  by_cases hcpu : m.cpu = p
  · exact .here hcpu (hpath.tail (.leave (C := callCode R) rfl ⟨hR, rfl⟩))
  · exact .away hcpu k hR hpath

section Relation
variable {R : Kernel → Kernel → Prop} {x0 : (Kernel × Regs) × List Instr} {code : List Instr}
  (htrans : ∀ k1 k2 k3, R k1 k2 → R k2 k3 → R k1 k3) (hsched : ∀ k rsp, R k (scheduleTick k rsp).2)

include htrans hsched in
/-- **Step lemma.** -/
theorem CallAt.step {a : Action} (h : CallAt R p rest x0 m code)
    (hsys : (m.threads p).sys = code ++ rest) (hcode : ∀ i ∈ code, i.spawns = false)
    (hcall : InCall p rest m a) (hrely : m.Relies R p a) (hs : m.step a = some m') :
    ∃ code', CallAt R p rest x0 m' code' ∧ (m'.threads p).sys = code' ++ rest ∧
      ∀ i ∈ code', i.spawns = false := by
  cases h with
  | away hcpu k hR hpath =>
      have hthread := step_thread_of_ne hs (Ne.symm hcpu) hcall.2
      refine ⟨code, .of_away (htrans _ _ _ hR (hrely hcpu m' hs)) ?_, ?_, hcode⟩
      · rw [hthread]
        exact hpath
      · rw [hthread]
        exact hsys
  | here hcpu hpath =>
      subst hcpu
      cases code with
      | nil =>
          have hlen := hcall.1
          rw [hsys] at hlen
          exact absurd hlen (Nat.lt_irrefl _)
      | cons i code =>
          obtain ⟨⟨rfl, hn⟩, rfl⟩ := step_of_sys hsys hs
          have hrest : ∀ j ∈ code, j.spawns = false := fun j hj => hcode j (.tail _ hj)
          -- at `int 0x20` the call goes away and comes back with the kernel the others have left
          by_cases hi : i = .int20
          · subst hi
            have hadvance : m.advance [] = { m.thread with sys := code ++ rest } := by
              unfold advance thread
              rw [hsys]
              rfl
            have hthread : (m.execInstr .int20).threads m.cpu = { m.thread with sys := code ++ rest } := by
              show Function.update m.threads m.cpu (m.advance []) m.cpu = _
              rw [Function.update_self, hadvance]
            refine ⟨code, .of_away (k := m.k) (hsched _ _) ?_, ?_, hrest⟩
            · rw [hthread]
              exact hpath
            · rw [hthread]
          · have hc := hcode i List.mem_cons_self
            obtain ⟨hcpu, hthread⟩ := execInstr_thread hsys hi (spawn_none_of_spawns _ _ hc)
            rw [thread, hcpu] at hthread
            refine ⟨(exec m.k m.thread.regs i).code ++ code, .here hcpu ?_, ?_, ?_⟩
            · rw [hthread, m.execInstr_k hi]
              exact hpath.tail (.run (C := callCode R) hi)
            · rw [hthread]
              exact (List.append_assoc ..).symm
            · intro j hj
              exact (List.mem_append.mp hj).elim (exec_spawns _ _ hc j) (hrest j)

include htrans hsched in
/-- **Run lemma.** A call, from its first instruction on, is a path of its code. -/
theorem path_in_call {left : List Instr} {as : List Action}
    (h : GuardedRun step (fun m a => InCall p rest m a ∧ m.Relies R p a) m as m') (hcpu : m.cpu = p)
    (hsys : (m.threads p).sys = code ++ rest) (hcode : ∀ i ∈ code, i.spawns = false)
    (hcpu' : m'.cpu = p) (hleft : (m'.threads p).sys = left ++ rest) :
    (callCode R).Path ((m.k, (m.threads p).regs), code) ((m'.k, (m'.threads p).regs), left) := by
  obtain ⟨code', hat, hsys', -⟩ : ∃ code', CallAt R p rest ((m.k, (m.threads p).regs), code) m' code' ∧
      (m'.threads p).sys = code' ++ rest ∧ ∀ i ∈ code', i.spawns = false := by
    refine h.invariant (fun t => ∃ code', CallAt R p rest ((m.k, (m.threads p).regs), code) t code' ∧
      (t.threads p).sys = code' ++ rest ∧ ∀ i ∈ code', i.spawns = false) ?_
      ⟨code, .here hcpu .refl, hsys, hcode⟩
    intro t a t' ht hg hs
    obtain ⟨code', hat, hsys', hspawns⟩ := ht
    exact hat.step htrans hsched hsys' hspawns hg.1 hg.2 hs
  obtain rfl : left = code' := List.append_cancel_right (hleft.symm.trans hsys')
  cases hat with
  | here _ hpath => exact hpath
  | away hne _ _ _ => exact absurd hcpu' hne

include htrans hsched in
/-- The same, up to its return. -/
theorem path_of_call {as : List Action}
    (h : GuardedRun step (fun m a => InCall p rest m a ∧ m.Relies R p a) m as m') (hcpu : m.cpu = p)
    (hsys : (m.threads p).sys = code ++ rest) (hcode : ∀ i ∈ code, i.spawns = false)
    (hcpu' : m'.cpu = p) (hret : (m'.threads p).sys = rest) :
    (callCode R).Path ((m.k, (m.threads p).regs), code) ((m'.k, (m'.threads p).regs), []) := by
  have hnil : (m'.threads p).sys = [] ++ rest := hret
  exact path_in_call htrans hsched h hcpu hsys hcode hcpu' hnil

end Relation

/-! ## Calls that are tried out -/

/-- The call of `p` goes on by itself. -/
def Alone (p : Addr) (m : Machine) (a : Action) : Prop := m.cpu = p ∧ m.InCall p [] a

instance (p : Addr) (m : Machine) (a : Action) : Decidable (m.Alone p a) := instDecidableAnd

theorem Alone.relies {a : Action} {R : Kernel → Kernel → Prop} (h : m.Alone p a) :
    m.InCall p [] a ∧ m.Relies R p a := ⟨h.2, fun hne => absurd h.1 hne⟩

end Machine

/-- The machine after `before`, and after what is done during the call it has come to. -/
def callRun (memAnswers : Nat → Option Addr) (guard : Addr → Machine → Action → Prop)
    [∀ p m a, Decidable (guard p m a)] (before during : List Action) : Option (Machine × Machine) :=
  ((Boot.machine memAnswers).run before).bind fun m =>
    (GuardedRun.check Machine.step (guard m.cpu) m during).map fun m' => (m, m')

theorem callRun_eq_some {memAnswers : Nat → Option Addr} {guard : Addr → Machine → Action → Prop}
    [∀ p m a, Decidable (guard p m a)] {before during : List Action} {x : Machine × Machine}
    (h : callRun memAnswers guard before during = some x) : Reaches memAnswers before x.1 ∧
      GuardedRun Machine.step (guard x.1.cpu) x.1 during x.2 := by
  obtain ⟨m, hm, h⟩ := Option.bind_eq_some_iff.mp h
  obtain ⟨m', hm', rfl⟩ := Option.map_eq_some_iff.mp h
  exact ⟨hm, .of_check hm'⟩

end TpSo
