import TpSo.Machine.Handler
import TpSo.Machine.Progress
import TpSo.Sem.Effects

set_option autoImplicit false

/-! # Handler code that nothing interrupts

A handler that does not give the processor away executes its code to the end, one `exec` after the
other. `sem_wait` with a token and `sem_post` without waiters are such pieces of code. -/

namespace TpSo

/-- Neither user code nor an instruction that gives the processor away or prepares a stack. -/
def Instr.isPlain : Instr → Bool
  | .int20 | .user | .createProcess _ _ => false
  | _ => true

theorem Instr.isPlain_spawn {i : Instr} (hi : i.isPlain) (k : Kernel) (r : Regs) :
    (exec k r i).spawn = none := by
  cases h : (exec k r i).spawn with
  | none => rfl
  | some x =>
      obtain ⟨-, args, use, rfl⟩ := exec_spawn (p := x.1) h
      cases hi

theorem Instr.isPlain_ne {i : Instr} (hi : i.isPlain) : i ≠ .int20 ∧ i ≠ .user := by
  constructor <;>
  · rintro rfl
    cases hi

namespace Machine

/-- The machine with another kernel and other code of the handler on the running stack. -/
def inHandler (m : Machine) (k : Kernel) (r : Regs) (sys : List Instr) (log : List Event) : Machine :=
  { m with
    k := k
    threads := Function.update m.threads m.cpu { m.thread with sys := sys, regs := r }
    log := log }

/-- The code on the stacks. -/
theorem inHandler_code (m : Machine) (k : Kernel) (r : Regs) (sys : List Instr) (log : List Event)
    (t : Addr) : (m.inHandler k r sys log).code t =
      if t = m.cpu then sys ++ (m.threads m.cpu).base else m.code t := by
  unfold code inHandler thread
  simp only [Function.update_apply]
  split <;> rfl

theorem inHandler_thread (m : Machine) (k : Kernel) (r : Regs) (sys : List Instr) (log : List Event) :
    (m.inHandler k r sys log).thread = { m.thread with sys := sys, regs := r } :=
  Function.update_self ..

theorem execInstr_eq (m : Machine) {i : Instr} (hi : i ≠ .int20) : m.execInstr i =
    { m.setThread { m.advance (exec m.k m.thread.regs i).code with
        regs := (exec m.k m.thread.regs i).r } with
      k := (exec m.k m.thread.regs i).k
      log := (exec m.k m.thread.regs i).events ++ m.log
      threads := spawn (m.setThread { m.advance (exec m.k m.thread.regs i).code with
        regs := (exec m.k m.thread.regs i).r }).threads (exec m.k m.thread.regs i).spawn } := by
  cases i <;> first | rfl | exact absurd rfl hi

/-- The handler on the running stack after an instruction that prepares no stack. -/
theorem execInstr_self {m : Machine} {i : Instr} {rest : List Instr}
    (hsys : (m.threads m.cpu).sys = i :: rest) (hi : i ≠ .int20)
    (hspawn : (exec m.k m.thread.regs i).spawn = none) :
    ((m.execInstr i).threads m.cpu).sys = (exec m.k m.thread.regs i).code ++ rest ∧
      ((m.execInstr i).threads m.cpu).base = (m.threads m.cpu).base := by
  have hadvance : m.advance (exec m.k m.thread.regs i).code =
      { m.thread with sys := (exec m.k m.thread.regs i).code ++ rest } := by
    unfold advance thread
    rw [hsys]
  rw [m.execInstr_eq hi, hspawn, hadvance]
  simp [spawn, setThread, thread]

/-- In a handler the next step executes its next instruction. -/
theorem step_of_sys {m m' : Machine} {a : Action} {i : Instr} {rest : List Instr}
    (hsys : (m.threads m.cpu).sys = i :: rest) (hs : m.step a = some m') :
    m.Executes a i ∧ m' = m.execInstr i := by
  have hn : m.next = some i := next_of_sys hsys
  have hoff : ¬ m.interruptsEnabled := by
    unfold interruptsEnabled thread
    rw [hsys]
    exact Bool.false_ne_true
  cases a with
  | exec =>
    obtain ⟨j, hj, -, rfl⟩ := step_exec hs
    cases hn.symm.trans hj
    exact ⟨⟨rfl, hn⟩, rfl⟩
  | tick => exact absurd (step_tick hs).1 hoff
  | syscall c => exact absurd (step_syscall hs).1 hoff
  | ret => exact absurd (step_ret hs).1 hoff
  | exception => exact absurd (step_exception hs).1 hoff
  | key e => exact absurd (step_key hs).1 hoff

/-- An instruction of the handler that is not the one which prepares a stack. -/
theorem execInstr_others {m : Machine} {i : Instr} (hi : i.isPlain) {t : Addr} (ht : t ≠ m.cpu) :
    (m.execInstr i).code t = m.code t := by
  unfold code
  rw [m.execInstr_eq (Instr.isPlain_ne hi).1, Instr.isPlain_spawn hi]
  exact congrArg (fun t : Thread => t.sys ++ t.base) (Function.update_of_ne ht ..)

/-- The handler after such an instruction. -/
theorem execInstr_plain {m : Machine} {i : Instr} {rest : List Instr}
    (hsys : (m.threads m.cpu).sys = i :: rest) (hi : i.isPlain) : (m.execInstr i).cpu = m.cpu ∧
      ((m.execInstr i).threads m.cpu).sys = (exec m.k m.thread.regs i).code ++ rest ∧
      ((m.execInstr i).threads m.cpu).base = (m.threads m.cpu).base := by
  have hne := (Instr.isPlain_ne hi).1
  exact ⟨m.execInstr_cpu hne, execInstr_self hsys hne (Instr.isPlain_spawn hi ..)⟩

/-- One instruction of the handler. -/
theorem step_inHandler (m : Machine) (k : Kernel) (r : Regs) {i : Instr} (rest : List Instr)
    (log : List Event) (hi : i.isPlain) : (m.inHandler k r (i :: rest) log).step .exec =
      some (m.inHandler (exec k r i).k (exec k r i).r ((exec k r i).code ++ rest)
        ((exec k r i).events ++ log)) := by
  have hthread := m.inHandler_thread k r (i :: rest) log
  have hnext : (m.inHandler k r (i :: rest) log).next = some i :=
    next_of_sys (by rw [hthread])
  have hspawn := Instr.isPlain_spawn hi k r
  have hi' := Instr.isPlain_ne hi
  have hadvance : (m.inHandler k r (i :: rest) log).advance (exec k r i).code =
      { m.thread with sys := (exec k r i).code ++ rest, regs := r } := by
    unfold advance
    rw [hthread]
  have hinstr := (m.inHandler k r (i :: rest) log).execInstr_eq hi'.1
  rw [hthread, show (m.inHandler k r (i :: rest) log).k = k from rfl, hadvance, hspawn] at hinstr
  have hstep : (m.inHandler k r (i :: rest) log).step .exec =
      some ((m.inHandler k r (i :: rest) log).execInstr i) := by
    unfold step
    rw [hnext]
    cases i <;> first | rfl | exact absurd rfl hi'.1 | exact absurd rfl hi'.2
  rw [hstep, hinstr]
  unfold inHandler setThread spawn
  simp only [Function.update_idem]

/-- The processor is in a handler, and the next instruction does not give it away. -/
def KeepsCpu (m : Machine) (_ : Action) : Prop := ∃ i rest, m.thread.sys = i :: rest ∧ i ≠ .int20

/-- The handler executes `n` instructions and keeps the processor. -/
def Proceeds (m : Machine) (n : Nat) (m' : Machine) : Prop :=
  GuardedRun step KeepsCpu m (List.replicate n .exec) m'

theorem Proceeds.refl (m : Machine) : m.Proceeds 0 m := .nil m

/-- The rest of the handler after its first instruction. -/
theorem proceeds_instr {m m' : Machine} {k : Kernel} {r : Regs} {i : Instr} {rest : List Instr}
    {log : List Event} {n : Nat} (hi : i.isPlain)
    (h : (m.inHandler (exec k r i).k (exec k r i).r ((exec k r i).code ++ rest)
      ((exec k r i).events ++ log)).Proceeds n m') :
    (m.inHandler k r (i :: rest) log).Proceeds (n + 1) m' := by
  have hkeeps : (m.inHandler k r (i :: rest) log).KeepsCpu .exec := by
    refine ⟨i, rest, ?_, ?_⟩
    · rw [inHandler_thread]
    · rintro rfl
      cases hi
  exact .cons hkeeps (step_inHandler m k r rest log hi) h

/-- Two stretches of a handler. -/
theorem Proceeds.append {m m' m'' : Machine} {n l : Nat} (h : m.Proceeds n m')
    (h' : m'.Proceeds l m'') : m.Proceeds (n + l) m'' := by
  unfold Proceeds
  rw [← List.replicate_append_replicate]
  exact GuardedRun.append h h'

/-- What the handler executes is determined as far as it goes. -/
theorem Proceeds.split {m m' m'' : Machine} {n l : Nat} (h : m.Proceeds n m') (h' : m.Proceeds l m'')
    (hstop : ¬ m'.KeepsCpu .exec) : ∃ d, n = l + d ∧ m''.Proceeds d m' := by
  induction l generalizing m n with
  | zero =>
      cases h'
      exact ⟨n, (Nat.zero_add n).symm, h⟩
  | succ l ih =>
      cases h' with
      | cons hk hs hrest =>
          cases n with
          | zero =>
              cases h
              exact absurd hk hstop
          | succ n =>
              cases h with
              | cons _ hs' hrest' =>
                  cases hs.symm.trans hs'
                  obtain ⟨d, hd, hd'⟩ := ih hrest' hrest
                  exact ⟨d, by omega, hd'⟩

theorem run_cons {m m' m'' : Machine} {a : Action} {as : List Action} (h : m.step a = some m')
    (h' : m'.run as = some m'') : m.run (a :: as) = some m'' := by
  unfold run
  rw [h]
  exact h'

/-- A system call from user code. -/
theorem step_call {m : Machine} {c : Syscall} (hif : m.interruptsEnabled)
    (hn : m.next matches some .user) (hvalid : validHandle m.k c) :
    m.step (.syscall c) = some (m.inHandler m.k m.thread.regs [.sys c] m.log) :=
  if_pos ⟨hif, hn, hvalid⟩

theorem run_append {m m' m'' : Machine} {as bs : List Action} (h : m.run as = some m')
    (h' : m'.run bs = some m'') : m.run (as ++ bs) = some m'' :=
  run_of_guarded ((run_guarded h).append (run_guarded h'))

/-! ## Semaphores -/

section Sem
variable (m : Machine) {k : Kernel} (r : Regs) {s : Addr} (rest : List Instr) (log : List Event)

/-- `sem_wait` with a token. -/
theorem proceeds_semWait (hlock : (k.sem s).lock = false) (hcount : 0 < (k.sem s).count) :
    (m.inHandler k r (.semWait s :: rest) log).Proceeds 4
      (m.inHandler (k.modSem s Sem.takeToken) { r with rax := 0 } rest (.semReturned s 0 :: log)) := by
  refine proceeds_instr rfl (proceeds_instr rfl ?_)
  simp only [exec, hlock, Bool.false_eq_true, if_false, List.nil_append]
  refine proceeds_instr rfl ?_
  have hcount' : 0 < ((k.modSem s fun x => { x with lock := true }).sem s).count := by
    simpa [Kernel.modSem] using hcount
  simp only [exec, semWaitBody, if_pos hcount', Bool.false_eq_true, if_false, List.nil_append]
  refine proceeds_instr rfl ?_
  rw [modSem_modSem, modSem_congr k s (g := Sem.takeToken) rfl]
  exact .refl _

/-- `sem_post` without waiters. -/
theorem proceeds_semPost (hlock : (k.sem s).lock = false)
    (hqueue : (k.sem s).waitingProcesses = some []) :
    (m.inHandler k r (.semPost s :: rest) log).Proceeds 3
      (m.inHandler (k.modSem s Sem.addToken) { r with rax := 0 } rest (.semPosted s :: log)) := by
  refine proceeds_instr rfl (proceeds_instr rfl ?_)
  simp only [exec, hlock, Bool.false_eq_true, if_false, List.nil_append]
  refine proceeds_instr rfl ?_
  have hqueue' : ((k.modSem s fun x => { x with lock := true }).sem s).waitingProcesses = some [] := by
    simpa [Kernel.modSem] using hqueue
  have hbody : semPostBody (k.modSem s fun x => { x with lock := true }) s =
      (false, k.modSem s Sem.addToken) := by
    unfold semPostBody
    rw [hqueue']
    simp only [wakeOne, Bool.false_eq_true, if_false, modSem_modSem]
    exact congrArg (Prod.mk false) (modSem_congr k s (by simp [Sem.addToken, hqueue]))
  simp only [exec, hbody, Bool.false_eq_true, false_and, if_false, List.nil_append]
  exact .refl _

end Sem

end Machine

end TpSo
