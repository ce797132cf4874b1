import TpSo.Machine.EveryInstr
import TpSo.Library.Stretch

set_option autoImplicit false

/-! # The run of an interrupt handler

A handler runs on the stack of the process it interrupted, with interrupts disabled, so no other code
comes between its instructions unless it gives the processor away itself. `handler_path` ties the
machine's steps to the rules for such code in `Library/Stretch.lean`. -/

namespace TpSo

/-- The code of a handler on the stack of the process `p`. Where it gives the processor away while `p`
    is `RUNNING`, anything may have happened once `p` runs again. -/
def handlerCode (p : Addr) : CodeSystem (Kernel × Regs) Instr where
  run s i := (((exec s.1 s.2 i).k, (exec s.1 s.2 i).r), (exec s.1 s.2 i).code)
  leaves i := i = .int20
  back s s' := (s.1.proc p).state = .running ∧ s'.1.current = some p ∧
    (s'.1.proc p).state = .running ∧ s'.2 = s.2

/-- The processor is back on its stack, after an `int 0x20` of a handler. -/
def Machine.regain (m : Machine) (k' : Kernel) (rest : List Instr) : Machine :=
  { m with k := k', threads := Function.update m.threads m.cpu { m.thread with sys := rest } }

theorem Machine.regain_thread (m : Machine) (k' : Kernel) (rest : List Instr) :
    (m.regain k' rest).thread = { m.thread with sys := rest } := Function.update_self ..

/-- `Handles p m m'`: the handler that runs on the stack of `p` in `m` can come to `m'`. -/
inductive Handles (p : Addr) (m : Machine) : Machine → Prop
  | start : Handles p m m
  | exec {m1 m2 : Machine} {i : Instr} {rest : List Instr} : Handles p m m1 →
      m1.thread.sys = i :: rest → i ≠ .int20 → m1.step .exec = some m2 → Handles p m m2
  | back {m1 : Machine} {rest : List Instr} {k' : Kernel} : Handles p m m1 →
      m1.thread.sys = .int20 :: rest → (m1.k.proc p).state = .running → k'.current = some p →
      (k'.proc p).state = .running → Handles p m (m1.regain k' rest)

/-! ## The machine and the code -/

/-- Such an instruction prepares no stack. -/
theorem exec_spawn_none (k : Kernel) (r : Regs) {i : Instr} (hc : i.creates = false) :
    (exec k r i).spawn = none := by
  cases h : (exec k r i).spawn with
  | none => rfl
  | some x =>
      obtain ⟨-, args, use, rfl⟩ := exec_spawn (p := x.1) h
      cases hc

namespace Machine

/-- The thread after an instruction of a handler. -/
theorem execInstr_thread {m : Machine} {i : Instr} {rest : List Instr} (hs : m.thread.sys = i :: rest)
    (hi : i ≠ .int20) (hspawn : (exec m.k m.thread.regs i).spawn = none) :
    (m.execInstr i).cpu = m.cpu ∧
      (m.execInstr i).thread = { m.thread with
        sys := (exec m.k m.thread.regs i).code ++ rest, regs := (exec m.k m.thread.regs i).r } := by
  have hadvance : m.advance (exec m.k m.thread.regs i).code =
      { m.thread with sys := (exec m.k m.thread.regs i).code ++ rest } := by
    unfold advance
    rw [hs]
  have hthread : ∀ threads : Addr → Thread, spawn threads (exec m.k m.thread.regs i).spawn = threads := by
    intro threads
    rw [hspawn]
    rfl
  refine ⟨m.execInstr_cpu hi, ?_⟩
  unfold thread
  rw [m.execInstr_cpu hi]
  cases i <;> first
    | exact absurd rfl hi
    | (simp only [execInstr, hthread, hadvance]
       exact Function.update_self ..)

/-- The processor is at the first instruction of the handler. -/
theorem next_of_sys {m : Machine} {i : Instr} {rest : List Instr} (hs : m.thread.sys = i :: rest) :
    m.next = some i := by
  unfold next
  rw [hs]

end Machine

/-- **What a handler does** is a path of its code. -/
theorem Handles.path {p : Addr} {m m' : Machine} (h : Handles p m m')
    (hcode : ∀ i ∈ m.thread.sys, i.creates = false) :
    m'.cpu = m.cpu ∧ (∀ i ∈ m'.thread.sys, i.creates = false) ∧
      (handlerCode p).Path ((m.k, m.thread.regs), m.thread.sys)
        ((m'.k, m'.thread.regs), m'.thread.sys) := by
  induction h with
  | start => exact ⟨rfl, hcode, .refl⟩
  | @exec m1 m2 i rest h hs hi hstep ih =>
      obtain ⟨hcpu, hcreates, hpath⟩ := ih
      obtain ⟨j, hn, -, rfl⟩ := Machine.step_exec hstep
      cases hn.symm.trans (Machine.next_of_sys hs)
      have hc := hcreates i (hs ▸ List.mem_cons_self)
      obtain ⟨hcpu', hthread⟩ := Machine.execInstr_thread hs hi (exec_spawn_none _ _ hc)
      refine ⟨hcpu'.trans hcpu, ?_, ?_⟩
      · rw [hthread]
        intro j hj
        rcases List.mem_append.mp hj with hj | hj
        · exact exec_creates _ _ hc j hj
        · exact hcreates j (hs ▸ .tail _ hj)
      · refine hpath.tail ?_
        rw [hthread, m1.execInstr_k hi, hs]
        exact .run (C := handlerCode p) hi
  | @back m1 rest k' h hs hrun hcur hrun' ih =>
      obtain ⟨hcpu, hcreates, hpath⟩ := ih
      refine ⟨hcpu, ?_, ?_⟩
      · intro j hj
        rw [Machine.regain_thread] at hj
        exact hcreates j (hs ▸ .tail _ hj)
      · refine hpath.tail ?_
        rw [Machine.regain_thread, hs]
        exact .leave (C := handlerCode p) rfl ⟨hrun, hcur, hrun', rfl⟩

/-- A path of its code is something the handler can do. -/
theorem Handles.of_path {p : Addr} {m : Machine} (hcode : ∀ i ∈ m.thread.sys, i.creates = false)
    {s : Kernel × Regs} {code : List Instr}
    (h : (handlerCode p).Path ((m.k, m.thread.regs), m.thread.sys) (s, code)) :
    ∃ m', Handles p m m' ∧ m'.k = s.1 ∧ m'.thread.regs = s.2 ∧ m'.thread.sys = code := by
  suffices hall : ∀ y, (handlerCode p).Path ((m.k, m.thread.regs), m.thread.sys) y →
      ∃ m', Handles p m m' ∧ m'.k = y.1.1 ∧ m'.thread.regs = y.1.2 ∧ m'.thread.sys = y.2 from
    hall _ h
  intro y hy
  induction hy with
  | refl => exact ⟨m, .start, rfl, rfl, rfl⟩
  | tail _ hstep ih =>
      obtain ⟨m1, hm1, hk, hr, hs⟩ := ih
      obtain ⟨-, hcreates, -⟩ := hm1.path hcode
      cases hstep with
      | @run s i rest hi =>
          change m1.k = s.1 at hk
          change m1.thread.regs = s.2 at hr
          have hc := hcreates i (hs ▸ List.mem_cons_self)
          obtain ⟨-, hthread⟩ := Machine.execInstr_thread hs hi (exec_spawn_none _ _ hc)
          have hstep : m1.step .exec = some (m1.execInstr i) := by
            unfold Machine.step
            rw [Machine.next_of_sys hs]
            cases i <;> first | rfl | cases hc
          refine ⟨_, hm1.exec hs hi hstep, ?_, ?_, ?_⟩
          · rw [m1.execInstr_k hi, hk, hr]
            rfl
          · rw [hthread, hk, hr]
            rfl
          · rw [hthread, hk, hr]
            rfl
      | @leave s s' i rest hi hback =>
          obtain ⟨hrun, hcur, hrun', hregs⟩ := hback
          cases hi
          refine ⟨_, hm1.back hs (by rw [hk]; exact hrun) hcur hrun', rfl, ?_, ?_⟩
          · rw [Machine.regain_thread]
            exact hr.trans hregs.symm
          · rw [Machine.regain_thread]

end TpSo
