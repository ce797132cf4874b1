import TpSo.Machine.Expansion
import TpSo.Machine.Steps

set_option autoImplicit false

/-! # What the code on the stacks can be

A property of instructions that every stretch of code hands on to the instructions it expands to
holds of all code on all stacks, once it holds of what system calls, interrupts and new processes
start with. -/

namespace TpSo

/-- Every instruction on every stack has the property. -/
def EveryInstr (P : Instr → Prop) (m : Machine) : Prop :=
  ∀ a, ∀ i ∈ (m.threads a).sys ++ (m.threads a).base, P i

/-- What handlers and stacks start with has the property. -/
structure StartsWith (P : Instr → Prop) : Prop where
  entry : P .entryWrapper
  hlt : P .hlt
  sys : ∀ c, P (.sys c)
  exception : ∀ k, ∀ j ∈ Machine.exceptionCode k, P j
  key : ∀ k e, ∀ j ∈ Machine.keyCode k e, P j
  setRax : ∀ v, P (.setRax v)

/-- So has it, and it is handed on by `exec`. -/
structure HandedOn (P : Instr → Prop) : Prop extends StartsWith P where
  exec : ∀ k r i, P i → ∀ j ∈ (exec k r i).code, P j

namespace EveryInstr

variable {P : Instr → Prop} {m m' : Machine}

theorem next (h : EveryInstr P m) {i : Instr} (hi : m.next = some i) : P i := by
  refine h m.cpu i ?_
  unfold Machine.next Machine.thread at hi
  cases hs : (m.threads m.cpu).sys with
  | cons j sys =>
      rw [hs] at hi
      cases hi
      exact List.mem_cons_self
  | nil =>
      cases hb : (m.threads m.cpu).base with
      | cons j base =>
          rw [hs, hb] at hi
          cases hi
          exact List.mem_cons_self
      | nil =>
          rw [hs, hb] at hi
          cases hi

/-- Writing a thread whose code has the property. -/
theorem setThread (h : EveryInstr P m) {t : Thread} (ht : ∀ i ∈ t.sys ++ t.base, P i) :
    EveryInstr P (m.setThread t) := by
  intro a
  simp only [Machine.setThread, Function.update_apply]
  split
  · exact ht
  · exact h a

/-- Going on with code that has the property. -/
theorem advance (h : EveryInstr P m) {code : List Instr} (hc : ∀ i ∈ code, P i) :
    ∀ i ∈ (m.advance code).sys ++ (m.advance code).base, P i := by
  have hcpu := h m.cpu
  unfold Machine.advance Machine.thread
  intro i hi
  cases hs : (m.threads m.cpu).sys with
  | cons j sys =>
      rw [hs, List.cons_append] at hcpu
      simp only [hs, List.append_assoc, List.mem_append] at hi
      rcases hi with hi | hi | hi
      · exact hc i hi
      · exact hcpu i (.tail _ (List.mem_append_left _ hi))
      · exact hcpu i (.tail _ (List.mem_append_right _ hi))
  | nil =>
      rw [hs, List.nil_append] at hcpu
      simp only [hs, List.nil_append, List.mem_append] at hi
      rcases hi with hi | hi
      · exact hc i hi
      · exact hcpu i (List.mem_of_mem_tail hi)

/-- Entering a handler. -/
theorem enter (h : EveryInstr P m) {code : List Instr} (hc : ∀ i ∈ code, P i) :
    EveryInstr P (m.enter code) := by
  refine h.setThread fun i hi => ?_
  rcases List.mem_append.mp hi with hi | hi
  · exact hc i hi
  · exact h m.cpu i (List.mem_append_right _ hi)

/-- A new stack has the code `stackInit` prepared. -/
theorem spawn (hP : StartsWith P) {threads : Addr → Thread}
    (h : ∀ a, ∀ i ∈ (threads a).sys ++ (threads a).base, P i) {s : Option (Addr × List Instr)}
    (hs : ∀ p code, s = some (p, code) → code = entryCode) :
    ∀ a, ∀ i ∈ (Machine.spawn threads s a).sys ++ (Machine.spawn threads s a).base, P i := by
  intro a
  cases s with
  | none => exact h a
  | some x =>
      simp only [Machine.spawn, Function.update_apply]
      split
      · rw [hs x.1 x.2 rfl]
        intro i hi
        cases List.mem_singleton.mp hi
        exact hP.entry
      · exact h a

end EveryInstr

/-- Is the instruction part of a creation, user code, or can it come to one of these? -/
def Instr.creates : Instr → Bool
  | .createProcess _ _ | .createNamed _ _ _ _ | .createAttach _ _ _ | .createAttached _ _ _ _
  | .createRegister _ _ | .createForeground _ | .createMark _ | .createDone _ | .initFirst
  | .initLoop | .initScan _ _ | .entryWrapper | .sys _ | .user => true
  | _ => false

/-- **All other instructions** do not. -/
theorem exec_creates (k : Kernel) (r : Regs) {i : Instr} (hi : i.creates = false) :
    ∀ j ∈ (exec k r i).code, j.creates = false := by
  intro j hj
  have hcomes := exec_comesTo k r i j hj
  cases j <;> first | rfl | cases i <;> first | cases hi; done | cases hcomes

/-- System calls come from user code only. -/
theorem exec_noSys (k : Kernel) (r : Regs) (i : Instr) (c : Syscall) : .sys c ∉ (exec k r i).code := by
  intro hj
  have hcomes := exec_comesTo k r i _ hj
  cases i <;> cases hcomes

/-- Only `createProcess` prepares a stack, and its code is `process_entry_wrapper`. -/
theorem exec_spawn {k : Kernel} {r : Regs} {i : Instr} {p : Addr} {code : List Instr}
    (h : (exec k r i).spawn = some (p, code)) :
    code = entryCode ∧ ∃ args use, i = .createProcess args use := by
  cases i
  all_goals first
    | cases h
    | (simp only [exec] at h; repeat' split at h) <;> cases h
    | skip
  case openPipe =>
      simp only [exec, openPipeCode] at h
      repeat' split at h
      all_goals cases h
  case createProcess args use =>
      simp only [exec, createProcessCode] at h
      repeat' split at h
      all_goals cases h
      exact ⟨rfl, args, use, rfl⟩
  case createNamed c s name targets =>
      simp only [exec, createNamedCode] at h
      split at h <;> cases h
  case createRegister c attached =>
      simp only [exec, createRegisterCode, createRollback] at h
      split at h <;> cases h
  case createDone c =>
      simp only [exec, createDone] at h
      cases hu : c.use <;> rw [hu] at h <;> cases h
  case createFailed use => cases use <;> cases h
  case initFirst =>
      simp only [exec, initFirstCode] at h
      repeat' split at h
      all_goals cases h
  case initLoop =>
      simp only [exec, initLoopCode] at h
      split at h <;> cases h
  case initScan self left =>
      simp only [exec, initScanCode] at h
      repeat' split at h
      all_goals cases h
  case sys c =>
      cases c <;> simp only [exec, sysCode, processWaitPidCode] at h <;> (repeat' split at h) <;> cases h

namespace EveryInstr

variable {P : Instr → Prop} {m m' : Machine}

/-- A step whose instruction expands to such code. -/
theorem step_of (hP : StartsWith P) (h : EveryInstr P m) {a : Action} (hs : m.step a = some m')
    (hexec : ∀ i, m.Executes a i → ∀ j ∈ (exec m.k m.thread.regs i).code, P j) : EveryInstr P m' := by
  cases a with
  | exec =>
      obtain ⟨i, hn, -, rfl⟩ := Machine.step_exec hs
      by_cases hi : i = .int20
      · subst hi
        exact h.setThread (h.advance (by simp))
      · have hcode := hexec i ⟨rfl, hn⟩
        have hset : EveryInstr P (m.setThread
            { m.advance (TpSo.exec m.k m.thread.regs i).code with
              regs := (TpSo.exec m.k m.thread.regs i).r }) :=
          h.setThread (h.advance hcode)
        have hspawn := spawn hP hset (s := (TpSo.exec m.k m.thread.regs i).spawn)
          fun p code hp => (exec_spawn hp).1
        cases i <;> first | exact hspawn | exact absurd rfl hi
  | tick =>
      obtain ⟨-, rfl⟩ := Machine.step_tick hs
      exact h
  | syscall c =>
      obtain ⟨-, -, -, rfl⟩ := Machine.step_syscall hs
      refine h.enter fun i hi => ?_
      cases List.mem_singleton.mp hi
      exact hP.sys c
  | ret =>
      obtain ⟨-, -, rfl⟩ := Machine.step_ret hs
      exact h.setThread (h.advance (by simp))
  | exception =>
      obtain ⟨-, -, rfl⟩ := Machine.step_exception hs
      exact h.enter (hP.exception m.k)
  | key e =>
      obtain ⟨-, rfl⟩ := Machine.step_key hs
      refine h.enter fun i hi => ?_
      rcases List.mem_append.mp hi with hi | hi
      · exact hP.key m.k e i hi
      · cases List.mem_singleton.mp hi
        exact hP.setRax _

/-- **Step lemma.** -/
theorem step (hP : HandedOn P) (h : EveryInstr P m) {a : Action} (hs : m.step a = some m') :
    EveryInstr P m' :=
  h.step_of hP.toStartsWith hs fun i hi => hP.exec _ _ i (h.next hi.2)

theorem boot (hP : StartsWith P) (memAnswers : Nat → Option Addr) :
    EveryInstr P (Boot.machine memAnswers) := by
  intro a i hi
  simp only [Boot.machine] at hi
  split at hi
  · cases List.mem_singleton.mp hi
    exact hP.entry
  · cases List.mem_singleton.mp hi
    exact hP.hlt

end EveryInstr

end TpSo
