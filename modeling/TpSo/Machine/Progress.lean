import TpSo.Machine.EveryInstr

set_option autoImplicit false

/-! # What the stacks still execute

The code on a stack is that of the handler it is in, if any, followed by the code below. A step takes
the instruction the processor is at off its stack and puts what it expands to in its place; nothing
else is taken off any stack, unless the stack of a new process is prepared. -/

namespace TpSo

/-- The process whose stack was prepared, if any. -/
def Outcome.spawned (o : Outcome) : Option Addr := o.spawn.map Prod.fst

/-- Only `createProcess` prepares a stack. -/
theorem spawned_eq_none (k : Kernel) (r : Regs) {i : Instr} (hi : ∀ args use, i ≠ .createProcess args use) :
    (exec k r i).spawned = none := by
  unfold Outcome.spawned
  cases hsp : (exec k r i).spawn with
  | none => rfl
  | some x =>
      obtain ⟨-, args, use, rfl⟩ := exec_spawn (p := x.1) hsp
      exact absurd rfl (hi args use)

/-- Where code was put in front of other code. -/
theorem append_split {α : Type} {front back new rest : List α} {j : α}
    (h : front ++ j :: back = new ++ rest) : (∃ mid, new = front ++ j :: mid ∧ back = mid ++ rest) ∨
      ∃ mid, front = new ++ mid ∧ rest = mid ++ j :: back := by
  rcases List.append_eq_append_iff.mp h with ⟨mid, rfl, hmid⟩ | ⟨mid, rfl, rfl⟩
  · cases mid with
    | nil => exact .inr ⟨[], by simp, hmid.symm⟩
    | cons b mid =>
        obtain ⟨rfl, rfl⟩ := List.cons.inj hmid
        exact .inl ⟨mid, rfl, rfl⟩
  · exact .inr ⟨mid, rfl, rfl⟩

/-- Can the instruction be in the handler of a system call, an exception or a key? -/
def Instr.starts : Instr → Bool
  | .sys _ | .excMask _ | .excRead _ | .processExit _ | .int20 | .yieldForever | .writePipe _ _
  | .clearPipe _ | .setRax _ => true
  | _ => false

namespace Machine

/-- What a stack still executes, handlers first. -/
def code (m : Machine) (a : Addr) : List Instr := (m.threads a).sys ++ (m.threads a).base

/-- The step prepares the stack of a new process `p`. -/
def Spawns (m : Machine) (a : Action) (p : Addr) : Prop :=
  ∃ i, m.Executes a i ∧ (exec m.k m.thread.regs i).spawned = some p

/-- The instruction the processor is at comes first in the code of its stack. -/
theorem code_of_next {m : Machine} {i : Instr} (h : m.next = some i) : ∃ rest,
    m.code m.cpu = i :: rest ∧
      ∀ code, (m.advance code).sys ++ (m.advance code).base = code ++ rest := by
  unfold next thread at h
  unfold code advance thread
  cases hs : (m.threads m.cpu).sys with
  | cons j sys =>
      rw [hs] at h
      cases h
      exact ⟨sys ++ (m.threads m.cpu).base, rfl, fun code => by simp⟩
  | nil =>
      cases hb : (m.threads m.cpu).base with
      | nil =>
          rw [hs, hb] at h
          cases h
      | cons j base =>
          rw [hs, hb] at h
          cases h
          exact ⟨base, rfl, fun code => by simp [hs]⟩

theorem code_setThread (m : Machine) (t : Thread) (a : Addr) :
    (m.setThread t).code a = if a = m.cpu then t.sys ++ t.base else m.code a := by
  unfold code setThread
  simp only [Function.update_apply]
  split <;> rfl

/-- The code on the stacks after an instruction. -/
theorem execInstr_code {m : Machine} {i : Instr} {rest : List Instr} (hi : i ≠ .int20)
    (hrest : ∀ code, (m.advance code).sys ++ (m.advance code).base = code ++ rest) (a : Addr) :
    (m.execInstr i).code a =
      if (exec m.k m.thread.regs i).spawned = some a then entryCode
      else if a = m.cpu then (exec m.k m.thread.regs i).code ++ rest else m.code a := by
  have hset := m.code_setThread { m.advance (exec m.k m.thread.regs i).code with
    regs := (exec m.k m.thread.regs i).r } a
  rw [hrest] at hset
  have hthreads : (m.execInstr i).threads = spawn (m.setThread
      { m.advance (exec m.k m.thread.regs i).code with regs := (exec m.k m.thread.regs i).r }).threads
      (exec m.k m.thread.regs i).spawn := by
    cases i <;> first | rfl | exact absurd rfl hi
  unfold code at hset ⊢
  rw [hthreads, Outcome.spawned]
  cases hsp : (exec m.k m.thread.regs i).spawn with
  | none => simpa [spawn] using hset
  | some x =>
      obtain ⟨p, c⟩ := x
      obtain ⟨rfl, -⟩ := exec_spawn hsp
      by_cases hap : a = p
      · subst hap
        simp [spawn]
      · simpa [spawn, Function.update_of_ne hap, Ne.symm hap] using hset

/-- What was behind an instruction on its stack is still there. -/
theorem mem_code_execInstr {m : Machine} {i j : Instr} (hi : i ≠ .int20) (hn : m.next = some i)
    (hsp : (exec m.k m.thread.regs i).spawned ≠ some m.cpu) (hj : j ∈ m.code m.cpu) (hji : j ≠ i) :
    j ∈ (m.execInstr i).code m.cpu := by
  obtain ⟨rest, hcode, hrest⟩ := code_of_next hn
  rw [execInstr_code hi hrest, if_neg hsp, if_pos rfl]
  rw [hcode] at hj
  exact List.mem_append_right _ ((List.mem_cons.mp hj).resolve_left hji)

/-- The code of a stack after an instruction: what it expands to, or what was there. -/
theorem execInstr_split {m : Machine} {i j : Instr} {t : Addr} {front back : List Instr}
    (hi : i ≠ .int20) (hn : m.next = some i) (hj : j ≠ .entryWrapper)
    (h : (m.execInstr i).code t = front ++ j :: back) :
    (t = m.cpu ∧ ∃ mid rest, m.code m.cpu = i :: rest ∧ (exec m.k m.thread.regs i).code = front ++ j :: mid ∧
      back = mid ++ rest) ∨
    (t = m.cpu ∧ ∃ mid, m.code t = i :: mid ++ j :: back ∧
      front = (exec m.k m.thread.regs i).code ++ mid) ∨ t ≠ m.cpu ∧ m.code t = front ++ j :: back := by
  obtain ⟨rest, hcode, hrest⟩ := code_of_next hn
  rw [execInstr_code hi hrest] at h
  split at h
  · have hmem : j ∈ entryCode := h ▸ by simp
    exact absurd (List.mem_singleton.mp hmem) hj
  · split at h
    · next ht =>
      subst ht
      rcases append_split h.symm with ⟨mid, hnew, hback⟩ | ⟨mid, hfront, hold⟩
      · exact .inl ⟨rfl, mid, rest, hcode, hnew, hback⟩
      · exact .inr (.inl ⟨rfl, mid, by rw [hcode, hold]; rfl, hfront⟩)
    · next ht => exact .inr (.inr ⟨ht, h⟩)

/-- An instruction of a stack after an instruction. -/
theorem mem_execInstr {m : Machine} {i j : Instr} {t : Addr} (hi : i ≠ .int20) (hn : m.next = some i)
    (hj : j ≠ .entryWrapper) (h : j ∈ (m.execInstr i).code t) :
    j ∈ (exec m.k m.thread.regs i).code ∨ j ∈ m.code t := by
  obtain ⟨front, back, hsplit⟩ := List.append_of_mem h
  rcases execInstr_split hi hn hj hsplit with ⟨-, mid, rest, -, hnew, -⟩ | ⟨-, mid, hold, -⟩ | ⟨-, hold⟩
  · exact .inl (hnew ▸ by simp)
  · exact .inr (hold ▸ by simp)
  · exact .inr (hold ▸ by simp)

/-- A stack the processor is not on is left alone, unless it is prepared anew. -/
theorem step_thread_of_ne {m m' : Machine} {a : Action} (hs : m.step a = some m') {t : Addr}
    (ht : t ≠ m.cpu) (hsp : ¬ m.Spawns a t) : m'.threads t = m.threads t := by
  have hset : ∀ x, (m.setThread x).threads t = m.threads t := fun x => Function.update_of_ne ht ..
  cases a with
  | exec =>
      obtain ⟨i, hn, -, rfl⟩ := step_exec hs
      by_cases hi : i = .int20
      · subst hi
        exact hset (m.advance [])
      · have hthreads : (m.execInstr i).threads = spawn (m.setThread
            { m.advance (exec m.k m.thread.regs i).code with
              regs := (exec m.k m.thread.regs i).r }).threads (exec m.k m.thread.regs i).spawn := by
          cases i <;> first | rfl | exact absurd rfl hi
        rw [hthreads]
        cases hspawn : (exec m.k m.thread.regs i).spawn with
        | none => exact hset _
        | some x =>
            have htx : t ≠ x.1 := by
              rintro rfl
              exact hsp ⟨i, ⟨rfl, hn⟩, by rw [Outcome.spawned, hspawn]; rfl⟩
            exact (Function.update_of_ne htx ..).trans (hset _)
  | tick =>
      obtain ⟨-, rfl⟩ := step_tick hs
      rfl
  | syscall c =>
      obtain ⟨-, -, -, rfl⟩ := step_syscall hs
      exact hset _
  | ret =>
      obtain ⟨-, -, rfl⟩ := step_ret hs
      exact hset _
  | exception =>
      obtain ⟨-, -, rfl⟩ := step_exception hs
      exact hset _
  | key e =>
      obtain ⟨-, rfl⟩ := step_key hs
      exact hset _

theorem step_code_of_ne {m m' : Machine} {a : Action} (hs : m.step a = some m') {t : Addr}
    (ht : t ≠ m.cpu) (hsp : ¬ m.Spawns a t) : m'.code t = m.code t := by
  unfold code
  rw [step_thread_of_ne hs ht hsp]

/-- The handler an action enters. -/
def entered (m : Machine) : Action → List Instr
  | .syscall c => [.sys c]
  | .exception => exceptionCode m.k
  | .key e => m.keyHandler e
  | _ => []

/-- The instructions such a handler is made of. -/
theorem entered_starts {m : Machine} {a : Action} : ∀ j ∈ m.entered a, j.starts = true := by
  intro j hj
  cases a with
  | syscall c => exact List.mem_singleton.mp hj ▸ rfl
  | exception =>
      refine List.all_eq_true.mp (?_ : (exceptionCode m.k).all Instr.starts = true) j hj
      unfold exceptionCode
      split <;> rfl
  | key e =>
      refine List.all_eq_true.mp (?_ : (m.keyHandler e).all Instr.starts = true) j hj
      unfold keyHandler keyCode
      repeat' split
      all_goals rfl
  | _ => cases hj

/-- The handler code on the stacks after an instruction. -/
theorem execInstr_sys {m : Machine} {i : Instr} (hn : m.next = some i) (t : Addr) :
    (t ≠ m.cpu ∧ ((m.execInstr i).threads t).sys = (m.threads t).sys) ∨
      ((m.execInstr i).threads t).sys = [] ∨
      t = m.cpu ∧ ∃ rest, (m.threads t).sys = i :: rest ∧
        ((m.execInstr i).threads t).sys = (exec m.k m.thread.regs i).code ++ rest := by
  have hset : ∀ x : Thread, x.sys = (m.advance (exec m.k m.thread.regs i).code).sys →
      (t ≠ m.cpu ∧ ((m.setThread x).threads t).sys = (m.threads t).sys) ∨
        ((m.setThread x).threads t).sys = [] ∨ t = m.cpu ∧ ∃ rest, (m.threads t).sys = i :: rest ∧
          ((m.setThread x).threads t).sys = (exec m.k m.thread.regs i).code ++ rest := by
    intro x hx
    by_cases ht : t = m.cpu
    · subst ht
      rw [show (m.setThread x).threads m.cpu = x from Function.update_self .., hx]
      unfold next thread at hn
      unfold advance thread
      cases hsys : (m.threads m.cpu).sys with
      | nil => exact .inr (.inl (by simp [hsys]))
      | cons y rest =>
          rw [hsys] at hn
          cases hn
          exact .inr (.inr ⟨rfl, rest, rfl, rfl⟩)
    · exact .inl ⟨ht, by rw [show (m.setThread x).threads t = _ from Function.update_of_ne ht ..]⟩
  by_cases hi : i = .int20
  · subst hi
    exact hset _ rfl
  · have hthreads : (m.execInstr i).threads = spawn (m.setThread
        { m.advance (exec m.k m.thread.regs i).code with
          regs := (exec m.k m.thread.regs i).r }).threads (exec m.k m.thread.regs i).spawn := by
      cases i <;> first | rfl | exact absurd rfl hi
    rw [hthreads]
    cases (exec m.k m.thread.regs i).spawn with
    | none => exact hset _ rfl
    | some x =>
        by_cases htx : t = x.1
        · exact .inr (.inl (by simp [spawn, htx]))
        · rw [show spawn _ (some x) t = _ from Function.update_of_ne htx ..]
          exact hset _ rfl

/-- Where the code of a handler comes from that a stack is in after a step. -/
theorem step_sys {m m' : Machine} {a : Action} (hs : m.step a = some m') {t : Addr} {j : Instr}
    (hj : j ∈ (m'.threads t).sys) : j ∈ (m.threads t).sys ∨
      (t = m.cpu ∧ ∃ i, m.Executes a i ∧ i ∈ (m.threads t).sys ∧
        j ∈ (exec m.k m.thread.regs i).code) ∨ t = m.cpu ∧ j ∈ m.entered a := by
  have hset : ∀ x, j ∈ ((m.setThread x).threads t).sys →
      t = m.cpu ∧ j ∈ x.sys ∨ j ∈ (m.threads t).sys := by
    intro x hx
    simp only [setThread, Function.update_apply] at hx
    split at hx
    · next ht => exact .inl ⟨ht, hx⟩
    · exact .inr hx
  cases a with
  | exec =>
      obtain ⟨i, hn, -, rfl⟩ := step_exec hs
      rcases execInstr_sys hn t with ⟨-, h⟩ | h | ⟨ht, rest, hold, h⟩ <;> rw [h] at hj
      · exact .inl hj
      · cases hj
      · rw [hold]
        rcases List.mem_append.mp hj with hnew | hrest
        · exact .inr (.inl ⟨ht, i, ⟨rfl, hn⟩, List.mem_cons_self, hnew⟩)
        · exact .inl (.tail _ hrest)
  | tick =>
      obtain ⟨-, rfl⟩ := step_tick hs
      exact .inl hj
  | ret =>
      obtain ⟨hif, -, rfl⟩ := step_ret hs
      have hsys : m.thread.sys = [] := by simpa [interruptsEnabled] using hif
      rcases hset _ hj with ⟨-, hnew⟩ | hold
      · simp [advance, hsys] at hnew
      · exact .inl hold
  | syscall c =>
      obtain ⟨-, -, -, rfl⟩ := step_syscall hs
      exact (hset _ hj).symm.imp_right .inr
  | exception =>
      obtain ⟨-, -, rfl⟩ := step_exception hs
      exact (hset _ hj).symm.imp_right .inr
  | key e =>
      obtain ⟨-, rfl⟩ := step_key hs
      exact (hset _ hj).symm.imp_right .inr

/-- Where the code comes from that a stack has after a step. -/
theorem step_code {m m' : Machine} {a : Action} (hs : m.step a = some m') {t : Addr} {j : Instr}
    (hj : j ∈ m'.code t) : j ∈ m.code t ∨
      (∃ i, m.Executes a i ∧ j ∈ (exec m.k m.thread.regs i).code) ∨ j = .entryWrapper ∨
        j ∈ m.entered a := by
  have hrest : ∀ {i rest}, m.code m.cpu = i :: rest → j ∈ rest → j ∈ m.code m.cpu := fun h hj =>
    h ▸ .tail _ hj
  have henter : ∀ handler, j ∈ (m.enter handler).code t → j ∈ m.code t ∨ j ∈ handler := by
    intro handler hnew
    rw [show (m.enter handler).code t = _ from code_setThread m _ t] at hnew
    split at hnew
    · next ht =>
      subst ht
      exact (List.mem_append.mp hnew).symm.imp_left (List.mem_append_right _)
    · exact .inl hnew
  -- an instruction leaves code on its own stack and may start a process; interrupts and system
  -- calls put a handler on top of the stack they enter
  cases a with
  | exec =>
      obtain ⟨i, hn, -, rfl⟩ := step_exec hs
      obtain ⟨rest, hcode, hadv⟩ := code_of_next hn
      by_cases hi : i = .int20
      · subst hi
        rw [show (m.execInstr .int20).code t = _ from code_setThread m _ t, hadv] at hj
        split at hj
        · next ht => exact .inl (ht ▸ hrest hcode hj)
        · exact .inl hj
      · rw [execInstr_code hi hadv] at hj
        split at hj
        · exact .inr (.inr (.inl (List.mem_singleton.mp hj)))
        · split at hj
          · next ht =>
            rcases List.mem_append.mp hj with hnew | hold
            · exact .inr (.inl ⟨i, ⟨rfl, hn⟩, hnew⟩)
            · exact .inl (ht ▸ hrest hcode hold)
          · exact .inl hj
  | tick =>
      obtain ⟨-, rfl⟩ := step_tick hs
      exact .inl hj
  | ret =>
      obtain ⟨-, hn, rfl⟩ := step_ret hs
      obtain ⟨rest, hcode, hadv⟩ := code_of_next hn
      rw [code_setThread, hadv] at hj
      split at hj
      · next ht => exact .inl (ht ▸ hrest hcode hj)
      · exact .inl hj
  | syscall c =>
      obtain ⟨-, -, -, rfl⟩ := step_syscall hs
      exact (henter _ hj).imp_right (.inr ∘ .inr)
  | exception =>
      obtain ⟨-, -, rfl⟩ := step_exception hs
      exact (henter _ hj).imp_right (.inr ∘ .inr)
  | key e =>
      obtain ⟨-, rfl⟩ := step_key hs
      exact (henter _ hj).imp_right (.inr ∘ .inr)

/-- **Every other step** takes off the stacks at most an `int 0x20` or user code, puts on them at most the
    handler it enters, and touches no semaphore or pipe. -/
theorem step_other {m m' : Machine} {a : Action} (hs : m.step a = some m')
    (ha : ∀ i, m.Executes a i → i = .int20) : SameObjects m.k m'.k ∧
      ∀ t, ∃ gone new rest, m.code t = gone ++ rest ∧ m'.code t = new ++ rest ∧
        (∀ i ∈ gone, i = .int20 ∨ i = .user) ∧ ∀ j ∈ new, j ∈ m.entered a := by
  have hsame : ∀ t, ∃ gone new rest, m.code t = gone ++ rest ∧ m.code t = new ++ rest ∧
      (∀ i ∈ gone, i = .int20 ∨ i = .user) ∧ ∀ j ∈ new, j ∈ m.entered a :=
    fun t => ⟨[], [], m.code t, rfl, rfl, nofun, nofun⟩
  have hadvance : ∀ i, m.next = some i → i = .int20 ∨ i = .user → ∀ t, ∃ gone new rest,
      m.code t = gone ++ rest ∧ (m.setThread (m.advance [])).code t = new ++ rest ∧
        (∀ i ∈ gone, i = .int20 ∨ i = .user) ∧ ∀ j ∈ new, j ∈ m.entered a := by
    intro i hn hi t
    obtain ⟨rest, hcode, hrest⟩ := code_of_next hn
    rw [code_setThread]
    split
    · next ht =>
      subst ht
      exact ⟨[i], [], rest, hcode, hrest [], fun j hj => List.mem_singleton.mp hj ▸ hi, nofun⟩
    · exact hsame t
  have henter : ∀ handler : List Instr, handler = m.entered a → m.interruptsEnabled → ∀ t,
      ∃ gone new rest, m.code t = gone ++ rest ∧ (m.enter handler).code t = new ++ rest ∧
        (∀ i ∈ gone, i = .int20 ∨ i = .user) ∧ ∀ j ∈ new, j ∈ m.entered a := by
    intro handler hentered hif t
    have hsys : (m.threads m.cpu).sys = [] := by simpa [interruptsEnabled, thread] using hif
    rw [show (m.enter handler).code t = _ from code_setThread m _ t]
    split
    · next ht =>
      subst ht
      exact ⟨[], handler, (m.threads m.cpu).base, by simp [code, hsys], rfl, nofun,
        fun j hj => hentered ▸ hj⟩
    · exact hsame t
  have hswitch : ∀ k rsp, SameObjects k (scheduleTick k rsp).2 := fun k rsp =>
    .of_outside (scheduleTick_outside k rsp)
  cases a with
  | exec =>
      obtain ⟨i, hn, -, rfl⟩ := step_exec hs
      cases ha i ⟨rfl, hn⟩
      exact ⟨hswitch _ _, hadvance .int20 hn (.inl rfl)⟩
  | tick =>
      obtain ⟨-, rfl⟩ := step_tick hs
      exact ⟨(timerHandler_objects m.k).trans (hswitch _ _), hsame⟩
  | syscall c =>
      obtain ⟨hif, -, -, rfl⟩ := step_syscall hs
      exact ⟨.refl _, henter _ rfl hif⟩
  | ret =>
      obtain ⟨-, hn, rfl⟩ := step_ret hs
      exact ⟨.refl _, hadvance .user hn (.inr rfl)⟩
  | exception =>
      obtain ⟨hif, -, rfl⟩ := step_exception hs
      exact ⟨.refl _, henter _ rfl hif⟩
  | key e =>
      obtain ⟨hif, rfl⟩ := step_key hs
      exact ⟨.refl _, henter _ rfl hif⟩

/-- The processor is on one of these stacks, and prepares no others. -/
def staysOn (ts : List Addr) (m : Machine) (a : Action) : Bool :=
  decide (m.cpu ∈ ts) &&
    match a, m.next with
    | .exec, some i => (exec m.k m.thread.regs i).spawned.all (fun p => decide (p ∈ ts))
    | _, _ => true

/-- A run that stays on some stacks leaves the code on all others alone. -/
theorem code_of_staysOn {ts : List Addr} {m m' : Machine} {as : List Action}
    (h : GuardedRun step (fun m a => staysOn ts m a) m as m') {t : Addr} (ht : t ∉ ts) :
    m'.code t = m.code t := by
  refine h.invariant (fun x => x.code t = m.code t) (fun x a x' hx hg hs => ?_) rfl
  simp only [staysOn, Bool.and_eq_true, decide_eq_true_eq] at hg
  obtain ⟨hcpu, hspawn⟩ := hg
  have hne : t ≠ x.cpu := by
    rintro rfl
    exact ht hcpu
  refine (step_code_of_ne hs hne ?_).trans hx
  rintro ⟨i, ⟨rfl, hn⟩, hsp⟩
  simp only [hn, hsp, Option.all_some, decide_eq_true_eq] at hspawn
  exact ht hspawn

/-- From boot on, the other stacks have nothing to execute. -/
theorem code_of_staysOn_boot {ts : List Addr} {memAnswers : Nat → Option Addr} {as : List Action} {m : Machine}
    (hinit : Boot.init ∈ ts)
    (h : GuardedRun step (fun m a => staysOn ts m a) (Boot.machine memAnswers) as m) {t : Addr}
    (ht : t ∉ ts) : m.code t = [.hlt] := by
  have hne : t ≠ Boot.init := by
    rintro rfl
    exact ht hinit
  rw [code_of_staysOn h ht]
  simp [code, Boot.machine, hne]

end Machine

end TpSo
