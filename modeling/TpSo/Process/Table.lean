import TpSo.Kernel.ProcessTable
import TpSo.Scheduler.Queues

set_option autoImplicit false

/-! # The process table

What `process_lookup` finds, and how `process_register` and `process_unregister` change it. -/

namespace TpSo

/-- `process_lookup` reads the slot of the pid. -/
theorem processLookup_eq_some {k : Kernel} {pid : Nat} {p : Addr} :
    processLookup k pid = some p ↔
      PROCESS_FIRST_PID ≤ pid ∧ pid - PROCESS_FIRST_PID < PROCESS_MAX_PROCESSES ∧
        k.processes (pid - PROCESS_FIRST_PID) = some p := by
  unfold processLookup
  dsimp only
  constructor
  · intro h
    split at h
    · exact absurd h (by simp)
    · split at h
      · exact absurd h (by simp)
      · next h1 h2 => exact ⟨Nat.not_lt.mp h1, Nat.not_le.mp h2, h⟩
  · rintro ⟨h1, h2, h3⟩
    rw [if_neg (Nat.not_lt.mpr h1), if_neg (Nat.not_le.mpr h2), h3]

theorem processLookup_of_outer {k k' : Kernel} (h : k'.outer = k.outer) (pid : Nat) :
    processLookup k' pid = processLookup k pid := by
  unfold processLookup
  rw [processes_of_outer h]

/-- `process_register` writes to the table alone. -/
theorem processRegister_kernel (k : Kernel) (p : Addr) :
    (processRegister k p).2 = { k with
      processes := (processRegister k p).2.processes
      processCount := (processRegister k p).2.processCount } := by
  unfold processRegister
  dsimp only
  split
  · rfl
  · split
    · rfl
    · split <;> rfl

/-- `process_unregister` writes to `pcb` alone. -/
theorem processUnregister_kernel (k : Kernel) (pid : Nat) :
    processUnregister k pid = { k with
      processes := (processUnregister k pid).processes
      processCount := (processUnregister k pid).processCount
      runningPid := (processUnregister k pid).runningPid } := by
  unfold processUnregister
  dsimp only
  repeat' split
  all_goals rfl

/-- A registered process was registered before, or is the one just registered under its pid. -/
theorem processRegister_lookup {k : Kernel} {p q : Addr} {pid : Nat}
    (h : processLookup (processRegister k p).2 pid = some q) :
    processLookup k pid = some q ∨
      (processRegister k p).1 = true ∧ q = p ∧ pid = (k.proc p).pid := by
  rw [processLookup_eq_some] at h ⊢
  obtain ⟨h1, h2, h3⟩ := h
  unfold processRegister at h3 ⊢
  dsimp only at h3 ⊢
  split at h3
  · exact .inl ⟨h1, h2, h3⟩
  · next hmin =>
    split at h3
    · exact .inl ⟨h1, h2, h3⟩
    · next hmax =>
      split at h3
      · exact .inl ⟨h1, h2, h3⟩
      · next hfree =>
        dsimp only at h3
        rw [Function.update_apply] at h3
        split at h3
        · next hslot =>
          refine .inr ⟨?_, (Option.some.inj h3).symm, by omega⟩
          rw [if_neg hmin, if_neg hmax, if_neg hfree]
        · exact .inl ⟨h1, h2, h3⟩

/-- `process_register` fills a free slot: what was registered stays so. -/
theorem processRegister_keeps {k : Kernel} {p q : Addr} {pid : Nat}
    (h : processLookup k pid = some q) : processLookup (processRegister k p).2 pid = some q := by
  rw [processLookup_eq_some] at h ⊢
  obtain ⟨h1, h2, h3⟩ := h
  refine ⟨h1, h2, ?_⟩
  unfold processRegister
  dsimp only
  split
  · exact h3
  · split
    · exact h3
    · split
      · exact h3
      · next hfree =>
        have hne : pid - PROCESS_FIRST_PID ≠ (k.proc p).pid - PROCESS_FIRST_PID := by
          intro he
          rw [he] at h3
          exact hfree (by rw [h3]; rfl)
        exact (Function.update_of_ne hne _ _).trans h3

/-- A process that `process_register` accepts is found under its pid. -/
theorem processRegister_self {k : Kernel} {p : Addr} (h : (processRegister k p).1 = true) :
    processLookup (processRegister k p).2 (k.proc p).pid = some p := by
  rw [processLookup_eq_some]
  unfold processRegister at h ⊢
  dsimp only at h ⊢
  split at h
  · cases h
  · next h1 =>
    split at h
    · cases h
    · next h2 =>
      split at h
      · cases h
      · next h3 =>
        rw [if_neg h1, if_neg h2, if_neg h3]
        exact ⟨Nat.not_lt.mp h1, Nat.not_le.mp h2, Function.update_self ..⟩

/-- The slot `process_register` fills was free. -/
theorem processRegister_free {k : Kernel} {p : Addr} (h : (processRegister k p).1 = true) :
    processLookup k (k.proc p).pid = none := by
  unfold processRegister at h
  unfold processLookup
  dsimp only at h ⊢
  split at h
  · cases h
  · next h1 =>
    split at h
    · cases h
    · next h2 =>
      split at h
      · cases h
      · next h3 =>
        rw [if_neg h1, if_neg h2]
        simpa using h3

/-- `process_unregister` empties the slot of its pid, and no other. -/
theorem processUnregister_keeps {k : Kernel} {q : Addr} {pid pid' : Nat}
    (h : processLookup k pid' = some q) (hne : pid' ≠ pid) :
    processLookup (processUnregister k pid) pid' = some q := by
  rw [processLookup_eq_some] at h ⊢
  obtain ⟨h1, h2, h3⟩ := h
  refine ⟨h1, h2, ?_⟩
  unfold processUnregister
  dsimp only
  split
  · exact h3
  · next hpid =>
    split
    · exact h3
    · split
      · exact h3
      · refine (Function.update_of_ne ?_ _ _).trans h3
        omega

/-- `process_unregister` registers nobody. -/
theorem processUnregister_lookup {k : Kernel} {q : Addr} {pid pid' : Nat}
    (h : processLookup (processUnregister k pid) pid' = some q) : processLookup k pid' = some q := by
  rw [processLookup_eq_some] at h ⊢
  obtain ⟨h1, h2, h3⟩ := h
  refine ⟨h1, h2, ?_⟩
  unfold processUnregister at h3
  dsimp only at h3
  split at h3
  · exact h3
  · split at h3
    · exact h3
    · split at h3
      · exact h3
      · dsimp only at h3
        rw [Function.update_apply] at h3
        split at h3
        · cases h3
        · exact h3

/-- After `process_unregister` the pid is free. -/
theorem processUnregister_free (k : Kernel) (pid : Nat) :
    processLookup (processUnregister k pid) pid = none := by
  cases h : processLookup (processUnregister k pid) pid with
  | none => rfl
  | some q =>
      obtain ⟨h1, h2, h3⟩ := processLookup_eq_some.mp h
      have hold := processUnregister_lookup h
      obtain ⟨-, -, hslot⟩ := processLookup_eq_some.mp hold
      unfold processUnregister at h3
      dsimp only at h3
      rw [if_neg (Nat.not_lt.mpr h1), if_neg (Nat.not_le.mpr h2), if_neg (by simp [hslot])] at h3
      simp at h3

/-- The slot of a process that has just been entered is empty again. -/
theorem processUnregister_register {k k' : Kernel} {p : Addr} (h : (processRegister k p).1 = true)
    (hprocesses : k'.processes = (processRegister k p).2.processes)
    (hcount : k'.processCount = (processRegister k p).2.processCount) :
    (processUnregister k' (k.proc p).pid).processes = k.processes ∧
      (processUnregister k' (k.proc p).pid).processCount = k.processCount := by
  unfold processRegister at h hprocesses hcount
  unfold processUnregister
  dsimp only at h hprocesses hcount ⊢
  split at h
  · cases h
  · next hlow =>
    split at h
    · cases h
    · next hhigh =>
      split at h
      · cases h
      · next hfree =>
        rw [if_neg hlow, if_neg hhigh, if_neg hfree] at hprocesses hcount
        have hnone : k.processes ((k.proc p).pid - PROCESS_FIRST_PID) = none := by simpa using hfree
        have hslot : (k'.processes ((k.proc p).pid - PROCESS_FIRST_PID)).isNone = false := by
          simp [hprocesses]
        rw [if_neg hlow, if_neg hhigh, hslot]
        simp only [Bool.false_eq_true, if_false, hprocesses, hcount, Function.update_idem]
        exact ⟨by rw [← hnone, Function.update_eq_self], Nat.add_sub_cancel ..⟩

theorem processRegister_fails {k : Kernel} {p : Addr} (h : (processRegister k p).1 = false) :
    (processRegister k p).2 = k := by
  unfold processRegister at h ⊢
  dsimp only at h ⊢
  split
  · rfl
  · next hlow =>
    rw [if_neg hlow] at h
    split
    · rfl
    · next hhigh =>
      rw [if_neg hhigh] at h
      split
      · rfl
      · next hfree =>
        rw [if_neg hfree] at h
        cases h

end TpSo
