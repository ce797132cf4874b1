import TpSo.Machine.Rest

set_option autoImplicit false

/-! # The process table along an execution

Only the end of a creation and `reap_child_process` write to the process table. -/

namespace TpSo

/-- The process is in the process table. -/
def Registered (k : Kernel) (p : Addr) : Prop := ∃ pid, processLookup k pid = some p

theorem processLookup_congr {k k' : Kernel} (h : k'.processes = k.processes) (pid : Nat) :
    processLookup k' pid = processLookup k pid := by
  unfold processLookup
  rw [h]

theorem Registered.congr {k k' : Kernel} (h : k'.processes = k.processes) {p : Addr} :
    Registered k' p ↔ Registered k p :=
  exists_congr fun pid => by rw [processLookup_congr h]

/-! ## The longer stretches -/

theorem processes_of_outside {k k' : Kernel} (h : k'.outside = k.outside) :
    k'.processes = k.processes := processes_of_outer (outer_of_outside h)

/-- Does the instruction write to the process table? -/
def Instr.touchesTable : Instr → Bool
  | .createRegister _ _ | .reapUnregister _ => true
  | _ => false

/-- **All other instructions** leave the process table as it is. -/
theorem exec_processes (k : Kernel) (r : Regs) {i : Instr} (hi : i.touchesTable = false) :
    (exec k r i).k.processes = k.processes := by
  by_cases hrest : i.touchesRest = false
  · exact (exec_sameRest k r hrest).processes
  · cases i <;> try exact absurd rfl hrest
    case processExit p => exact processes_of_outer (exitFirstHalf_outer k p)
    case createRegister c attached => cases hi
    case createForeground c =>
        simp only [exec, createForeground]
        split <;> rfl
    case createMark c =>
        simp only [exec, createMark]
        split <;> rfl
    case reapUnregister p => cases hi
    case excMask masked => rfl
    case sys c =>
        cases c <;> try exact absurd rfl hrest
        case sleepTicks n => exact (sleepTicks_sleeps k n).processes
        case processGiveForeground pid =>
            simp only [exec, sysCode, giveForegroundTo]
            repeat' split
            all_goals rfl

/-! ## Who stays registered -/

theorem enterTree_keeps {k : Kernel} {c : Creation} {pid : Nat} {q : Addr}
    (h : processLookup k pid = some q) : processLookup (enterTree k c).2 pid = some q := by
  have hreg : processLookup (processRegister k c.process).2 pid = some q := processRegister_keeps h
  unfold enterTree
  dsimp only
  split
  · exact hreg
  · next hok =>
    split
    · exact hreg
    · next parent _ =>
      have hfam := addChild_family (processRegister k c.process).2 parent c.process
      have hadd : processLookup (addChild (processRegister k c.process).2 parent c.process).2 pid =
          some q := (processLookup_of_outer hfam.outer pid).trans hreg
      split
      · exact hadd
      · refine processUnregister_keeps hadd ?_
        -- the slot given back is the one that was free before
        rw [hfam.pid, processRegister_kernel]
        rintro rfl
        have hfree := processRegister_free (by simpa using hok)
        exact absurd (hfree.symm.trans h) (by simp)

/-- Who is registered once the process is entered in the tree. -/
theorem enterTree_lookup {k : Kernel} {c : Creation} {pid : Nat} {q : Addr}
    (h : processLookup (enterTree k c).2 pid = some q) :
    processLookup k pid = some q ∨
      (enterTree k c).1 = true ∧ q = c.process ∧ pid = (k.proc c.process).pid := by
  unfold enterTree at h ⊢
  dsimp only at h ⊢
  split at h
  · next hno => exact (processRegister_lookup h).imp_right fun hr => absurd hr.1 hno
  · next hok =>
    rw [if_neg hok]
    split at h
    · exact processRegister_lookup h
    · next parent _ =>
      have hfam := addChild_family (processRegister k c.process).2 parent c.process
      split at h
      · next hadd =>
        rw [processLookup_of_outer hfam.outer] at h
        rw [if_pos hadd]
        exact (processRegister_lookup h).imp_right fun hr => ⟨hadd, hr.2⟩
      · have hold := processUnregister_lookup h
        rw [processLookup_of_outer hfam.outer] at hold
        refine (processRegister_lookup hold).imp_right fun ⟨_, _, hpid⟩ => ?_
        -- the slot just filled is given back
        subst hpid
        have hpid' : ((addChild (processRegister k c.process).2 parent c.process).2.proc
            c.process).pid = (k.proc c.process).pid := by
          rw [hfam.pid, processRegister_kernel]
        rw [hpid', processUnregister_free] at h
        cases h

theorem createRegisterCode_processes (k : Kernel) (r : Regs) (c : Creation) (attached : List Nat) :
    (createRegisterCode k r c attached).k.processes = (enterTree k c).2.processes := by
  rw [createRegisterCode_k]

/-- The instruction takes the process `p` out of the table: it is what the slot of the reaped
    process's pid holds. -/
def Unregisters (k : Kernel) (i : Instr) (p : Addr) : Prop :=
  ∃ c, i = .reapUnregister c ∧ processLookup k (k.proc c).pid = some p

/-- **Every instruction** leaves the slots of the table that are taken as they are, but for the
    reap of the process with that pid. -/
theorem exec_keeps {k : Kernel} {r : Regs} {i : Instr} {pid : Nat} {p : Addr}
    (h : processLookup k pid = some p) : processLookup (exec k r i).k pid = some p ∨
      ∃ c, i = .reapUnregister c ∧ pid = (k.proc c).pid := by
  by_cases hi : i.touchesTable = false
  · exact .inl ((processLookup_congr (exec_processes k r hi) pid).trans h)
  · cases i <;> try exact absurd rfl hi
    case createRegister c attached =>
        have henter : processLookup (enterTree k c).2 pid = some p := enterTree_keeps h
        exact .inl ((processLookup_congr (createRegisterCode_processes k r c attached) pid).trans henter)
    case reapUnregister c =>
        by_cases hc : pid = (k.proc c).pid
        · exact .inr ⟨c, rfl, hc⟩
        · exact .inl (processUnregister_keeps h hc)

/-- **Every instruction** leaves a registered process registered, but for a reap of its slot. -/
theorem exec_registered {k : Kernel} {r : Regs} {i : Instr} {p : Addr} (h : Registered k p) :
    Registered (exec k r i).k p ∨ Unregisters k i p := by
  obtain ⟨pid, hpid⟩ := h
  rcases exec_keeps (r := r) (i := i) hpid with hkeep | ⟨c, rfl, rfl⟩
  · exact .inl ⟨pid, hkeep⟩
  · exact .inr ⟨c, rfl, hpid⟩

/-- **Every instruction** registers nobody, but for the end of a creation. -/
theorem exec_lookup {k : Kernel} {r : Regs} {i : Instr} {pid : Nat} {p : Addr}
    (h : processLookup (exec k r i).k pid = some p) : processLookup k pid = some p ∨
      ∃ c attached, i = .createRegister c attached ∧ (enterTree k c).1 = true ∧ p = c.process ∧
        pid = (k.proc c.process).pid := by
  by_cases hi : i.touchesTable = false
  · rw [processLookup_congr (exec_processes k r hi)] at h
    exact .inl h
  · cases i <;> try exact absurd rfl hi
    case createRegister c attached =>
        change processLookup (createRegisterCode k r c attached).k pid = some p at h
        rw [processLookup_congr (createRegisterCode_processes k r c attached)] at h
        exact (enterTree_lookup h).imp_right fun hr => ⟨c, attached, rfl, hr⟩
    case reapUnregister c => exact .inl (processUnregister_lookup h)

end TpSo
