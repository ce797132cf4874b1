import TpSo.Kernel.Exec

set_option autoImplicit false

/-! # What a stretch of code leaves to be executed

`Instr.comesTo` is the control flow of the kernel, arguments left aside: which instructions can be part of the
code that an instruction expands to. A property of instructions that follows their flow is handed on by
`exec`, whatever the branches of the code. -/

namespace TpSo

/-- Can `j` be part of the code that the instruction expands to? -/
def Instr.comesTo (i j : Instr) : Bool :=
  match i with
  | .processYield => (j matches .int20)
  | .yieldForever => (j matches .processYield | .yieldForever)
  | .hlt => (j matches .hlt)
  | .user => (j matches .user)
  | .spin => (j matches .spin)
  | .registryLock => (j matches .registryLock)
  | .entryWrapper => (j matches .hlt | .initFirst | .user | .processExit _ | .yieldForever)
  | .semWait _ => (j matches .semLock _ | .semWaitLocked _)
  | .semLock _ => (j matches .semLock _)
  | .semWaitLocked _ => (j matches .int20 | .semWaitReturn _ _)
  | .semPost _ => (j matches .semLock _ | .semPostLocked _)
  | .semPostLocked _ | .exitSemPost _ | .initTail _ => (j matches .processYield)
  | .semPostMany _ _ => (j matches .semPost _ | .semPostMany _ _)
  | .semDestroy _ => (j matches .registryLock | .semUnregister _ | .semLock _ | .semDestroyLocked _)
  | .semOpenCheck _ => (j matches .semDestroy _ | .semFree _ | .setRax _)
  | .semReadValue _ _ => (j matches .semPostMany _ _ | .semLock _ | .semStoreValue _ _)
  | .attachToPipe _ => (j matches .semWait _ | .attachLocked _ | .semPost _ | .setRax _)
  | .unattachFromPipe _ _ => (j matches .semWait _ | .unattachLocked _ | .semPost _)
  | .closePipe _ => (j matches .semWait _ | .closeLocked _ _)
  | .closeLocked _ _ => (j matches .semLock _ | .closeReaders _ _ _ | .semPost _ | .closeEnd _ _ _)
  | .closeReaders _ _ _ => (j matches .semLock _ | .closeWriters _ _ _ _)
  | .closeWriters _ _ _ _ => (j matches .semPost _ | .closeEnd _ _ _)
  | .closeEnd _ _ _ => (j matches .semDestroy _ | .destroyPipeFree _ _ | .setRax _)
  | .openPipe => (j matches .spin | .semDestroy _ | .openPipeFail _)
  | .readPipe _ _ => (j matches .readLoop _ _ _)
  | .readLoop _ _ _ => (j matches .semWait _ | .readLocked _ _ _ | .readReturn _ _)
  | .readLocked _ _ _ =>
      (j matches .semPost _ | .semWait _ | .readWoken _ | .readReturn _ _ | .readLoop _ _ _)
  | .writePipe _ _ => (j matches .writeLoop _ _ _)
  | .writeLoop _ _ _ => (j matches .semWait _ | .writeLocked _ _ _)
  | .writeLocked _ _ _ => (j matches .semPost _ | .semWait _ | .writeWoken _ | .writeLoop _ _ _)
  | .clearPipe _ => (j matches .semWait _ | .clearLocked _)
  | .clearLocked _ => (j matches .semLock _ | .clearCount _)
  | .clearCount _ => (j matches .semPost _)
  | .fdAttach _ _ _ _ =>
      (j matches .attachToPipe _ | .fdAttached _ _ _ _ _ | .fdSet _ _ _ | .fdUnattach _ _ | .setRax _)
  | .fdAttached _ _ _ _ _ => (j matches .fdAttach _ _ _ _ | .fdUnattach _ _ | .setRax _)
  | .fdUnattach _ _ | .exitUnattach _ _ => (j matches .unattachFromPipe _ _)
  | .writeAfter _ _ _ => (j matches .writeDrain _ _ _)
  | .writeDrain _ _ _ => (j matches .readPipe _ _ | .writeDrained _ _ _)
  | .writeDrained _ _ _ => (j matches .writeDrain _ _ _)
  | .processExit _ =>
      (j matches .exitUnattach _ _ | .closePipe _ | .exitSemLock _ | .exitSemPost _ | .int20)
  | .exitSemLock _ => (j matches .semLock _)
  | .createProcess _ _ =>
      (j matches .registryLock | .createNamed _ _ _ _ | .processFreeMemory _ | .createFailed _)
  | .createNamed _ _ _ _ => (j matches .createAttach _ _ _ | .processFreeMemory _ | .createFailed _)
  | .createAttach _ _ _ => (j matches .attachToPipe _ | .createAttached _ _ _ _ | .createRegister _ _)
  | .createAttached _ _ _ _ =>
      (j matches .createAttach _ _ _ | .unattachFromPipe _ _ | .processFreeMemory _ | .createFailed _)
  | .createRegister _ _ =>
      (j matches .unattachFromPipe _ _ | .processFreeMemory _ | .createFailed _ | .createForeground _)
  | .createForeground _ => (j matches .createMark _)
  | .createMark _ => (j matches .createDone _)
  | .processFreeMemory _ => (j matches .semDestroy _ | .processFreeRest _)
  | .reapChildProcess _ => (j matches .semWait _ | .reapUnregister _)
  | .reapUnregister _ => (j matches .processFreeMemory _ | .setRax _)
  | .waitChildrenLoop _ _ _ => (j matches .reapChildProcess _ | .waitChildrenLoop _ _ _)
  | .initFirst => (j matches .createProcess _ _ | .initLoop)
  | .initLoop => (j matches .initScan _ _ | .initTail _ | .initLoop)
  | .initScan _ _ => (j matches .reapChildProcess _ | .createProcess _ _ | .initScan _ _)
  | .excRead _ => (j matches .readPipe _ _ | .excReadDone _)
  | .excReadDone _ => (j matches .excRead _)
  | .sys _ => (j matches .readPipe _ _ | .writePipe _ _ | .writeAfter _ _ _ | .semOpenCheck _ | .semDestroy _
      | .semFree _ | .setRax _ | .semWait _ | .semPost _ | .semLock _ | .semReadValue _ _ | .openPipe
      | .fdAttach _ _ _ _ | .clearPipe _ | .int20 | .createProcess _ _ | .processExit _ | .processYield
      | .reapChildProcess _ | .waitChildrenLoop _ _ _ | .spin)
  | _ => false

/-- Repeating an instruction. -/
theorem all_replicate {P : Instr → Bool} {j : Instr} (h : P j = true) (n : Nat) :
    (List.replicate n j).all P = true :=
  List.all_eq_true.mpr fun _ hi => List.eq_of_mem_replicate hi ▸ h

/-- An instruction for each element of a list. -/
theorem all_map {α : Type} {P : Instr → Bool} {f : α → Instr} (h : ∀ x, P (f x) = true) (xs : List α) :
    (xs.map f).all P = true := by
  refine List.all_eq_true.mpr fun j hj => ?_
  obtain ⟨x, -, rfl⟩ := List.mem_map.mp hj
  exact h x

theorem all_append {P : Instr → Bool} {code code' : List Instr} (h : code.all P = true)
    (h' : code'.all P = true) : (code ++ code').all P = true := by
  rw [List.all_append, h, h']
  rfl

theorem all_onSem {P : Instr → Bool} {f : Addr → List Instr} (sem : Option Addr)
    (h : ∀ s, (f s).all P = true) : (onSem sem f).all P = true := by
  cases sem with
  | none => rfl
  | some s => exact h s

theorem createDone_code (k : Kernel) (r : Regs) (p : Addr) (use : CreateUse) :
    (createDone k r p use).code = [] := by
  cases use <;> rfl

/-- **What `exec` leaves to be executed** is what the instruction comes to. -/
theorem exec_comesTo (k : Kernel) (r : Regs) (i : Instr) :
    ∀ j ∈ (exec k r i).code, i.comesTo j = true := by
  refine List.all_eq_true.mp ?_
  cases i
  -- code that is the same list of instructions on each branch
  all_goals first
    | rfl
    | (simp only [exec, openPipeCode, createNamedCode, initFirstCode, initLoopCode, initScanCode,
        initTailCode]; repeat' split) <;> rfl
    | skip
  case closeWriters id pipe attached readers =>
      exact all_append (all_append (all_append rfl (all_replicate rfl _)) (all_replicate rfl _)) rfl
  case clearCount pipe => exact @all_append _ [_] _ rfl (all_replicate rfl _)
  case fdAttach cur changes rest attached =>
      simp only [exec]
      split
      · refine all_append ?_ rfl
        rw [List.all_flatMap]
        exact List.all_eq_true.mpr fun _ _ => rfl
      · rfl
  case fdAttached cur changes change rest attached =>
      simp only [exec]
      split
      · rfl
      · exact all_append (all_map (fun _ => rfl) _) rfl
  case exitSemLock p => exact all_onSem _ fun _ => rfl
  case createAttached c target targets attached =>
      simp only [exec]
      split
      · rfl
      · split
        · exact all_append (all_map (fun _ => rfl) _) rfl
        · rfl
  case createProcess args use =>
      simp only [exec, createProcessCode]
      repeat' split
      all_goals first | rfl | exact all_onSem _ fun _ => rfl
  case createRegister c attached =>
      simp only [exec, createRegisterCode]
      split
      · exact all_append (all_map (fun _ => rfl) _) rfl
      · rfl
  case createDone c =>
      show (createDone k r c.process c.use).code.all _ = true
      rw [createDone_code]
      rfl
  case createFailed use => cases use <;> rfl
  case processFreeMemory p => exact all_append (all_onSem _ fun _ => rfl) rfl
  case reapChildProcess p => exact all_append (all_onSem _ fun _ => rfl) rfl
  case sys c => cases c <;> simp only [exec, sysCode, processWaitPidCode] <;> (repeat' split) <;> rfl

end TpSo
