import TpSo.Pipes.EndOfFile
import TpSo.Sem.KernelSems

set_option autoImplicit false

/-! # Slots of the pipe table

A pipe occupies the slot of its id from `open_pipe` until `close_pipe` finds nobody attached. Ids are
given out in order and never again. -/

namespace TpSo

/-- **Every instruction** but `open_pipe` leaves `next_pipe_id` alone. -/
theorem exec_nextId (k : Kernel) (r : Regs) {i : Instr} (hopen : i ≠ .openPipe) :
    (exec k r i).k.nextPipeId = k.nextPipeId := by
  by_cases htouch : i.touchesGlobals = false
  · exact (exec_sameGlobals k r htouch).nextPipeId
  · cases i <;> try exact absurd rfl htouch
    case openPipe => exact absurd rfl hopen
    case registryLock =>
        simp only [exec]
        split <;> rfl
    case semUnregister s => rfl
    case createNamed c s name targets =>
        rw [show (exec k r (.createNamed c s name targets)).k = (createNamedCode k r c s name targets).k from rfl,
          createNamedCode_kernel]

/-! ## `open_pipe` -/

/-- All `MAX_PIPES` slots are taken. -/
def SlotsFull (k : Kernel) : Prop := ∀ id < MAX_PIPES, (pipeOf k id).isSome

/-- The call returns -1, at once or when it has undone what it had made. -/
def OpenFails (k : Kernel) (r : Regs) : Prop :=
  (openPipeCode k r).code = [] ∧ (openPipeCode k r).r.rax = -1 ∨
    ∃ p, .openPipeFail p ∈ (openPipeCode k r).code

/-- What `mem_alloc` answers when `create_pipe` asks for the pipe and its three semaphores, as far as it
    gets. -/
def createPipeBlocks (k : Kernel) : List (Option Addr) :=
  match k.memAlloc .pipe with
  | (none, _) => [none]
  | (some pipe, k1) => some pipe ::
    match k1.memAlloc .semaphore with
    | (none, _) => [none]
    | (some canRead, k2) => some canRead ::
      let k3 := semInit k2 canRead (semName k.nextPipeId 'R') 0
      match k3.memAlloc .semaphore with
      | (none, _) => [none]
      | (some canWrite, k4) => some canWrite ::
        let k5 := semInit k4 canWrite (semName k.nextPipeId 'W') 0
        [(k5.memAlloc .semaphore).1]

/-- With ids left, `open_pipe` fails only for want of memory. -/
theorem memory_of_openFails {k : Kernel} {r : Regs} (hroom : k.nextPipeId < MAX_PIPES) (hfails : OpenFails k r) :
    none ∈ createPipeBlocks k := by
  have hroom' : ¬ k.nextPipeId ≥ MAX_PIPES := by omega
  unfold OpenFails openPipeCode at hfails
  rw [if_neg hroom'] at hfails
  unfold createPipeBlocks
  rcases memAlloc_cases k .pipe with h | ⟨p, -, -, h⟩ <;> rw [h] at hfails ⊢ <;> dsimp only at hfails ⊢
  · simp
  · rcases memAlloc_cases (k.grant p .pipe) .semaphore with h | ⟨s, -, -, h⟩ <;> rw [h] at hfails ⊢ <;>
      dsimp only at hfails ⊢
    · simp
    · split at hfails
      · simp at hfails
      set k3 := semInit ((k.grant p .pipe).grant s .semaphore) s (semName k.nextPipeId 'R') 0
      rcases memAlloc_cases k3 .semaphore with h | ⟨t, -, -, h⟩ <;> rw [h] at hfails ⊢ <;> dsimp only at hfails ⊢
      · simp
      · split at hfails
        · simp at hfails
        set k5 := semInit (k3.grant t .semaphore) t (semName k.nextPipeId 'W') 0
        rcases memAlloc_cases k5 .semaphore with h | ⟨u, -, -, h⟩ <;> rw [h] at hfails ⊢ <;>
          dsimp only at hfails ⊢
        · simp
        · have hid : ¬ (k.nextPipeId : Int) = -1 := by omega
          split at hfails <;> simp [hid] at hfails

/-- Without, it fails whatever slots are free. -/
theorem openFails_of_no_id {k : Kernel} (r : Regs) (hroom : MAX_PIPES ≤ k.nextPipeId) :
    OpenFails k r := by
  unfold OpenFails openPipeCode
  rw [if_pos hroom]
  exact .inl ⟨rfl, rfl⟩

/-- **When `open_pipe` fails for a good reason**: as long as there are ids left, or no slot. -/
theorem open_fails_duly {k : Kernel} (r : Regs) :
    (OpenFails k r → (k.nextPipeId < MAX_PIPES ∧ none ∈ createPipeBlocks k) ∨ SlotsFull k) ↔
      k.nextPipeId < MAX_PIPES ∨ SlotsFull k := by
  by_cases hroom : k.nextPipeId < MAX_PIPES
  · simp only [hroom, true_or, true_and, iff_true]
    exact fun h => .inl (memory_of_openFails hroom h)
  · have hfails := openFails_of_no_id r (Nat.le_of_not_lt hroom)
    simp [hroom, hfails]

/-! ## Slots that are given back -/

/-- A `close_pipe` on the pipe `id` at `a` that has still to look for attachments, or has found none. -/
def Instr.frees (id : Nat) (a : Addr) : Instr → Bool
  | .closePipe i => i == id
  | .closeLocked i p | .destroyPipeFree i p => i == id && p == a
  | .closeReaders i p attached | .closeWriters i p attached _ | .closeEnd i p attached =>
    i == id && p == a && attached == 0
  | _ => false

/-- The stack `t` will give back the slot of the pipe. -/
def Machine.Frees (m : Machine) (t : Addr) (id : Nat) (a : Addr) : Prop :=
  ∃ i ∈ m.code t, i.frees id a = true

/-- The last attachment of a pipe is given up only by somebody who will close it, and keeps the processor
    until it has. -/
structure Recycles (m : Machine) (a : Action) : Prop where
  /-- `process_exit` has `close_pipe` before it; `set_fd_targets` has not. -/
  unattached : ∀ id p, m.Executes a (.unattachLocked p) → OpenPipe m.k id p →
    (m.k.pipe p).attachedCount = 1 → .closePipe id ∈ m.code m.cpu
  /-- `attached_count` does not wrap. -/
  attached : ∀ p, m.Executes a (.attachLocked p) → (m.k.pipe p).attachedCount + 1 < 256
  /-- `close_pipe` gets its mutex. -/
  locked : ∀ id p, m.Executes a (.closeLocked id p) → m.thread.regs.rax ≠ -1
  /-- A new pipe is not laid over an open one. -/
  opened : ∀ id p, m.Executes a .openPipe →
    pipeOf (exec m.k m.thread.regs .openPipe).k m.k.nextPipeId = some p → ¬ OpenPipe m.k id p
  /-- The stack in execution is not given to a new process while it has a pipe to close. -/
  spawned : ∀ id p, m.Spawns a m.cpu → OpenPipe m.k id p → (m.k.pipe p).attachedCount = 0 →
    ¬ m.Frees m.cpu id p
  /-- Nobody loses the processor who has a pipe to close. -/
  kept : m.switches a → ∀ id p, OpenPipe m.k id p → (m.k.pipe p).attachedCount = 0 → ¬ m.Frees m.cpu id p
  /-- No interrupt comes where a spin lock is taken. -/
  locks : m.LeavesLocks a

/-- **`close_pipe` goes on** until the slot is empty. -/
theorem frees_exec {k : Kernel} {r : Regs} {i : Instr} {id : Nat} {a : Addr} (hopen : OpenPipe k id a)
    (hzero : (k.pipe a).attachedCount = 0) (hrax : ∀ j p, i = .closeLocked j p → r.rax ≠ -1)
    (h : i.frees id a = true) :
    (∃ j ∈ (exec k r i).code, j.frees id a = true) ∨ pipeOf (exec k r i).k id = none := by
  obtain ⟨hpipe, hstd⟩ := hopen
  cases i <;> try cases h
  case closePipe j =>
      cases eq_of_beq h
      exact .inl ⟨.closeLocked id a, by simp [exec, hpipe], by simp [Instr.frees]⟩
  case closeLocked j p =>
      obtain ⟨rfl, rfl⟩ : j = id ∧ p = a := by simpa [Instr.frees] using h
      refine .inl ⟨.closeReaders j p 0, ?_, by simp [Instr.frees]⟩
      simp [exec, hrax j p rfl, hstd, hzero]
  case closeReaders j p attached =>
      obtain ⟨⟨rfl, rfl⟩, rfl⟩ : (j = id ∧ p = a) ∧ attached = 0 := by simpa [Instr.frees] using h
      refine .inl ⟨.closeWriters j p 0 (semWaitingCount k (k.pipe p).canRead), ?_, by simp [Instr.frees]⟩
      simp [exec]
  case closeWriters j p attached readers =>
      obtain ⟨⟨rfl, rfl⟩, rfl⟩ : (j = id ∧ p = a) ∧ attached = 0 := by simpa [Instr.frees] using h
      exact .inl ⟨.closeEnd j p 0, by simp [exec, closeTail], by simp [Instr.frees]⟩
  case closeEnd j p attached =>
      obtain ⟨⟨rfl, rfl⟩, rfl⟩ : (j = id ∧ p = a) ∧ attached = 0 := by simpa [Instr.frees] using h
      exact .inl ⟨.destroyPipeFree j p, by simp [exec, hstd], by simp [Instr.frees]⟩
  case destroyPipeFree j p =>
      obtain ⟨rfl, rfl⟩ : j = id ∧ p = a := by simpa [Instr.frees] using h
      refine .inr ?_
      simp [exec, pipeOf]

/-- The pipe `id` is at `a` as long as it is open, and then somebody is attached to it or the processor is
    about to close it. -/
structure Kept (id : Nat) (a : Addr) (m : Machine) : Prop where
  given : id < m.k.nextPipeId
  held : ∀ b, pipeOf m.k id = some b →
    b = a ∧ (0 < (m.k.pipe a).attachedCount ∨ m.Frees m.cpu id a)

section Step
variable {m m' : Machine} {i : Instr} {id : Nat} {a : Addr}

/-- The processor that will give back the slot still will after an instruction, or the slot is free. -/
theorem Machine.Frees.exec (hg : Recycles m .exec) (hn : m.next = some i) (hi : i ≠ .int20)
    (hopen : OpenPipe m.k id a) (hzero : (m.k.pipe a).attachedCount = 0) (hf : m.Frees m.cpu id a) :
    (m.execInstr i).Frees (m.execInstr i).cpu id a ∨ pipeOf (exec m.k m.thread.regs i).k id = none := by
  obtain ⟨rest, hcode, hrest⟩ := code_of_next hn
  have hspawn : (TpSo.exec m.k m.thread.regs i).spawned ≠ some m.cpu := fun hsp =>
    hg.spawned id a ⟨i, ⟨rfl, hn⟩, hsp⟩ hopen hzero hf
  unfold Frees
  rw [execInstr_cpu m hi, execInstr_code hi hrest, if_neg hspawn, if_pos rfl]
  obtain ⟨j, hj, hfj⟩ := hf
  rw [hcode] at hj
  rcases List.mem_cons.mp hj with rfl | hj
  · have hrax : ∀ x p, j = .closeLocked x p → m.thread.regs.rax ≠ -1 := by
      rintro x p rfl
      exact hg.locked x p ⟨rfl, hn⟩
    refine (frees_exec hopen hzero hrax hfj).imp_left ?_
    rintro ⟨x, hx, hfx⟩
    exact ⟨x, List.mem_append_left _ hx, hfx⟩
  · exact .inl ⟨j, List.mem_append_right _ hj, hfj⟩

/-- **Execution** of a stretch of code. -/
theorem Kept.exec (h : Kept id a m) (hstd : isStd id = false) (hg : Recycles m .exec)
    (hn : m.next = some i) (hi : i ≠ .int20) : Kept id a (m.execInstr i) := by
  -- the processor goes on to free the slot, while the count is 0 and stays so
  have hgoes : ∀ b, pipeOf (TpSo.exec m.k m.thread.regs i).k id = some b → pipeOf m.k id = some a →
      (m.k.pipe a).attachedCount = 0 → (m.execInstr i).Frees (m.execInstr i).cpu id a := by
    intro b hb hopen hzero
    have hfrees := (h.held a hopen).2.resolve_left (by omega)
    exact (hfrees.exec hg hn hi ⟨hopen, hstd⟩ hzero).resolve_right (by simp [hb])
  by_cases hattach : ∃ p, i = .attachLocked p
  · obtain ⟨p, rfl⟩ := hattach
    refine ⟨h.given, fun b hb => ?_⟩
    obtain ⟨rfl, hheld⟩ := h.held b hb
    refine ⟨rfl, ?_⟩
    change 0 < ((m.k.modPipe p Pipe.attach).pipe b).attachedCount ∨ _
    simp only [Kernel.modPipe, Function.update_apply]
    split
    · next hap =>
      subst hap
      have hroom := hg.attached b ⟨rfl, hn⟩
      simp only [Pipe.attach, Nat.mod_eq_of_lt hroom]
      exact .inl (by omega)
    · by_cases hzero : (m.k.pipe b).attachedCount = 0
      · exact .inr (hgoes b hb hb hzero)
      · exact .inl (by omega)
  · by_cases hunattach : ∃ p, i = .unattachLocked p
    · obtain ⟨p, rfl⟩ := hunattach
      refine ⟨h.given, fun b hb => ?_⟩
      obtain ⟨rfl, hheld⟩ := h.held b hb
      refine ⟨rfl, ?_⟩
      change 0 < ((m.k.modPipe p Pipe.unattach).pipe b).attachedCount ∨ _
      simp only [Kernel.modPipe, Function.update_apply]
      by_cases hzero : (m.k.pipe b).attachedCount = 0
      · exact .inr (hgoes b hb hb hzero)
      · split
        · next hap =>
          subst hap
          by_cases hone : (m.k.pipe b).attachedCount = 1
          · have hclose := hg.unattached id b ⟨rfl, hn⟩ ⟨hb, hstd⟩ hone
            refine .inr ⟨.closePipe id, ?_, by simp [Instr.frees]⟩
            rw [m.execInstr_cpu hi]
            exact Machine.mem_code_execInstr hi hn (Option.some_ne_none _).symm hclose (by simp)
          · exact .inl (by simp only [Pipe.unattach]; omega)
        · exact .inl (by omega)
    · by_cases hopens : i = .openPipe
      · subst hopens
        have hstays : (openPipeCode m.k m.thread.regs).k.nextPipeId ≥ m.k.nextPipeId →
            pipeOf (openPipeCode m.k m.thread.regs).k id = pipeOf m.k id →
            (∀ b, pipeOf m.k id = some b → (openPipeCode m.k m.thread.regs).k.pipe b = m.k.pipe b) →
            Kept id a (m.execInstr .openPipe) := by
          refine fun hnext htable hobject => ⟨Nat.lt_of_lt_of_le h.given hnext, fun b hb => ?_⟩
          have hold : pipeOf m.k id = some b := htable ▸ hb
          obtain ⟨rfl, hheld⟩ := h.held b hold
          refine ⟨rfl, ?_⟩
          change 0 < ((openPipeCode m.k m.thread.regs).k.pipe b).attachedCount ∨ _
          rw [hobject b hold]
          by_cases hzero : (m.k.pipe b).attachedCount = 0
          · exact .inr (hgoes b hb hold hzero)
          · exact .inl (by omega)
        rcases openPipe_cases m.k m.thread.regs with hsame | ⟨p, hnew⟩
        · refine hstays (Nat.le_of_eq hsame.next.symm) ?_ fun b _ => by rw [hsame.pipe]
          unfold pipeOf
          rw [hsame.pipes]
        · have hid : id ≠ m.k.nextPipeId := Nat.ne_of_lt h.given
          refine hstays (by rw [hnew.next]; omega) ?_ fun b hb => hnew.pipe b ?_
          · unfold pipeOf
            rw [hnew.pipes, Function.update_of_ne hid]
          · rintro rfl
            refine hg.opened id b ⟨rfl, hn⟩ ?_ ⟨hb, hstd⟩
            change pipeOf (openPipeCode m.k m.thread.regs).k m.k.nextPipeId = some b
            simp [pipeOf, hnew.pipes, hnew.room]
      · have hlinks := exec_sameLinks m.k m.thread.regs (fun p hp => hattach ⟨p, hp⟩)
          (fun p hp => hunattach ⟨p, hp⟩) hopens
        refine ⟨?_, fun b hb => ?_⟩
        · rw [m.execInstr_k hi, exec_nextId m.k m.thread.regs hopens]
          exact h.given
        · rw [m.execInstr_k hi] at hb ⊢
          have hold := hlinks.pipes id b hb
          obtain ⟨rfl, hheld⟩ := h.held b hold
          rw [hlinks.attached]
          refine ⟨rfl, ?_⟩
          by_cases hzero : (m.k.pipe b).attachedCount = 0
          · exact .inr (hgoes b hb hold hzero)
          · exact .inl (by omega)

/-- **Step lemma.** -/
theorem Kept.step (h : Kept id a m) (hstd : isStd id = false) {act : Action} (hg : Recycles m act)
    (hs : m.step act = some m') : Kept id a m' := by
  by_cases hexec : ∃ i, m.Executes act i ∧ i ≠ .int20
  · obtain ⟨i, ⟨rfl, hn⟩, hi⟩ := hexec
    obtain ⟨j, hj, -, rfl⟩ := Machine.step_exec hs
    cases hn.symm.trans hj
    exact h.exec hstd hg hn hi
  · -- nothing but an `int 0x20` or user code is taken off a stack
    have hother : ∀ i, m.Executes act i → i = .int20 := fun i hi => by
      by_contra hne
      exact hexec ⟨i, hi, hne⟩
    obtain ⟨hobj, hcode⟩ := Machine.step_other hs hother
    have hnext := (Machine.step_globals hs hother).nextPipeId
    refine ⟨hnext.symm ▸ h.given, fun b hb => ?_⟩
    have hopen := (SameLinks.of_objects hobj).pipes id b hb
    obtain ⟨rfl, hheld⟩ := h.held b hopen
    rw [hobj.pipe]
    refine ⟨rfl, ?_⟩
    by_cases hzero : (m.k.pipe b).attachedCount = 0
    · refine .inr ?_
      have hfrees := hheld.resolve_left (by omega)
      cases Machine.step_cases hs with
      | switched hsw _ _ => exact absurd hfrees (hg.kept hsw id b ⟨hopen, hstd⟩ hzero)
      | stays _ _ hcpu =>
          rw [hcpu]
          obtain ⟨i, hi, hf⟩ := hfrees
          obtain ⟨gone, new, rest, hold, hnew, hgone, -⟩ := hcode m.cpu
          refine ⟨i, ?_, hf⟩
          rw [hold] at hi
          rw [hnew]
          rcases List.mem_append.mp hi with hi | hi
          · rcases hgone i hi with rfl | rfl <;> cases hf
          · exact List.mem_append_right _ hi
    · exact .inl (by omega)

end Step

/-! ## Runs -/

/-- Slots are taken from the bottom. -/
def SlotsGiven (m : Machine) : Prop := ∀ id a, pipeOf m.k id = some a → id < m.k.nextPipeId

theorem SlotsGiven.step {m m' : Machine} (h : SlotsGiven m) {act : Action}
    (hs : m.step act = some m') : SlotsGiven m' := by
  intro id a ha
  by_cases hopen : m.Executes act .openPipe
  · obtain ⟨rfl, hn⟩ := hopen
    obtain ⟨j, hj, -, rfl⟩ := Machine.step_exec hs
    cases hn.symm.trans hj
    change pipeOf (openPipeCode m.k m.thread.regs).k id = some a at ha
    change id < (openPipeCode m.k m.thread.regs).k.nextPipeId
    rcases openPipe_cases m.k m.thread.regs with hsame | ⟨p, hnew⟩
    · rw [hsame.next]
      exact h id a ((SameLinks.of_same hsame.pipe hsame.pipes).pipes id a ha)
    · rw [hnew.next]
      rcases (openPipe_links m.k m.thread.regs).1 id a ha with rfl | hold
      · omega
      · have hlt := h id a hold
        omega
  · by_cases hexec : ∃ i, m.Executes act i ∧ i ≠ .int20
    · obtain ⟨i, ⟨rfl, hn⟩, hi⟩ := hexec
      obtain ⟨j, hj, -, rfl⟩ := Machine.step_exec hs
      cases hn.symm.trans hj
      have hne : i ≠ .openPipe := fun he => hopen ⟨rfl, he ▸ hn⟩
      rw [m.execInstr_k hi] at ha ⊢
      rw [exec_nextId m.k m.thread.regs hne]
      exact h id a ((exec_keepsPipeSems m.k m.thread.regs hne).pipes id a ha)
    · have hother : ∀ i, m.Executes act i → i = .int20 := fun i hi => by
        by_contra hne
        exact hexec ⟨i, hi, hne⟩
      rw [(Machine.step_globals hs hother).nextPipeId]
      exact h id a ((SameLinks.of_objects (Machine.step_other hs hother).1).pipes id a ha)

theorem SlotsGiven.boot (memAnswers : Nat → Option Addr) : SlotsGiven (Boot.machine memAnswers) := by
  intro id a ha
  simp only [pipeOf, Boot.machine, Boot.kernel] at ha ⊢
  split at ha
  · cases ha
  · split at ha
    · assumption
    · cases ha

/-- **Pipe slots are recycled**, in a run in which the last attachment of a pipe is given up only by
    somebody who goes on to close it, and keeps the processor until it has: `open_pipe` fails for want of
    memory or of slots, as long as it has ids left, and a pipe that has been attached (in `m`) is later (in
    `m'`) no longer in the table, or attached, or the processor is about to take it out. -/
theorem pipe_slots_recycled {memAnswers : Nat → Option Addr} {as as' : List Action} {m m' : Machine}
    (h : GuardedRun Machine.step Recycles (Boot.machine memAnswers) as m)
    (h' : GuardedRun Machine.step Recycles m as' m') :
    (m'.next = some .openPipe →
      ((OpenFails m'.k m'.thread.regs → (m'.k.nextPipeId < MAX_PIPES ∧ none ∈ createPipeBlocks m'.k) ∨
        SlotsFull m'.k) ↔ m'.k.nextPipeId < MAX_PIPES ∨ SlotsFull m'.k)) ∧
    ∀ id a, OpenPipe m.k id a → 0 < (m.k.pipe a).attachedCount → (m'.Frees m'.cpu id a → m'.Spins) →
      (m'.k.pipe a).attachedCount = 0 → pipeOf m'.k id = none := by
  refine ⟨fun _ => open_fails_duly m'.thread.regs, fun id a hopen hatt hno hzero => ?_⟩
  have hgiven : SlotsGiven m :=
    h.invariant SlotsGiven (fun _ _ _ hi _ hs => hi.step hs) (.boot memAnswers)
  have hstart : Kept id a m := by
    refine ⟨hgiven id a hopen.1, fun b hb => ?_⟩
    cases hopen.1.symm.trans hb
    exact ⟨rfl, .inl hatt⟩
  have hkept : Kept id a m' :=
    h'.invariant (Kept id a) (fun _ _ _ hi hg hs => hi.step hopen.2 hg hs) hstart
  cases hp : pipeOf m'.k id with
  | none => rfl
  | some b =>
      rcases (hkept.held b hp).2 with hpos | hfrees
      · omega
      · exact absurd (hno hfrees) (never_spins ((h.append h').mono fun _ _ hg => hg.locks))

/-! ## A condition that can be evaluated -/

/-- The processor has no pipe to close that has lost its last attachment. -/
def nothingToClose (m : Machine) : Bool :=
  (openPipes m.k).all (fun x =>
    decide (0 < (m.k.pipe x.2).attachedCount) || !(m.code m.cpu).any (Instr.frees x.1 x.2))

theorem nothingToClose_spec {m : Machine} (h : nothingToClose m = true) {id : Nat} {a : Addr}
    (hopen : OpenPipe m.k id a) (hzero : (m.k.pipe a).attachedCount = 0) : ¬ m.Frees m.cpu id a := by
  have hone := List.all_eq_true.mp h _ (mem_openPipes hopen)
  simp only [hzero, Nat.lt_irrefl, decide_false, Bool.false_or, Bool.not_eq_true'] at hone
  rintro ⟨i, hi, hf⟩
  exact List.any_eq_false.mp hone i hi hf

/-- The conditions of `Recycles` for the instruction the processor is at. -/
def recyclesInstr (m : Machine) : Instr → Bool
  | .unattachLocked p =>
    (openPipes m.k).all (fun x =>
      decide (x.2 ≠ p) || decide ((m.k.pipe p).attachedCount ≠ 1) ||
        (m.code m.cpu).any (Instr.closesPipe x.1))
  | .attachLocked p => decide ((m.k.pipe p).attachedCount + 1 < 256)
  | .closeLocked _ _ => decide (m.thread.regs.rax ≠ -1)
  | .openPipe =>
    (pipeOf (exec m.k m.thread.regs .openPipe).k m.k.nextPipeId).all (fun p =>
      (openPipes m.k).all (fun x => decide (x.2 ≠ p)))
  | .createProcess _ _ | .int20 => nothingToClose m
  | _ => true

/-- The same for a step. -/
def recyclesStep (m : Machine) (a : Action) : Bool :=
  decide (m.LeavesLocks a) &&
    match a with
    | .exec => m.next.all (recyclesInstr m)
    | .tick => nothingToClose m
    | _ => true

theorem recycles_of_recyclesStep {m : Machine} {a : Action} (h : recyclesStep m a) : Recycles m a := by
  simp only [recyclesStep, Bool.and_eq_true, decide_eq_true_eq] at h
  obtain ⟨hlocks, hstep⟩ := h
  have hinstr : ∀ i, m.Executes a i → recyclesInstr m i = true := by
    rintro i ⟨rfl, hn⟩
    simpa only [hn, Option.all_some] using hstep
  refine ⟨fun id p hex hopen hone => ?_, fun p hex => ?_, fun id p hex => ?_, fun id p hex hp hopen => ?_,
    fun id p hsp hopen hzero => ?_, fun hsw id p hopen hzero => ?_, hlocks⟩
  · have hcheck := hinstr _ hex
    simp only [recyclesInstr, List.all_eq_true] at hcheck
    have hcloses := hcheck _ (mem_openPipes hopen)
    simp only [ne_eq, not_true, decide_false, hone, Bool.false_or, List.any_eq_true] at hcloses
    obtain ⟨i, hi, hc⟩ := hcloses
    cases i <;> try cases hc
    cases eq_of_beq hc
    exact hi
  · simpa [recyclesInstr] using hinstr _ hex
  · simpa [recyclesInstr] using hinstr _ hex
  · have hcheck := hinstr _ hex
    simp only [recyclesInstr, hp, Option.all_some, List.all_eq_true] at hcheck
    simpa using hcheck _ (mem_openPipes hopen)
  · obtain ⟨i, hex, hspawned⟩ := hsp
    have hcheck := hinstr i hex
    obtain ⟨args, use, rfl⟩ : ∃ args use, i = .createProcess args use := by
      by_contra hno
      have hnone := spawned_eq_none m.k m.thread.regs (i := i) fun args use hi => hno ⟨args, use, hi⟩
      cases hnone.symm.trans hspawned
    exact nothingToClose_spec hcheck hopen hzero
  · cases a with
    | exec => exact nothingToClose_spec (hinstr .int20 ⟨rfl, hsw⟩) hopen hzero
    | tick => exact nothingToClose_spec hstep hopen hzero
    | _ => cases hsw

/-- The processor is giving back the slot. -/
def freesSlot (id : Nat) (a : Addr) (m : Machine) : Bool := (m.code m.cpu).any (Instr.frees id a)

theorem not_frees_of_freesSlot {id : Nat} {a : Addr} {m : Machine} (h : freesSlot id a m = false) :
    ¬ m.Frees m.cpu id a := by
  rintro ⟨i, hi, hf⟩
  exact List.any_eq_false.mp h i hi hf

/-! ## The last attachment goes -/

/-- The shell opens a pipe and makes it its own input. -/
def shellAttaches : List Action :=
  startShell ++
  .syscall .openPipe :: List.replicate 2 .exec ++
  .syscall (.setFdTargets 3 1 2) :: List.replicate 26 .exec

set_option maxRecDepth 100000 in
/-- The shell exits, and its pipe is gone. -/
theorem pipe_slots_recycled_exit : ∃ m m',
    GuardedRun Machine.step Recycles (Boot.machine freshBlocks) shellAttaches m ∧
      GuardedRun Machine.step Recycles m (.syscall (.processExit 0) :: List.replicate 63 .exec) m' ∧
      OpenPipe m.k 3 (KERNEL_BASE + 114) ∧ (m.k.pipe (KERNEL_BASE + 114)).attachedCount = 1 ∧
      pipeOf m'.k 3 = none := by
  obtain ⟨m, hm, hfacts⟩ := (Option.any_eq_true (fun m : Machine =>
    decide (pipeOf m.k 3 = some (KERNEL_BASE + 114)) &&
      decide ((m.k.pipe (KERNEL_BASE + 114)).attachedCount = 1) &&
      (GuardedRun.check Machine.step (fun m a => recyclesStep m a) m
        (.syscall (.processExit 0) :: List.replicate 63 .exec)).any fun m' : Machine =>
          decide ((m'.k.pipe (KERNEL_BASE + 114)).attachedCount = 0) &&
            !freesSlot 3 (KERNEL_BASE + 114) m')
    (GuardedRun.check Machine.step (fun m a => recyclesStep m a) (Boot.machine freshBlocks)
      shellAttaches)).mp (by decide +kernel)
  simp only [Bool.and_eq_true, decide_eq_true_eq, Option.any_eq_true] at hfacts
  obtain ⟨⟨hopen, hone⟩, m', hm', hzero, hquiet⟩ := hfacts
  have hrun := GuardedRun.of_check hm
  have hrun' := GuardedRun.of_check hm'
  have hno := not_frees_of_freesSlot (by simpa using hquiet)
  have hrecycles := hrun.mono fun _ _ h => recycles_of_recyclesStep h
  have hrecycles' := hrun'.mono fun _ _ h => recycles_of_recyclesStep h
  have hgone := (pipe_slots_recycled hrecycles hrecycles').2 3 (KERNEL_BASE + 114) ⟨hopen, rfl⟩
    (by omega) (fun hfrees => absurd hfrees hno) hzero
  exact ⟨m, m', hrecycles, hrecycles', ⟨hopen, rfl⟩, hone, hgone⟩

set_option maxRecDepth 100000 in
/-- The shell makes something else its input, and the pipe keeps its slot. -/
theorem retargeted_pipe_keeps_slot : ¬ ∀ (memAnswers : Nat → Option Addr) (as as' : List Action)
    (m m' : Machine), Reaches memAnswers as m → m.run as' = some m' →
    (m'.next = some .openPipe → OpenFails m'.k m'.thread.regs →
      (m'.k.nextPipeId < MAX_PIPES ∧ none ∈ createPipeBlocks m'.k) ∨ SlotsFull m'.k) ∧
    ∀ id a, OpenPipe m.k id a → 0 < (m.k.pipe a).attachedCount → (m'.Frees m'.cpu id a → m'.Spins) →
      (m'.k.pipe a).attachedCount = 0 → pipeOf m'.k id = none := by
  intro h
  obtain ⟨m, hm, hfacts⟩ := (Option.any_eq_true (fun m : Machine =>
    decide (pipeOf m.k 3 = some (KERNEL_BASE + 114)) &&
      decide ((m.k.pipe (KERNEL_BASE + 114)).attachedCount = 1) &&
      (GuardedRun.check Machine.step (fun _ _ => True) m
        (.syscall (.setFdTargets 0 1 2) :: List.replicate 26 .exec)).any fun m' : Machine =>
          decide (pipeOf m'.k 3 = some (KERNEL_BASE + 114)) &&
            decide ((m'.k.pipe (KERNEL_BASE + 114)).attachedCount = 0) &&
            !freesSlot 3 (KERNEL_BASE + 114) m')
    (GuardedRun.check Machine.step (fun _ _ => True) (Boot.machine freshBlocks)
      shellAttaches)).mp (by decide +kernel)
  simp only [Bool.and_eq_true, decide_eq_true_eq, Option.any_eq_true] at hfacts
  obtain ⟨⟨hopen, hone⟩, m', hm', ⟨hstill, hzero⟩, hquiet⟩ := hfacts
  have hrun := GuardedRun.of_check hm
  have hrun' := GuardedRun.of_check hm'
  have hno := not_frees_of_freesSlot (by simpa using hquiet)
  have hgone := (h _ _ _ m m' (run_of_guarded hrun) (run_of_guarded hrun')).2 3 (KERNEL_BASE + 114)
    ⟨hopen, rfl⟩ (by omega) (fun hfrees => absurd hfrees hno) hzero
  cases hstill.symm.trans hgone

end TpSo
