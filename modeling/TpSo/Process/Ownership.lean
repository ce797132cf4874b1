import Mathlib.Data.List.ReduceOption
import TpSo.Process.Build

set_option autoImplicit false

/-! # The blocks of a process object

What `process_free_memory` gives back: the object, its `argv` with the strings, its stack and its exit
semaphore. While `createProcess` builds an object these are the blocks it has allocated since, so that
freeing the object leaves the heap as it was. -/

namespace TpSo

/-- The blocks a process object points to. -/
def Process.blocks (p : Process) : List Addr :=
  (p.argv.elim [] fun argv => argv.2.reduceOption ++ [argv.1]) ++ p.stackBase.toList ++ p.exitSem.toList

/-- Beyond those of `k0`, the blocks of `k` are the process object at `a` and what it points to. -/
structure Owned (k0 k : Kernel) (a : Addr) : Prop where
  self : k0.live a = none
  free : ∀ x ∈ (k.proc a).blocks, k0.live x = none
  same : ∀ x, x ≠ a → x ∉ (k.proc a).blocks → k.live x = k0.live x

namespace Owned

variable {k0 k k' : Kernel} {a : Addr}

/-- What is free now was free then. -/
theorem was_free (h : Owned k0 k a) {x : Addr} (hx : k.live x = none) : k0.live x = none := by
  by_cases hxa : x = a
  · exact hxa ▸ h.self
  · by_cases hm : x ∈ (k.proc a).blocks
    · exact h.free x hm
    · exact (h.same x hxa hm).symm.trans hx

/-- More blocks, which the object now points to. -/
theorem takes (h : Owned k0 k a) (new : List Addr) (hnew : ∀ x ∈ new, k.live x = none)
    (hblocks : ∀ x, x ∈ (k'.proc a).blocks ↔ x ∈ new ∨ x ∈ (k.proc a).blocks)
    (hlive : ∀ x, x ∉ new → k'.live x = k.live x) : Owned k0 k' a where
  self := h.self
  free x hx := ((hblocks x).mp hx).elim (fun hm => h.was_free (hnew x hm)) (h.free x)
  same x hxa hx := by
    have hno := not_or.mp (mt (hblocks x).mpr hx)
    exact (hlive x hno.1).trans (h.same x hxa hno.2)

/-- Nothing is allocated. -/
theorem congr (h : Owned k0 k a) (hblocks : (k'.proc a).blocks = (k.proc a).blocks)
    (hlive : k'.live = k.live) : Owned k0 k' a where
  self := h.self
  free x hx := h.free x (hblocks ▸ hx)
  same x hxa hx := hlive ▸ h.same x hxa (hblocks ▸ hx)

end Owned

/-! ## Allocating -/

/-- The strings that `allocArgs` adds are new blocks, and all it allocates. -/
theorem allocArgs_blocks (n : Nat) : ∀ (k : Kernel) (done : List (Option Addr)), ∃ new,
    (allocArgs k n done).2.1.reduceOption = done.reduceOption ++ new ∧
      (∀ x ∈ new, k.live x = none) ∧
      ∀ x, x ∉ new → (allocArgs k n done).2.2.live x = k.live x := by
  induction n with
  | zero => exact fun k done => ⟨[], by simp [allocArgs], by simp, fun _ _ => rfl⟩
  | succ n ih =>
      intro k done
      unfold allocArgs
      rcases memAlloc_cases k .bytes with h | ⟨a, ha, -, h⟩ <;> rw [h] <;> dsimp only
      · exact ⟨[], by simp [List.reduceOption_append], by simp, fun _ _ => rfl⟩
      · obtain ⟨new, hblocks, hnew, hlive⟩ := ih (k.grant a .bytes) (done ++ [some a])
        have hother : ∀ x, x ≠ a → (k.grant a .bytes).live x = k.live x := fun x hx =>
          Function.update_of_ne hx ..
        refine ⟨a :: new, by simp [hblocks, List.reduceOption_append], ?_, ?_⟩
        · intro x hx
          by_cases hxa : x = a
          · rwa [hxa]
          · exact (hother x hxa).symm.trans (hnew x ((List.mem_cons.mp hx).resolve_left hxa))
        · intro x hx
          obtain ⟨hxa, hm⟩ := not_or.mp (mt List.mem_cons.mpr hx)
          exact (hlive x hm).trans (hother x hxa)

theorem allocArgv_owned {k0 k : Kernel} {a : Addr} (h : Owned k0 k a) (hargv : (k.proc a).argv = none)
    (argc : Nat) : Owned k0 (allocArgv k a argc).2 a := by
  unfold allocArgv
  rcases memAlloc_cases k .bytes with hm | ⟨v, hv, -, hm⟩ <;> rw [hm] <;> dsimp only
  · exact h.congr rfl rfl
  · obtain ⟨new, hblocks, hnew, hlive⟩ := allocArgs_blocks argc (k.grant v .bytes) []
    have hother : ∀ x, x ≠ v → (k.grant v .bytes).live x = k.live x := fun x hx =>
      Function.update_of_ne hx ..
    have hproc : (allocArgs (k.grant v .bytes) argc []).2.2.proc = k.proc := by
      rw [allocArgs_kernel]
      rfl
    refine h.takes (v :: new) ?_ ?_ ?_
    · intro x hx
      by_cases hxv : x = v
      · rwa [hxv]
      · exact (hother x hxv).symm.trans (hnew x ((List.mem_cons.mp hx).resolve_left hxv))
    · intro x
      simp only [Kernel.modProc, Function.update_self, Process.setArgv, Process.blocks, Option.elim, hproc,
        hargv, hblocks, List.reduceOption_nil, List.nil_append, List.mem_append, List.mem_cons,
        List.not_mem_nil, or_false]
      tauto
    · intro x hx
      obtain ⟨hxv, hm⟩ := not_or.mp (mt List.mem_cons.mpr hx)
      exact (hlive x hm).trans (hother x hxv)

theorem allocStack_owned {k0 k : Kernel} {a : Addr} (h : Owned k0 k a)
    (hstack : (k.proc a).stackBase = none) : Owned k0 (allocStack k a).2 a := by
  unfold allocStack
  rcases memAlloc_cases k .bytes with hm | ⟨s, hs, -, hm⟩ <;> rw [hm] <;> dsimp only
  · exact h.congr rfl rfl
  · refine h.takes [s] (by simpa using hs) (fun x => ?_) fun x hx => ?_
    · simp only [Kernel.modProc, Function.update_self, Process.setStack, Process.blocks, Kernel.grant,
        Kernel.allocNext, hstack, Option.toList_some, Option.toList_none, List.append_nil, List.mem_append,
        List.mem_singleton]
      tauto
    · exact Function.update_of_ne (by simpa using hx) ..

/-- `process->exit_sem = sem_create()`. -/
theorem setExitSem_owned {k0 k : Kernel} {a s : Addr} (h : Owned k0 k a) (hs : k.live s = none)
    (hsem : (k.proc a).exitSem = none) :
    Owned k0 ((k.grant s .semaphore).modProc a (Process.setExitSem s)) a := by
  refine h.takes [s] (by simpa using hs) (fun x => ?_) fun x hx => ?_
  · simp only [Kernel.modProc, Function.update_self, Process.setExitSem, Process.blocks, Kernel.grant,
      Kernel.allocNext, hsem, Option.toList_some, Option.toList_none, List.append_nil, List.mem_append,
      List.mem_singleton]
    tauto
  · exact Function.update_of_ne (by simpa using hx) ..

/-! ## Freeing -/

theorem freeBlock_live (k : Kernel) (b : Option Addr) (x : Addr) :
    (freeBlock k b).live x = if b = some x then none else k.live x := by
  cases b with
  | none => rfl
  | some a =>
      simp only [freeBlock, Kernel.memFree, Function.update_apply, Option.some.injEq, eq_comm]

theorem freeBlocks_live (blocks : List (Option Addr)) (x : Addr) :
    ∀ k : Kernel, (blocks.foldl freeBlock k).live x = if some x ∈ blocks then none else k.live x := by
  induction blocks with
  | nil => exact fun _ => rfl
  | cons b blocks ih =>
      intro k
      rw [List.foldl_cons, ih, freeBlock_live]
      by_cases hb : b = some x
      · simp [hb]
      · by_cases hm : some x ∈ blocks <;> simp [hb, hm, Ne.symm hb]

theorem freeArgvAndStack_proc (k : Kernel) (a : Addr) :
    (freeArgvAndStack k a).proc a = { k.proc a with argv := none, stackBase := none } := by
  unfold freeArgvAndStack
  split <;> dsimp only <;> rw [freeBlock_kernel] <;> try rw [freeBlocks_kernel]
  all_goals exact Function.update_self ..

theorem freeArgvAndStack_live (k : Kernel) (a x : Addr) : (freeArgvAndStack k a).live x =
    if x ∈ { k.proc a with exitSem := none }.blocks then none else k.live x := by
  unfold freeArgvAndStack Process.blocks
  split
  · next hargv =>
    simp only [Kernel.modProc, freeBlock_live, hargv, Option.elim, List.nil_append, Option.toList_none,
      List.append_nil, Option.mem_toList]
  · next v strings hargv =>
    have hproc : (strings.foldl freeBlock k).proc = k.proc := by rw [freeBlocks_kernel]
    simp only [Kernel.modProc, freeBlock_live, hproc, hargv, Option.elim, Kernel.memFree,
      Function.update_apply, freeBlocks_live, Option.toList_none, List.append_nil, List.mem_append,
      List.mem_singleton, Option.mem_toList, List.reduceOption_mem_iff]
    by_cases hs : (k.proc a).stackBase = some x <;> by_cases hv : x = v <;>
      by_cases hm : some x ∈ strings <;> simp [hs, hv, hm]

/-- The first half of `process_free_memory`: the exit semaphore and the object are left. -/
theorem freeArgvAndStack_owned {k0 k : Kernel} {a : Addr} (h : Owned k0 k a) :
    Owned k0 (freeArgvAndStack k a) a := by
  have hsplit : ∀ x, x ∈ (k.proc a).blocks ↔
      x ∈ { k.proc a with exitSem := none }.blocks ∨ (k.proc a).exitSem = some x := by
    intro x
    simp only [Process.blocks, List.mem_append, Option.toList_none, List.not_mem_nil, or_false,
      Option.mem_toList]
  have hblocks : ∀ x, x ∈ ((freeArgvAndStack k a).proc a).blocks ↔ (k.proc a).exitSem = some x := by
    intro x
    rw [freeArgvAndStack_proc]
    simp [Process.blocks]
  refine ⟨h.self, fun x hx => h.free x ((hsplit x).mpr (.inr ((hblocks x).mp hx))), fun x hxa hx => ?_⟩
  rw [freeArgvAndStack_live]
  split
  · next hm => exact (h.free x ((hsplit x).mpr (.inl hm))).symm
  · next hm => exact h.same x hxa fun hb => ((hsplit x).mp hb).elim hm fun he => hx ((hblocks x).mpr he)

/-- **The second half** leaves the heap as it was. -/
theorem freeExitSemAndProcess_live {k0 k : Kernel} {a : Addr} (h : Owned k0 k a)
    (hargv : (k.proc a).argv = none) (hstack : (k.proc a).stackBase = none) :
    (freeExitSemAndProcess k a).live = k0.live := by
  funext x
  have hblocks : x ∈ (k.proc a).blocks ↔ (k.proc a).exitSem = some x := by
    simp [Process.blocks, hargv, hstack]
  unfold freeExitSemAndProcess
  simp only [Kernel.memFree, Kernel.modProc, Function.update_apply, freeBlock_live]
  by_cases hxa : x = a
  · rw [if_pos hxa, hxa, h.self]
  · rw [if_neg hxa]
    split
    · next he => exact (h.free x (hblocks.mpr he)).symm
    · next he => exact h.same x hxa (mt hblocks.mp he)

end TpSo
