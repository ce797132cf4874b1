import TpSo.Memory.MyMallocSound

set_option autoImplicit false

/-! # What `myMalloc.c` can still serve when everything was given back

`mem_free` does not join a block with its free neighbours. The heap is whole again exactly where no
request ever cut it; from the first cut on no block is as large as the one of `mem_init`. -/

namespace TpSo.MyMalloc

open Bytes Tiling

variable {heap : HeapArray} {mem : Memory} {c c' : Client} {blocks : List Tiling.Block} {req : Request}

/-- Every request that can be served right after `mem_init` is served. -/
def Reusable (c : Client) : Prop :=
  ∀ size : BitVec 64, size.toNat ≤ HEAP_SIZE - BLOCK_SIZE →
    ∃ ptr s, memAlloc c.state size = some (ptr, s) ∧ ptr ≠ NULL

/-- A request made while nothing is live asks for so much that no header fits behind it. -/
def KeepsWhole (c : Client) : Request → Prop
  | .alloc size => c.live = [] → HEAP_SIZE - 2 * BLOCK_SIZE ≤ size.toNat
  | _ => True

instance (c : Client) (req : Request) : Decidable (KeepsWhole c req) := by
  unfold KeepsWhole
  split <;> infer_instance

/-- The heap is one block, the one of `mem_init`. -/
def Whole (heap : HeapArray) (c : Client) : Prop :=
  ∃ b, Sound heap c [b] ∧ b.size = HEAP_SIZE - BLOCK_SIZE

/-- Every block is smaller than the one of `mem_init`. -/
def Cut (heap : HeapArray) (c : Client) : Prop :=
  ∃ blocks, Sound heap c blocks ∧ ∀ b ∈ blocks, b.size < HEAP_SIZE - BLOCK_SIZE

theorem append_cons_eq_singleton {α : Type} {l r : List α} {b b' : α} (h : [b] = l ++ b' :: r) :
    l = [] ∧ b' = b ∧ r = [] := by
  cases l with
  | nil =>
    simp only [List.nil_append, List.cons.injEq] at h
    exact ⟨rfl, h.1.symm, h.2.symm⟩
  | cons a l => simp at h

/-- Where nothing is live, every block is free. -/
theorem Sound.free_of_live_nil (h : Sound heap c blocks) (hlive : c.live = []) {b : Tiling.Block}
    (hb : b ∈ blocks) : b.free = true := by
  by_contra hused
  obtain ⟨e, he, -⟩ := h.held b hb (by simpa using hused)
  simp [hlive] at he

/-- Where some block is free and there is only one, nothing is live. -/
theorem Sound.live_nil {b : Tiling.Block} (h : Sound heap c [b]) (hfree : b.free = true) : c.live = [] := by
  apply List.eq_nil_iff_forall_not_mem.mpr
  intro e he
  obtain ⟨b', hb', hused, -⟩ := h.owned e he
  rw [List.mem_singleton.mp hb', hfree] at hused
  cases hused

/-! ## What a request does to the heap -/

theorem Whole.step (h : Whole heap c) (hkeeps : KeepsWhole c req) (hs : c.step req = some c') :
    Whole heap c' := by
  obtain ⟨b, hsound, hsize⟩ := h
  cases req with
  | alloc size =>
    rcases hsound.alloc hs with ⟨rfl, -⟩ | ⟨l, b', r, hblocks, hfits, -, hsound'⟩
    · exact ⟨b, hsound, hsize⟩
    · obtain ⟨rfl, rfl, rfl⟩ := append_cons_eq_singleton hblocks
      simp only [fits, Bool.and_eq_true, decide_eq_true_eq] at hfits
      have hlarge := hkeeps (hsound.live_nil hfits.1)
      have huncut : ¬ size.toNat + BLOCK_SIZE < b'.size := by
        simp only [BLOCK_SIZE, HEAP_SIZE] at hlarge hsize ⊢
        omega
      rw [carve, if_neg huncut] at hsound'
      exact ⟨_, hsound', hsize⟩
  | free ptr =>
    obtain ⟨l, b', r, hblocks, -, hsound'⟩ := hsound.free hs
    obtain ⟨rfl, rfl, rfl⟩ := append_cons_eq_singleton hblocks
    exact ⟨_, hsound', hsize⟩
  | write ptr offset byte => exact ⟨b, (hsound.write hs).2, hsize⟩

/-- The first request that does not keep the heap whole cuts it. -/
theorem Whole.cut (h : Whole heap c) (hkeeps : ¬ KeepsWhole c req) (hs : c.step req = some c') :
    Cut heap c' := by
  obtain ⟨b, hsound, hsize⟩ := h
  cases req with
  | alloc size =>
    simp only [KeepsWhole, Classical.not_imp, not_le] at hkeeps
    obtain ⟨hlive, hsmall⟩ := hkeeps
    have hfree := hsound.free_of_live_nil hlive List.mem_cons_self
    have hcut : size.toNat + BLOCK_SIZE < b.size := by
      simp only [BLOCK_SIZE, HEAP_SIZE] at hsmall hsize ⊢
      omega
    rcases hsound.alloc hs with ⟨-, hunfit⟩ | ⟨l, b', r, hblocks, -, -, hsound'⟩
    · have hunfitb := hunfit b List.mem_cons_self
      simp only [fits, hfree, Bool.true_and, decide_eq_false_iff_not] at hunfitb
      omega
    · obtain ⟨rfl, rfl, rfl⟩ := append_cons_eq_singleton hblocks
      refine ⟨_, hsound', ?_⟩
      intro d hd
      simp only [carve, if_pos hcut, List.nil_append, List.append_nil, List.mem_cons,
        List.not_mem_nil, or_false] at hd
      rcases hd with rfl | rfl
      · simp only [BLOCK_SIZE, HEAP_SIZE] at hsmall ⊢
        omega
      · simp only [BLOCK_SIZE, HEAP_SIZE] at hsize hcut ⊢
        omega
  | free ptr => exact absurd trivial hkeeps
  | write ptr offset byte => exact absurd trivial hkeeps

/-- What is cut stays cut. -/
theorem Cut.step (h : Cut heap c) (hs : c.step req = some c') : Cut heap c' := by
  obtain ⟨blocks, hsound, hsmall⟩ := h
  cases req with
  | alloc size =>
    rcases hsound.alloc hs with ⟨rfl, -⟩ | ⟨l, b, r, rfl, hfits, -, hsound'⟩
    · exact ⟨blocks, hsound, hsmall⟩
    · refine ⟨_, hsound', ?_⟩
      intro d hd
      simp only [fits, Bool.and_eq_true, decide_eq_true_eq] at hfits
      simp only [List.mem_append] at hd
      rcases hd with (hl | hcarve) | hr
      · exact hsmall d (by simp [hl])
      · have hle := size_le_of_mem_carve hfits.2 hcarve
        have hb := hsmall b (by simp)
        omega
      · exact hsmall d (by simp [hr])
  | free ptr =>
    obtain ⟨l, b, r, rfl, -, hsound'⟩ := hsound.free hs
    refine ⟨_, hsound', ?_⟩
    intro d hd
    simp only [List.mem_append, List.mem_singleton] at hd
    rcases hd with (hl | rfl) | hr
    · exact hsmall d (by simp [hl])
    · exact hsmall b (by simp)
    · exact hsmall d (by simp [hr])
  | write ptr offset byte => exact ⟨blocks, (hsound.write hs).2, hsmall⟩

/-! ## Histories -/

theorem Whole.init (heap : HeapArray) (mem : Memory) : Whole heap (Client.init heap mem) :=
  ⟨_, .init heap mem, rfl⟩

/-- A history keeps the heap whole, or leaves it cut. -/
theorem keepsWhole_or_cut {rs : List Request}
    (h : GuardedRun Client.step (fun _ _ => True) c rs c') (hwhole : Whole heap c) :
    GuardedRun Client.step KeepsWhole c rs c' ∨ Cut heap c' := by
  induction h with
  | nil c => exact .inl (.nil c)
  | @cons c c1 c' req rs _ hs hrun ih =>
    by_cases hkeeps : KeepsWhole c req
    · rcases ih (hwhole.step hkeeps hs) with hrest | hcut
      · exact .inl (.cons hkeeps hs hrest)
      · exact .inr hcut
    · right
      apply hrun.invariant (Cut heap)
      · intro s a s' hcut _ hstep
        exact hcut.step hstep
      · exact hwhole.cut hkeeps hs

/-- One block of which nothing is live serves what `mem_init` can. -/
theorem Whole.reusable (h : Whole heap c) (hlive : c.live = []) : Reusable c := by
  obtain ⟨b, hsound, hsize⟩ := h
  have hfree := hsound.free_of_live_nil hlive List.mem_cons_self
  intro size hle
  rcases hsound.laid.memAlloc_cases size with ⟨-, hunfit⟩ | ⟨l, b', r, s', -, -, halloc, -⟩
  · have hunfitb := hunfit b List.mem_cons_self
    simp only [fits, hfree, Bool.true_and, decide_eq_false_iff_not] at hunfitb
    omega
  · exact ⟨_, s', halloc, by simp [BLOCK_SIZE, NULL]⟩

/-- A cut heap never serves the largest request again. -/
theorem Cut.not_reusable (h : Cut heap c) : ¬ Reusable c := by
  obtain ⟨blocks, hsound, hsmall⟩ := h
  intro hreusable
  have hsize : (BitVec.ofNat 64 (HEAP_SIZE - BLOCK_SIZE)).toNat = HEAP_SIZE - BLOCK_SIZE := by decide
  obtain ⟨ptr, s, halloc, hptr⟩ := hreusable (BitVec.ofNat 64 (HEAP_SIZE - BLOCK_SIZE)) hsize.le
  rcases hsound.laid.memAlloc_cases (BitVec.ofNat 64 (HEAP_SIZE - BLOCK_SIZE))
    with ⟨hnone, -⟩ | ⟨l, b, r, s', rfl, hfits, -, -⟩
  · rw [hnone] at halloc
    cases halloc
    exact hptr rfl
  · simp only [fits, Bool.and_eq_true, decide_eq_true_eq, hsize] at hfits
    have hb := hsmall b (by simp)
    omega

/-- **What is given back can be reused exactly where the heap was never cut.** After a history at
    the end of which nothing is live, every request that `mem_init` could serve is served again if and only
    if no request was made, while nothing was live, that left room for another header. -/
theorem reusable_iff {rs : List Request}
    (h : GuardedRun Client.step (fun _ _ => True) (Client.init heap mem) rs c) (hlive : c.live = []) :
    Reusable c ↔ GuardedRun Client.step KeepsWhole (Client.init heap mem) rs c := by
  constructor
  · intro hreusable
    rcases keepsWhole_or_cut h (Whole.init heap mem) with hkeeps | hcut
    · exact hkeeps
    · exact absurd hreusable hcut.not_reusable
  · intro hkeeps
    have hwhole : Whole heap c := by
      apply hkeeps.invariant (Whole heap)
      · intro s a s' hwhole hkeep hstep
        exact hwhole.step hkeep hstep
      · exact Whole.init heap mem
    exact hwhole.reusable hlive

set_option maxRecDepth 100000 in
/-- One byte, given back, and the heap is empty but cut. -/
theorem one_byte_fragments :
    ¬ ∀ (rs : List Request) (c : Client),
      GuardedRun Client.step (fun _ _ => True) (Client.init lowHeap fun _ => 0) rs c →
        c.live = [] → Reusable c := by
  intro hall
  obtain ⟨c, hrun, hend⟩ := (Option.any_eq_true (fun c : Client =>
      decide (c.live = []) && ((memAlloc c.state (BitVec.ofNat 64 (HEAP_SIZE - BLOCK_SIZE))).map
        Prod.fst == some NULL))
    (GuardedRun.check Client.step (fun _ _ => True) (Client.init lowHeap fun _ => 0)
      [.alloc 1, .free 0x1018])).mp (by decide +kernel)
  simp only [Bool.and_eq_true, decide_eq_true_eq, beq_iff_eq, Option.map_eq_some_iff] at hend
  obtain ⟨hlive, ⟨ptr, s⟩, halloc, hnull⟩ := hend
  obtain ⟨ptr', s', halloc', hptr'⟩ :=
    hall _ c (.of_check hrun) hlive (BitVec.ofNat 64 (HEAP_SIZE - BLOCK_SIZE)) (by decide)
  rw [halloc] at halloc'
  cases halloc'
  exact hptr' hnull

set_option maxRecDepth 100000 in
/-- The whole heap, given back, can be had again. -/
theorem reusable_iff_whole_heap : ∃ c : Client, c.live = [] ∧ Reusable c := by
  obtain ⟨c, hrun, hlive⟩ := (Option.any_eq_true (fun c : Client => decide (c.live = []))
    (GuardedRun.check Client.step KeepsWhole (Client.init lowHeap fun _ => 0)
      [.alloc 524264, .alloc 1, .free 0x1018])).mp (by decide +kernel)
  have hkeeps := GuardedRun.of_check hrun
  refine ⟨c, of_decide_eq_true hlive, ?_⟩
  exact (reusable_iff (hkeeps.mono fun _ _ _ => trivial) (of_decide_eq_true hlive)).mpr hkeeps

end TpSo.MyMalloc
