import TpSo.Memory.BuddySound
import TpSo.Memory.MyMallocSound
import TpSo.Memory.TestMm

set_option autoImplicit false

/-! # What the clients of both allocators may rely on

The buddy allocator and the first-fit allocator keep what is written to live blocks. Both are heaps in the
sense of `BlockHeap`, so each refines the objects, and `test_mm` finds no error on either. -/

namespace TpSo

/-! ## The buddy allocator -/

/-- The byte at an address; the bytes of a header are none of the client's. -/
def BuddySystem.byte (s : BuddySystem) (address : Nat) : Option UInt8 :=
  match s.buddy.heap address with
  | .data byte => some byte
  | .pointer _ _ => none

/-- `buddy.c` as a heap. -/
def buddyHeap : BlockHeap BuddySystem UInt8 where
  alloc s size := (s.step (.alloc size)).map fun s' => ((s.buddy.memAlloc size).1, s')
  free s ptr := s.step (.free ptr)
  write s ptr offset byte := s.step (.write ptr offset byte)
  read := BuddySystem.byte
  live s := s.live.map fun a => (a.ptr, a.size)

namespace BuddySystem

open TreeNode

variable {s s' : BuddySystem}

/-- No two blocks held have the same pointer. -/
theorem Sound.eq_of_ptr (h : s.Sound) {a b : Allocation} (ha : a ∈ s.live) (hb : b ∈ s.live)
    (hptr : a.ptr = b.ptr) : a = b := by
  by_contra hne
  have hdisjoint := (h.holds a ha).disjoint (h.holds b hb) (h.apart_of_ne ha hb hne)
  have hpa := (h.holds a ha).size.1
  have hpb := (h.holds b hb).size.1
  omega

theorem Sound.distinct (h : s.Sound) : ((buddyHeap.live s).map Prod.fst).Nodup := by
  have hnodup : s.live.Nodup := by
    refine (List.pairwise_map.mp h.apart).imp ?_
    rintro b c hbc rfl
    exact hbc.1 (List.suffix_refl _)
  rw [buddyHeap, List.map_map]
  exact hnodup.map_on fun a ha b hb => h.eq_of_ptr ha hb

theorem Sound.held_eq (h : s.Sound) {a : Allocation} (ha : a ∈ s.live) : s.held a.ptr = some a := by
  have hsome : (s.held a.ptr).isSome := by
    rw [held, List.find?_isSome]
    exact ⟨a, ha, decide_eq_true rfl⟩
  obtain ⟨b, hheld⟩ := Option.isSome_iff_exists.mp hsome
  obtain ⟨hb, hptr⟩ := held_spec hheld
  rw [hheld, h.eq_of_ptr hb ha hptr]

theorem mem_buddyHeap_live {e : Nat × Nat} : e ∈ buddyHeap.live s ↔ ∃ a ∈ s.live, (a.ptr, a.size) = e :=
  List.mem_map

/-- A header stored in a block leaves the bytes of the others. -/
theorem Sound.spared (h : s.Sound) {a b : Allocation} (ha : a ∈ s.live) (hb : b ∈ s.live) (hne : a ≠ b)
    (heap : Nat → HeapByte) (node : Option Nat) {i : Nat} (hi : i < b.size) :
    storeHeader heap (a.ptr - HEADER_SIZE) node (b.ptr + i) = heap (b.ptr + i) := by
  apply storeHeader_outside
  have hdisjoint := (h.holds a ha).disjoint (h.holds b hb) (h.apart_of_ne ha hb hne)
  have hptr := (h.holds a ha).ptr
  have hsize := (h.holds a ha).size.1
  omega

theorem byte_congr {address : Nat} (h : s'.buddy.heap address = s.buddy.heap address) :
    s'.byte address = s.byte address := by
  rw [byte, byte, h]

theorem Sound.serves_alloc (h : s.Sound) (size : Nat) :
    ∃ ptr s', buddyHeap.alloc s size = some (ptr, s') ∧ s'.Sound ∧
      buddyHeap.live s' = (HeapEvent.alloc (β := UInt8) size ptr).after (buddyHeap.live s) ∧
      buddyHeap.Spares s s' := by
  have hspec := memAlloc_spec h size
  generalize hr : s.buddy.memAlloc size = r at hspec
  cases hspec with
  | failed =>
    have hs : buddyHeap.alloc s size = some (none, s) := by simp [buddyHeap, BuddySystem.step, hr]
    exact ⟨none, s, hs, h, rfl, fun _ _ _ _ _ => rfl⟩
  | found j nodes pos room acquired =>
    have hs : ∃ s', s.step (.alloc size) = some s' ∧
        s'.live.map (fun a => (a.ptr, a.size)) =
          (offset HEAP_ORDER_MAX j + HEADER_SIZE, size) :: buddyHeap.live s ∧
        s'.buddy.heap = storeHeader s.buddy.heap (offset HEAP_ORDER_MAX j) (some j.index) ∧
        ∃ a, s'.live = a :: s.live ∧ a.ptr = offset HEAP_ORDER_MAX j + HEADER_SIZE := by
      simp only [BuddySystem.step, hr]
      exact ⟨_, rfl, rfl, rfl, _, rfl, rfl⟩
    obtain ⟨s', hs, hlive, hheap, a, hcons, hptr⟩ := hs
    have h' := h.alloc hs
    refine ⟨some (offset HEAP_ORDER_MAX j + HEADER_SIZE), s', ?_, h', hlive, ?_⟩
    · simp [buddyHeap, hs, hr]
    · intro e he _ i hi
      obtain ⟨b, hb, rfl⟩ := mem_buddyHeap_live.mp he
      have ha' : a ∈ s'.live := hcons ▸ List.mem_cons_self
      have hb' : b ∈ s'.live := hcons ▸ List.mem_cons_of_mem _ hb
      have hne : a ≠ b := by
        rintro rfl
        have hdistinct := h'.distinct
        rw [show buddyHeap.live s' = _ from hlive, ← hptr] at hdistinct
        exact (List.nodup_cons.mp hdistinct).1 (List.mem_map.mpr ⟨_, he, rfl⟩)
      apply byte_congr
      have hspared := h'.spared ha' hb' hne s.buddy.heap (some j.index) hi
      rw [hptr, Nat.add_sub_cancel] at hspared
      rw [hheap]
      exact hspared

theorem Sound.serves_free (h : s.Sound) {a : Allocation} (ha : a ∈ s.live) :
    ∃ s', buddyHeap.free s a.ptr = some s' ∧ s'.Sound ∧
      buddyHeap.live s' = (HeapEvent.free (β := UInt8) a.ptr).after (buddyHeap.live s) ∧
      buddyHeap.Spares s s' := by
  have hs : s.step (.free a.ptr) = some { buddy := s.buddy.memFree (some a.ptr), live := s.live.erase a } := by
    rw [BuddySystem.step, h.held_eq ha]
    rfl
  have hnodup : s.live.Nodup := List.Nodup.of_map _ (List.Nodup.of_map _ h.distinct)
  have hothers : ∀ b ∈ s.live, (b != a) = decide (b.ptr ≠ a.ptr) := by
    intro b hb
    by_cases hptr : b.ptr = a.ptr
    · simp [h.eq_of_ptr hb ha hptr]
    · have hne : b ≠ a := fun heq => hptr (congrArg Allocation.ptr heq)
      simp [hptr, hne]
  obtain ⟨nodes, heq, -, -⟩ := memFree_spec h ha
  refine ⟨_, hs, h.free hs, ?_, ?_⟩
  · show (s.live.erase a).map _ = (s.live.map _).filter _
    rw [hnodup.erase_eq_filter, List.filter_map, List.filter_congr hothers]
    rfl
  · intro e he he' i hi
    obtain ⟨b, hb, rfl⟩ := mem_buddyHeap_live.mp he'
    have hbl : b ∈ s.live := List.mem_of_mem_erase hb
    have hne : a ≠ b := by
      rintro rfl
      exact hnodup.not_mem_erase hb
    apply byte_congr
    simp only [heq]
    exact h.spared ha hbl hne s.buddy.heap none hi

theorem Sound.serves_write (h : s.Sound) {a : Allocation} (ha : a ∈ s.live) {offset : Nat}
    (hoffset : offset < a.size) (byte : UInt8) :
    ∃ s', buddyHeap.write s a.ptr offset byte = some s' ∧ s'.Sound ∧ buddyHeap.live s' = buddyHeap.live s ∧
      buddyHeap.read s' (a.ptr + offset) = some byte ∧
      ∀ b ∈ s.live, ∀ i < b.size, (b.ptr, i) ≠ (a.ptr, offset) →
        buddyHeap.read s' (b.ptr + i) = buddyHeap.read s (b.ptr + i) := by
  have hs : s.step (.write a.ptr offset byte) = some { s with buddy :=
      { s.buddy with heap := Function.update s.buddy.heap (a.ptr + offset) (.data byte) } } := by
    simp only [BuddySystem.step, h.held_eq ha]
    exact if_pos hoffset
  refine ⟨_, hs, h.write hs, rfl, ?_, ?_⟩
  · show BuddySystem.byte _ _ = _
    simp only [BuddySystem.byte, Function.update_self]
  · intro b hb i hi hplace
    apply byte_congr
    apply Function.update_of_ne
    by_cases hab : b = a
    · rw [hab] at hplace ⊢
      intro heq
      exact hplace (by rw [Nat.add_left_cancel heq])
    · have hdisjoint := (h.holds a ha).disjoint (h.holds b hb) (h.apart_of_ne ha hb (Ne.symm hab))
      omega

end BuddySystem

open BuddySystem in
/-- `buddy.c` does what a heap owes its clients. -/
theorem buddyHeap_keeps : buddyHeap.Keeps (2 ^ 64) BuddySystem.Sound where
  distinct s h := h.distinct
  alloc s size h _ := h.serves_alloc size
  free s ptr h hptr := by
    obtain ⟨e, he, rfl⟩ := List.mem_map.mp hptr
    obtain ⟨a, ha, rfl⟩ := mem_buddyHeap_live.mp he
    exact h.serves_free ha
  write s e he offset hoffset byte h := by
    obtain ⟨a, ha, rfl⟩ := mem_buddyHeap_live.mp he
    obtain ⟨s', hs, hsound, hlive, hread, hothers⟩ := h.serves_write ha hoffset byte
    refine ⟨s', hs, hsound, hlive, hread, ?_⟩
    intro e' he' i hi hplace
    obtain ⟨b, hb, rfl⟩ := mem_buddyHeap_live.mp he'
    exact hothers b hb i hi hplace

/-! ## The first-fit allocator -/

open MyMalloc in
/-- `myMalloc.c` as a heap. -/
def myMallocHeap : BlockHeap MyMalloc.Client UInt8 where
  alloc c size :=
    (memAlloc c.state (BitVec.ofNat 64 size)).bind fun (ptr, _) =>
      (c.step (.alloc (BitVec.ofNat 64 size))).map fun c' => (if ptr = NULL then none else some ptr, c')
  free c ptr := c.step (.free ptr)
  write c ptr offset byte := c.step (.write ptr offset byte)
  read c address := some (c.state.mem address)
  live c := c.live

namespace MyMalloc

open Bytes Tiling

variable {heap : HeapArray} {c c' : Client} {blocks : List Tiling.Block}

/-- What the loop of `mem_alloc` returns. -/
theorem memAllocFrom_result {mem mem' : Memory} {fuel curr size ptr : Nat} (hcurr : curr < 2 ^ 64)
    (h : memAllocFrom fuel mem curr size = some (ptr, mem')) :
    ptr = NULL ∧ mem' = mem ∨
      ∃ p < 2 ^ 64, ptr = (p + BLOCK_SIZE) % 2 ^ 64 ∧ mem' = takeBlock mem p size := by
  induction fuel generalizing curr with
  | zero => cases h
  | succ fuel ih =>
    rw [memAllocFrom] at h
    split_ifs at h with hnull hfits
    · obtain ⟨rfl, rfl⟩ := Prod.mk.inj (Option.some.inj h)
      exact .inl ⟨rfl, rfl⟩
    · obtain ⟨rfl, rfl⟩ := Prod.mk.inj (Option.some.inj h)
      exact .inr ⟨curr, hcurr, rfl, rfl⟩
    · exact ih (loadLE_lt 8 mem (curr + 16)) h

theorem Sound.header_of (h : Sound heap c blocks) {b : Tiling.Block} (hb : b ∈ blocks) :
    Header c.state.mem b := by
  obtain ⟨l, r, rfl⟩ := List.append_of_mem hb
  obtain ⟨mid, -, -, hheader, -⟩ := linked_append.mp h.laid.linked
  exact hheader

/-- What `mem_alloc` changes lies in the block it takes. -/
theorem Sound.alloc_outside (h : Sound heap c blocks) {size : BitVec 64} {b : Tiling.Block} {s' : State}
    (hb : b ∈ blocks) (hfits : fits size.toNat b = true)
    (hs : memAlloc c.state size = some (b.addr + BLOCK_SIZE, s')) {a : Nat}
    (ha : a < b.addr ∨ b.addr + BLOCK_SIZE + b.size ≤ a) : s'.mem a = c.state.mem a := by
  have hpos := h.laid.addr_pos hb
  have hend := h.laid.block_fits hb
  have hbounds := h.laid.tiles.bounds hb
  have hheap := heap.fits
  have hsize : getSize c.state.mem b.addr = b.size := (h.header_of hb).1
  simp only [fits, Bool.and_eq_true, decide_eq_true_eq] at hfits
  obtain ⟨⟨ptr, mem'⟩, hloop, heq⟩ := Option.map_eq_some_iff.mp hs
  obtain ⟨rfl, rfl⟩ := Prod.mk.inj heq
  have hstart : c.state.freeList < 2 ^ 64 := by
    rw [h.laid.start]
    omega
  rcases memAllocFrom_result hstart hloop with ⟨hnull, -⟩ | ⟨p, hp, hptr, rfl⟩
  · simp [BLOCK_SIZE, NULL] at hnull
  · have hblock : p = b.addr := by
      simp only [BLOCK_SIZE] at hptr hbounds
      omega
    rw [hblock]
    exact takeBlock_outside hpos (hsize ▸ hend) (hsize ▸ hfits.2) (hsize ▸ ha)

theorem Sound.serves_alloc (h : Sound heap c blocks) {size : Nat} (hsize : size < 2 ^ 64) :
    ∃ ptr c', myMallocHeap.alloc c size = some (ptr, c') ∧ (∃ blocks', Sound heap c' blocks') ∧
      myMallocHeap.live c' = (HeapEvent.alloc (β := UInt8) size ptr).after (myMallocHeap.live c) ∧
      myMallocHeap.Spares c c' := by
  have htoNat : (BitVec.ofNat 64 size).toNat = size := by
    rw [BitVec.toNat_ofNat]
    exact Nat.mod_eq_of_lt hsize
  rcases h.laid.memAlloc_cases (BitVec.ofNat 64 size) with ⟨hs, -⟩ | ⟨l, b, r, s', hblocks, hfits, hs, -⟩
  · have hstep : myMallocHeap.alloc c size = some (none, c) := by
      simp [myMallocHeap, Client.step, hs]
    exact ⟨none, c, hstep, ⟨blocks, h⟩, rfl, fun _ _ _ _ _ => rfl⟩
  · have hnull : b.addr + BLOCK_SIZE ≠ NULL := by simp [BLOCK_SIZE, NULL]
    have hstep : c.step (.alloc (BitVec.ofNat 64 size)) =
        some { state := s', live := (b.addr + BLOCK_SIZE, size) :: c.live } := by
      simp [Client.step, hs, hnull, htoNat]
    have halloc : myMallocHeap.alloc c size =
        some (some (b.addr + BLOCK_SIZE), { state := s', live := (b.addr + BLOCK_SIZE, size) :: c.live }) := by
      simp [myMallocHeap, hs, hnull, hstep]
    have hb : b ∈ blocks := hblocks ▸ List.mem_append_right _ List.mem_cons_self
    refine ⟨_, _, halloc, h.step hstep, rfl, ?_⟩
    intro e he _ i hi
    obtain ⟨b', hb', hused, hptr, hle⟩ := h.owned e he
    have hne : b' ≠ b := by
      rintro rfl
      simp [fits, hused] at hfits
    have hapart := h.laid.tiles.apart hb' hb hne
    exact congrArg some (h.alloc_outside hb hfits hs (by omega))

theorem Sound.serves_free (h : Sound heap c blocks) {e : Nat × Nat} (he : e ∈ c.live) :
    ∃ c', myMallocHeap.free c e.1 = some c' ∧ (∃ blocks', Sound heap c' blocks') ∧
      myMallocHeap.live c' = (HeapEvent.free (β := UInt8) e.1).after (myMallocHeap.live c) ∧
      myMallocHeap.Spares c c' := by
  obtain ⟨b, hb, hused, hptr, hsize⟩ := h.owned e he
  have hs : c.step (.free e.1) =
      some { state := memFree c.state e.1, live := c.live.filter (fun e' => e'.1 ≠ e.1) } := by
    simp only [Client.step]
    exact if_pos (List.mem_map_of_mem he)
  refine ⟨_, hs, h.step hs, rfl, ?_⟩
  intro e' he' hstays i hi
  obtain ⟨b', hb', hused', hptr', hsize'⟩ := h.owned e' he'
  have hne : b' ≠ b := by
    rintro rfl
    have hother := (List.mem_filter.mp hstays).2
    simp [hptr, hptr'] at hother
  have hapart := h.laid.tiles.apart hb' hb hne
  have hbounds := h.laid.tiles.bounds hb
  have hheap := heap.fits
  have hnull : e.1 ≠ NULL := by simp [hptr, BLOCK_SIZE, NULL]
  have hback : sizeSub e.1 BLOCK_SIZE = b.addr := by
    rw [hptr]
    simp only [sizeSub, BLOCK_SIZE] at hbounds ⊢
    omega
  apply congrArg some
  simp only [memFree, if_neg hnull, hback]
  apply storeLE_outside
  simp only [BLOCK_SIZE] at hapart hptr'
  omega

theorem Sound.serves_write (h : Sound heap c blocks) {e : Nat × Nat} (he : e ∈ c.live) {offset : Nat}
    (hoffset : offset < e.2) (byte : UInt8) :
    ∃ c', myMallocHeap.write c e.1 offset byte = some c' ∧ (∃ blocks', Sound heap c' blocks') ∧
      myMallocHeap.live c' = myMallocHeap.live c ∧ myMallocHeap.read c' (e.1 + offset) = some byte ∧
      ∀ e' ∈ c.live, ∀ i < e'.2, (e'.1, i) ≠ (e.1, offset) →
        myMallocHeap.read c' (e'.1 + i) = myMallocHeap.read c (e'.1 + i) := by
  obtain ⟨b, hb, hused, hptr, hsize⟩ := h.owned e he
  have hs : c.step (.write e.1 offset byte) =
      some { c with state.mem := Function.update c.state.mem (e.1 + offset) byte } := by
    simp only [Client.step]
    exact if_pos ⟨e, he, rfl, hoffset⟩
  refine ⟨_, hs, h.step hs, rfl, congrArg some (Function.update_self _ _ _), ?_⟩
  intro e' he' i hi hplace
  apply congrArg some
  apply Function.update_of_ne
  obtain ⟨b', hb', hused', hptr', hsize'⟩ := h.owned e' he'
  by_cases hsame : b' = b
  · intro heq
    have hpointer : e'.1 = e.1 := by rw [hptr, hptr', hsame]
    have hoff : i = offset := by omega
    exact hplace (by rw [hpointer, hoff])
  · have hapart := h.laid.tiles.apart hb' hb hsame
    simp only [BLOCK_SIZE] at hapart hptr hptr'
    omega

end MyMalloc

open MyMalloc in
/-- `myMalloc.c` does what a heap owes its clients. -/
theorem myMallocHeap_keeps (heap : HeapArray) :
    myMallocHeap.Keeps (2 ^ 64) (fun c => ∃ blocks, MyMalloc.Sound heap c blocks) where
  distinct c h := by
    obtain ⟨blocks, h⟩ := h
    exact h.distinct
  alloc c size h hsize := by
    obtain ⟨blocks, h⟩ := h
    exact h.serves_alloc hsize
  free c ptr h hptr := by
    obtain ⟨blocks, h⟩ := h
    obtain ⟨e, he, rfl⟩ := List.mem_map.mp hptr
    exact h.serves_free he
  write c e he offset hoffset byte h := by
    obtain ⟨blocks, h⟩ := h
    exact h.serves_write he hoffset byte

/-! ## Objects -/

/-- **The buddy allocator keeps objects.** In any run of requests the blocks that are live are the objects, each
    byte of them is what was last written to it, and the next request is served as the objects serve it. -/
theorem buddy_keeps_objects {reqs : List (HeapRequest UInt8)} {w : BuddySystem × Objects UInt8}
    (hrun : GuardedRun buddyHeap.track (fun w req => req.Allowed (2 ^ 64) w.2.live)
      (BuddySystem.init, {}) reqs w) :
    buddyHeap.live w.1 = w.2.live ∧ (w.2.live.map Prod.fst).Nodup ∧
      (∀ e ∈ w.2.live, ∀ i < e.2, ∀ byte, w.2.content e.1 i = some byte →
        buddyHeap.read w.1 (e.1 + i) = some byte) ∧
      ∀ req : HeapRequest UInt8, req.Allowed (2 ^ 64) w.2.live → (buddyHeap.track w req).isSome := by
  have hstart : buddyHeap.Represents BuddySystem.Sound BuddySystem.init {} := ⟨.init, rfl, nofun⟩
  have h := BlockHeap.Represents.run buddyHeap_keeps hrun hstart
  exact ⟨h.live, h.live ▸ buddyHeap_keeps.distinct _ h.ok, h.content, fun req hreq => h.served buddyHeap_keeps hreq⟩

/-- A byte at the end of two thirds of the heap. -/
theorem buddy_keeps_objects_byte : ∃ w : BuddySystem × Objects UInt8,
    w.2.live = [(8, 400000)] ∧ buddyHeap.read w.1 (8 + 399999) = some 7 := by
  obtain ⟨w, hw, hfacts⟩ := (Option.any_eq_true (fun w : BuddySystem × Objects UInt8 =>
      decide (w.2.live = [(8, 400000)] ∧ w.2.content 8 399999 = some 7))
    (GuardedRun.check buddyHeap.track (fun w req => req.Allowed (2 ^ 64) w.2.live) (BuddySystem.init, {})
      [.alloc 400000, .write 8 399999 7])).mp (by decide +kernel)
  obtain ⟨hlive, hcontent⟩ := of_decide_eq_true hfacts
  have hkept := (buddy_keeps_objects (GuardedRun.of_check hw)).2.2.1
  exact ⟨w, hlive, hkept (8, 400000) (by rw [hlive]; exact List.mem_singleton_self _) 399999 (by decide) 7 hcontent⟩

/-- **The first-fit allocator keeps objects.** -/
theorem my_malloc_keeps_objects (heap : MyMalloc.HeapArray) (mem : Bytes.Memory)
    {reqs : List (HeapRequest UInt8)} {w : MyMalloc.Client × Objects UInt8}
    (hrun : GuardedRun myMallocHeap.track (fun w req => req.Allowed (2 ^ 64) w.2.live)
      (MyMalloc.Client.init heap mem, {}) reqs w) :
    myMallocHeap.live w.1 = w.2.live ∧ (w.2.live.map Prod.fst).Nodup ∧
      (∀ e ∈ w.2.live, ∀ i < e.2, ∀ byte, w.2.content e.1 i = some byte →
        myMallocHeap.read w.1 (e.1 + i) = some byte) ∧
      ∀ req : HeapRequest UInt8, req.Allowed (2 ^ 64) w.2.live → (myMallocHeap.track w req).isSome := by
  have hK := myMallocHeap_keeps heap
  have hstart : myMallocHeap.Represents (fun c => ∃ blocks, MyMalloc.Sound heap c blocks)
      (MyMalloc.Client.init heap mem) {} := ⟨⟨_, .init heap mem⟩, rfl, nofun⟩
  have h := BlockHeap.Represents.run hK hrun hstart
  exact ⟨h.live, h.live ▸ hK.distinct _ h.ok, h.content, fun req hreq => h.served hK hreq⟩

theorem my_malloc_keeps_objects_byte : ∃ w : MyMalloc.Client × Objects UInt8,
    w.2.live = [(0x1040, 40), (0x1018, 16)] ∧ myMallocHeap.read w.1 (0x1018 + 15) = some 7 := by
  obtain ⟨w, hw, hfacts⟩ := (Option.any_eq_true (fun w : MyMalloc.Client × Objects UInt8 =>
      decide (w.2.live = [(0x1040, 40), (0x1018, 16)] ∧ w.2.content 0x1018 15 = some 7))
    (GuardedRun.check myMallocHeap.track (fun w req => req.Allowed (2 ^ 64) w.2.live)
      (MyMalloc.Client.init MyMalloc.lowHeap fun _ => 0, {})
      [.alloc 16, .write 0x1018 15 7, .alloc 40])).mp (by decide +kernel)
  obtain ⟨hlive, hcontent⟩ := of_decide_eq_true hfacts
  have hkept := (my_malloc_keeps_objects _ _ (GuardedRun.of_check hw)).2.2.1
  have hmem : (0x1018, 16) ∈ w.2.live := by
    rw [hlive]
    exact List.mem_cons_of_mem _ (List.mem_singleton_self _)
  exact ⟨w, hlive, hkept _ hmem 15 (by decide) 7 hcontent⟩

/-! ## The test -/

/-- **`test_mm` finds no error**, on either allocator, whatever `GetUniform` returns and whatever other clients
    ask for between any two of its steps. -/
theorem test_mm_passes (uniform : (roll max : Nat) → Nat) (maxMemory : Nat) :
    (∀ as w, GuardedRun (TestMm.World.step buddyHeap uniform maxMemory) (TestMm.Fair (2 ^ 64))
        { heap := BuddySystem.init } as w → TestMm.Passes buddyHeap uniform maxMemory w) ∧
      ∀ heap mem as w, GuardedRun (TestMm.World.step myMallocHeap uniform maxMemory) (TestMm.Fair (2 ^ 64))
        { heap := MyMalloc.Client.init heap mem } as w → TestMm.Passes myMallocHeap uniform maxMemory w := by
  constructor
  · intro as w hrun
    exact TestMm.passes buddyHeap_keeps (by decide) .init rfl hrun
  · intro heap mem as w hrun
    exact TestMm.passes (myMallocHeap_keeps heap) (by decide) ⟨_, .init heap mem⟩ rfl hrun

/-- A round of two bytes, in which another client obtains a block. -/
theorem test_mm_passes_shared : ∃ w : TestMm.World MyMalloc.Client,
    w.test.phase = .free 0 ∧ (myMallocHeap.live w.heap).Perm (w.test.held ++ w.others) := by
  obtain ⟨w, hw, hphase⟩ := (Option.any_eq_true (fun w : TestMm.World MyMalloc.Client =>
      decide (w.test.phase = .free 0))
    (GuardedRun.check (TestMm.World.step myMallocHeap (fun _ max => max) 2) (TestMm.Fair (2 ^ 64))
      { heap := MyMalloc.Client.init MyMalloc.lowHeap fun _ => 0 }
      [.test, .other (.alloc 16), .test, .test, .test, .test, .test, .test, .test, .test, .test])).mp
    (by decide +kernel)
  exact ⟨w, of_decide_eq_true hphase,
    ((test_mm_passes (fun _ max => max) 2).2 _ _ _ w (GuardedRun.of_check hw)).accounted⟩

end TpSo
