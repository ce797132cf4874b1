import Mathlib.Data.Set.BooleanAlgebra
import Mathlib.Data.Set.Function
import Mathlib.Order.CompletePartialOrder
import TpSo.Library.Run
import TpSo.Memory.MyMallocBlocks

set_option autoImplicit false

/-! # Soundness of `myMalloc.c`

Whatever is requested, the blocks of the list tile the heap, and the live pointers are the payloads
of the blocks that are not free. One lemma says what a request does to the blocks; the invariant
follows from it. -/

namespace TpSo.MyMalloc

open Bytes Tiling

/-- The headers in memory form the list `blocks`, which tiles the heap. -/
structure Laid (heap : HeapArray) (s : State) (blocks : List Tiling.Block) : Prop where
  start : s.freeList = heap.base
  linked : Linked s.mem s.freeList blocks NULL
  tiles : Tiles BLOCK_SIZE heap.base blocks (heap.base + HEAP_SIZE)

namespace Laid

variable {heap : HeapArray} {s : State} {blocks l r : List Tiling.Block} {b : Tiling.Block}

theorem addr_pos (h : Laid heap s blocks) (hb : b ∈ blocks) : 0 < b.addr := by
  have hbounds := h.tiles.bounds hb
  have hbase := heap.base_pos
  omega

theorem block_fits (h : Laid heap s blocks) (hb : b ∈ blocks) :
    b.addr + BLOCK_SIZE + b.size ≤ 2 ^ 64 := by
  have hbounds := h.tiles.bounds hb
  have hheap := heap.fits
  omega

/-- The loop of `mem_alloc` has rounds enough for every block. -/
theorem length_lt (h : Laid heap s blocks) : blocks.length < HEAP_SIZE := by
  have hlength := h.tiles.length_le
  simp only [BLOCK_SIZE, HEAP_SIZE] at hlength ⊢
  omega

/-- **What `mem_alloc` does**: it fails where no block fits, and else carves the first that does. -/
theorem memAlloc_cases (h : Laid heap s blocks) (size : BitVec 64) :
    (memAlloc s size = some (NULL, s) ∧ ∀ b ∈ blocks, fits size.toNat b = false) ∨
    ∃ l b r s', blocks = l ++ b :: r ∧ fits size.toNat b = true ∧
      memAlloc s size = some (b.addr + BLOCK_SIZE, s') ∧
      Laid heap s' (l ++ carve b size.toNat ++ r) := by
  cases hfind : blocks.find? (fits size.toNat) with
  | none =>
    have hunfit : ∀ b ∈ blocks, fits size.toNat b = false := by
      intro b hb
      simpa using List.find?_eq_none.mp hfind b hb
    refine .inl ⟨?_, hunfit⟩
    rw [memAlloc, memAllocFrom_none (fun b hb => ⟨h.addr_pos hb, hunfit b hb⟩) h.linked h.length_lt]
    rfl
  | some b =>
    obtain ⟨hfits, l, r, rfl, hbefore⟩ := List.find?_eq_some_iff_append.mp hfind
    have hb : b ∈ l ++ b :: r := by simp
    have hl : ∀ c ∈ l, 0 < c.addr ∧ fits size.toNat c = false := by
      intro c hc
      exact ⟨h.addr_pos (List.mem_append_left _ hc), by simpa using hbefore c hc⟩
    have hfuel : l.length < HEAP_SIZE := by
      have hlength := h.length_lt
      rw [List.length_append] at hlength
      omega
    have hle : size.toNat ≤ b.size := by
      simp only [fits, Bool.and_eq_true, decide_eq_true_eq] at hfits
      exact hfits.2
    have hpos := h.addr_pos hb
    have hend := h.block_fits hb
    obtain ⟨mid, -, rfl, hheader, -⟩ := linked_append.mp h.linked
    have hbounds := h.tiles.bounds hb
    have hwrap : (b.addr + BLOCK_SIZE) % 2 ^ 64 = b.addr + BLOCK_SIZE := by
      have hheap := heap.fits
      exact Nat.mod_eq_of_lt (by omega)
    refine .inr ⟨l, b, r, { s with mem := takeBlock s.mem b.addr size.toNat }, rfl, hfits, ?_, ?_⟩
    · rw [memAlloc, memAllocFrom_some hl h.linked hpos hfits hfuel, hwrap]
      rfl
    · have hsize : getSize s.mem b.addr = b.size := hheader.1
      obtain ⟨hbeforeb, hafterb⟩ := h.tiles.around
      have houtside : ∀ a, a < b.addr ∨ b.addr + BLOCK_SIZE + b.size ≤ a →
          takeBlock s.mem b.addr size.toNat a = s.mem a := by
        intro a ha
        exact takeBlock_outside hpos (hsize ▸ hend) (hsize ▸ hle) (hsize ▸ ha)
      refine ⟨h.start, ?_, h.tiles.replace (tiles_carve b size.toNat)⟩
      apply h.linked.replace (linked_carve hheader hpos hend hle)
      · intro c hc a _ ha
        have hbefore := hbeforeb c hc
        exact houtside a (.inl (by omega))
      · intro c hc a ha _
        have hafter := hafterb c hc
        exact houtside a (.inr (by omega))

/-- **What `mem_free` does**: it marks the block whose payload the pointer is. -/
theorem memFree_eq (h : Laid heap s (l ++ b :: r)) :
    Laid heap (memFree s (b.addr + BLOCK_SIZE)) (l ++ [{ b with free := true }] ++ r) := by
  have hb : b ∈ l ++ b :: r := by simp
  have hbounds := h.tiles.bounds hb
  have hheap := heap.fits
  have hback : sizeSub (b.addr + BLOCK_SIZE) BLOCK_SIZE = b.addr := by
    simp only [sizeSub, BLOCK_SIZE] at hbounds ⊢
    omega
  have hnull : b.addr + BLOCK_SIZE ≠ NULL := by simp [BLOCK_SIZE, NULL]
  obtain ⟨hbefore, hafter⟩ := h.tiles.around
  obtain ⟨mid, -, rfl, hheader, -⟩ := linked_append.mp h.linked
  obtain ⟨ks, kf, kn⟩ := setFree_fields s.mem b.addr 1 (by norm_num)
  rw [memFree, if_neg hnull, hback]
  refine ⟨h.start, ?_, h.tiles.replace ⟨rfl, rfl⟩⟩
  have hmarked : Linked (setFree s.mem b.addr 1) b.addr [{ b with free := true }]
      (getNext s.mem b.addr) := ⟨rfl, ⟨ks.trans hheader.1, by simp [kf]⟩, kn⟩
  apply h.linked.replace hmarked
  · intro c hc
    have hend := hbefore c hc
    exact setFree_sameHeader _ 1 (.inl (by omega))
  · intro c hc
    have hend := hafter c hc
    exact setFree_sameHeader _ 1 (.inr (by omega))

/-- A write into a payload changes no header. -/
theorem write_payload (h : Laid heap s blocks) (hb : b ∈ blocks) {a : Nat}
    (ha : b.addr + BLOCK_SIZE ≤ a) (hend : a < b.addr + BLOCK_SIZE + b.size) (byte : UInt8) :
    Laid heap { s with mem := Function.update s.mem a byte } blocks := by
  refine ⟨h.start, h.linked.congr ?_, h.tiles⟩
  intro c hc x hx hx'
  apply Function.update_of_ne
  intro hxa
  by_cases hbc : b = c
  · rw [hbc] at ha
    omega
  · have hapart := h.tiles.apart hb hc hbc
    omega

end Laid

/-! ## The invariant of a history -/

/-- The blocks that are not free are the ones whose payloads the clients hold. -/
structure Sound (heap : HeapArray) (c : Client) (blocks : List Tiling.Block) : Prop where
  laid : Laid heap c.state blocks
  owned : ∀ e ∈ c.live, ∃ b ∈ blocks, b.free = false ∧ e.1 = b.addr + BLOCK_SIZE ∧ e.2 ≤ b.size
  held : ∀ b ∈ blocks, b.free = false → ∃ e ∈ c.live, e.1 = b.addr + BLOCK_SIZE
  distinct : (c.live.map Prod.fst).Nodup

variable {heap : HeapArray} {mem : Memory} {c c' : Client} {blocks : List Tiling.Block}

theorem laid_memInit (heap : HeapArray) (mem : Memory) :
    Laid heap (memInit heap mem) [⟨heap.base, HEAP_SIZE - BLOCK_SIZE, true⟩] := by
  have hsize : getSize (memInit heap mem).mem heap.base = HEAP_SIZE - BLOCK_SIZE := by
    simp (disch := omega) only [memInit, getSize, setSize, setFree, setNext,
      loadLE_storeLE_of_disjoint, loadLE_storeLE]
    norm_num [HEAP_SIZE, BLOCK_SIZE]
  have hfree : getFree (memInit heap mem).mem heap.base = 1 := by
    simp (disch := omega) only [memInit, getFree, setFree, setNext, loadLE_storeLE_of_disjoint,
      loadLE_storeLE]
    norm_num
  have hnext : getNext (memInit heap mem).mem heap.base = NULL := by
    simp only [memInit, getNext, setNext, loadLE_storeLE]
    norm_num [NULL]
  refine ⟨rfl, ⟨rfl, ⟨hsize, by simp [hfree]⟩, hnext⟩, rfl, ?_⟩
  show heap.base + BLOCK_SIZE + (HEAP_SIZE - BLOCK_SIZE) = heap.base + HEAP_SIZE
  simp only [BLOCK_SIZE, HEAP_SIZE]
  omega

theorem Sound.init (heap : HeapArray) (mem : Memory) :
    Sound heap (Client.init heap mem) [⟨heap.base, HEAP_SIZE - BLOCK_SIZE, true⟩] := by
  refine ⟨laid_memInit heap mem, ?_, ?_, List.nodup_nil⟩
  · intro e he
    cases he
  · intro b hb hfree
    rw [List.mem_singleton.mp hb] at hfree
    cases hfree

namespace Sound

/-- A live pointer is the payload of one block only. -/
theorem eq_of_payload (h : Sound heap c blocks) {b b' : Tiling.Block} (hb : b ∈ blocks) (hb' : b' ∈ blocks)
    (hsame : b.addr + BLOCK_SIZE = b'.addr + BLOCK_SIZE) : b = b' :=
  h.laid.tiles.eq_of_addr (by norm_num [BLOCK_SIZE]) hb hb' (by omega)

/-- A request for memory fails, or carves a free block and makes its payload live. -/
theorem alloc (h : Sound heap c blocks) {size : BitVec 64}
    (hs : c.step (.alloc size) = some c') :
    (c' = c ∧ ∀ b ∈ blocks, fits size.toNat b = false) ∨
    ∃ l b r, blocks = l ++ b :: r ∧ fits size.toNat b = true ∧
      c'.live = (b.addr + BLOCK_SIZE, size.toNat) :: c.live ∧
      Sound heap c' (l ++ carve b size.toNat ++ r) := by
  rcases h.laid.memAlloc_cases size with ⟨halloc, hunfit⟩ | ⟨l, b, r, s', rfl, hfits, halloc, hlaid⟩
  · simp only [Client.step, halloc, Option.map_some, if_true, Option.some.injEq] at hs
    exact .inl ⟨hs.symm, hunfit⟩
  · have hnull : b.addr + BLOCK_SIZE ≠ NULL := by simp [BLOCK_SIZE, NULL]
    simp only [Client.step, halloc, Option.map_some, if_neg hnull, Option.some.injEq] at hs
    subst hs
    simp only [fits, Bool.and_eq_true, decide_eq_true_eq] at hfits
    -- what is cut off behind the block stays free, so the list of live pointers gains just one
    obtain ⟨k, rest, hcarve, hk, hrest⟩ := carve_eq hfits.2
    refine .inr ⟨l, b, r, rfl, by simpa [fits] using hfits, rfl, hlaid, ?_, ?_, ?_⟩
    · intro e he
      rcases List.mem_cons.mp he with rfl | hold
      · exact ⟨⟨b.addr, k, false⟩, by simp [hcarve], rfl, rfl, hk⟩
      · obtain ⟨b', hb', hused, hptr, hsize⟩ := h.owned e hold
        have hne : b' ≠ b := by
          rintro rfl
          simp [hfits.1] at hused
        refine ⟨b', ?_, hused, hptr, hsize⟩
        have hmem : b' ∈ l ∨ b' ∈ r := by simpa [hne] using hb'
        rcases hmem with hl | hr
        · simp [hl]
        · simp [hr]
    · intro b' hb' hused
      simp only [hcarve, List.mem_append, List.mem_cons] at hb'
      rcases hb' with (hl | rfl | hcut) | hr
      · obtain ⟨e, he, hptr⟩ := h.held b' (by simp [hl]) hused
        exact ⟨e, List.mem_cons_of_mem _ he, hptr⟩
      · exact ⟨_, List.mem_cons_self, rfl⟩
      · simp [hrest b' hcut] at hused
      · obtain ⟨e, he, hptr⟩ := h.held b' (by simp [hr]) hused
        exact ⟨e, List.mem_cons_of_mem _ he, hptr⟩
    · refine List.nodup_cons.mpr ⟨?_, h.distinct⟩
      intro hlive
      obtain ⟨e, he, hptr⟩ := List.mem_map.mp hlive
      obtain ⟨b', hb', hused, hptr', -⟩ := h.owned e he
      have hsame : b' = b := h.eq_of_payload hb' (by simp) (hptr'.symm.trans hptr)
      simp [hsame, hfits.1] at hused

/-- A pointer that is given back frees the block whose payload it is. -/
theorem free (h : Sound heap c blocks) {ptr : Nat} (hs : c.step (.free ptr) = some c') :
    ∃ l b r, blocks = l ++ b :: r ∧ c'.live = c.live.filter (fun e => e.1 ≠ ptr) ∧
      Sound heap c' (l ++ [{ b with free := true }] ++ r) := by
  simp only [Client.step] at hs
  split at hs
  · next hlive =>
    obtain ⟨e, he, hptr⟩ := List.mem_map.mp hlive
    obtain ⟨b, hb, -, hpayload, -⟩ := h.owned e he
    obtain ⟨l, r, rfl⟩ := List.append_of_mem hb
    rw [hpayload] at hptr
    subst hptr
    cases hs
    refine ⟨l, b, r, rfl, rfl, h.laid.memFree_eq, ?_, ?_, ?_⟩
    · intro e he
      obtain ⟨hold, hother⟩ := List.mem_filter.mp he
      obtain ⟨b', hb', hused, hptr, hsize⟩ := h.owned e hold
      -- the live pointers are pairwise different, so no other one is the payload of `b`
      have hne : b' ≠ b := by
        rintro rfl
        simp [hptr] at hother
      have hmem : b' ∈ l ∨ b' ∈ r := by simpa [hne] using hb'
      refine ⟨b', ?_, hused, hptr, hsize⟩
      rcases hmem with hl | hr
      · simp [hl]
      · simp [hr]
    · intro b' hb' hused
      have hmem : b' ∈ l ∨ b' ∈ r := by
        simp only [List.mem_append, List.mem_singleton] at hb'
        rcases hb' with (hl | rfl) | hr
        · exact .inl hl
        · cases hused
        · exact .inr hr
      obtain ⟨e, he, hptr⟩ := h.held b' (by rcases hmem with hl | hr <;> simp [*]) hused
      refine ⟨e, List.mem_filter.mpr ⟨he, ?_⟩, hptr⟩
      have hapart : b'.addr ≠ b.addr := by
        obtain ⟨hbefore, hafter⟩ := h.laid.tiles.around
        simp only [BLOCK_SIZE] at hbefore hafter
        rcases hmem with hl | hr
        · have := hbefore b' hl
          omega
        · have := hafter b' hr
          omega
      simpa [hptr] using hapart
    · exact h.distinct.sublist (List.filter_sublist.map Prod.fst)
  · cases hs

/-- A write through a live pointer leaves the blocks as they are. -/
theorem write (h : Sound heap c blocks) {ptr offset : Nat} {byte : UInt8}
    (hs : c.step (.write ptr offset byte) = some c') : c'.live = c.live ∧ Sound heap c' blocks := by
  simp only [Client.step] at hs
  split at hs
  · next hlive =>
    obtain ⟨e, he, rfl, hoff⟩ := hlive
    obtain ⟨b, hb, -, hptr, hsize⟩ := h.owned e he
    cases hs
    exact ⟨rfl, h.laid.write_payload hb (by omega) (by omega) byte, h.owned, h.held, h.distinct⟩
  · cases hs

/-- Whatever is requested, some blocks keep tiling the heap. -/
theorem step (h : Sound heap c blocks) {req : Request} (hs : c.step req = some c') :
    ∃ blocks', Sound heap c' blocks' := by
  cases req with
  | alloc size =>
    rcases h.alloc hs with ⟨rfl, -⟩ | ⟨l, b, r, -, -, -, h'⟩
    · exact ⟨blocks, h⟩
    · exact ⟨_, h'⟩
  | free ptr =>
    obtain ⟨l, b, r, -, -, h'⟩ := h.free hs
    exact ⟨_, h'⟩
  | write ptr offset byte => exact ⟨blocks, (h.write hs).2⟩

end Sound

/-- The client after any history. -/
theorem sound_of_run {rs : List Request}
    (h : GuardedRun Client.step (fun _ _ => True) (Client.init heap mem) rs c) :
    ∃ blocks, Sound heap c blocks := by
  apply h.invariant (fun c => ∃ blocks, Sound heap c blocks)
  · rintro c req c' ⟨blocks, hsound⟩ - hstep
    exact hsound.step hstep
  · exact ⟨_, .init heap mem⟩

/-! ## The addresses of a block -/

/-- The addresses of the header. -/
def header (b : Tiling.Block) : Set Nat := Set.Ico b.addr (b.addr + BLOCK_SIZE)

/-- The addresses of the payload. -/
def payload (b : Tiling.Block) : Set Nat := Set.Ico (b.addr + BLOCK_SIZE) (b.addr + BLOCK_SIZE + b.size)

/-- No address belongs to two headers, to two payloads, or to a header and a payload. -/
def Disjointed (blocks : List Tiling.Block) : Prop :=
  ∀ b ∈ blocks, ∀ b' ∈ blocks, Disjoint (payload b) (header b') ∧
    (b ≠ b' → Disjoint (payload b) (payload b') ∧ Disjoint (header b) (header b'))

theorem Laid.disjointed {s : State} (h : Laid heap s blocks) : Disjointed blocks := by
  intro b hb b' hb'
  simp only [header, payload, Set.disjoint_left, Set.mem_Ico]
  refine ⟨?_, fun hne => ⟨?_, ?_⟩⟩
  · intro x hx
    by_cases hbb : b = b'
    · rw [← hbb]
      omega
    · have hapart := h.tiles.apart hb hb' hbb
      omega
  · intro x hx
    have hapart := h.tiles.apart hb hb' hne
    omega
  · intro x hx
    have hapart := h.tiles.apart hb hb' hne
    omega

/-- **Soundness.** After every history every request for memory returns, and the blocks that the
    list visits tile the heap in address order. Each live pointer is the payload of exactly one block, which
    is in use and as large as was asked for; headers and payloads are disjoint. -/
theorem blocks_tile_heap {rs : List Request}
    (h : GuardedRun Client.step (fun _ _ => True) (Client.init heap mem) rs c) :
    (∀ size, (memAlloc c.state size).isSome) ∧
    ∃ blocks, Linked c.state.mem c.state.freeList blocks NULL ∧
      Tiles BLOCK_SIZE heap.base blocks (heap.base + HEAP_SIZE) ∧
      (∀ e ∈ c.live, ∃ b ∈ blocks, b.free = false ∧ e.1 = b.addr + BLOCK_SIZE ∧ e.2 ≤ b.size ∧
        ∀ b' ∈ blocks, e.1 = b'.addr + BLOCK_SIZE → b' = b) ∧
      (c.live.map Prod.fst).Nodup ∧ Disjointed blocks := by
  obtain ⟨blocks, hsound⟩ := sound_of_run h
  constructor
  · intro size
    rcases hsound.laid.memAlloc_cases size with ⟨halloc, -⟩ | ⟨l, b, r, s', -, -, halloc, -⟩
    · rw [halloc]
      rfl
    · rw [halloc]
      rfl
  · refine ⟨blocks, hsound.laid.linked, hsound.laid.tiles, ?_, hsound.distinct, hsound.laid.disjointed⟩
    intro e he
    obtain ⟨b, hb, hused, hptr, hsize⟩ := hsound.owned e he
    refine ⟨b, hb, hused, hptr, hsize, ?_⟩
    intro b' hb' hptr'
    exact hsound.eq_of_payload hb' hb (hptr'.symm.trans hptr)

/-- A heap near the bottom of the memory. -/
def lowHeap : HeapArray := ⟨0x1000, by decide, by decide⟩

set_option maxRecDepth 100000 in
/-- A request near `2 ^ 64` fails, one of no bytes gets a block of its own, and the first block, given back,
    is too small for the last request. -/
theorem blocks_tile_heap_served :
    ∃ c : Client, c.live = [(0x1058, 524000), (0x1040, 0)] ∧
      ∀ size, (memAlloc c.state size).isSome := by
  obtain ⟨c, hrun, hlive⟩ := (Option.any_eq_true (fun c : Client =>
      decide (c.live = [(0x1058, 524000), (0x1040, 0)]))
    (GuardedRun.check Client.step (fun _ _ => True) (Client.init lowHeap fun _ => 0)
      [.alloc 16, .alloc (-1), .alloc 0, .free 0x1018, .alloc 524000])).mp (by decide +kernel)
  exact ⟨c, of_decide_eq_true hlive, (blocks_tile_heap (.of_check hrun)).1⟩

end TpSo.MyMalloc
