import TpSo.Memory.BuddyTree
import TpSo.Library.Run

set_option autoImplicit false

/-! # Soundness of the buddy allocator

The invariant of the allocator along any sequence of `mem_alloc`, `mem_free` and writes inside the
blocks held: each block has a node of its own, no two on one branch, its header names that node, and
the states show exactly the nodes of the blocks held. -/

namespace TpSo

open TreeNode

/-! ## `required_order` -/

theorem requiredOrderFrom_spec {size : Nat} (hsize : size ≤ 2 ^ HEAP_ORDER_MAX) (fuel : Nat) :
    ∀ order, HEAP_ORDER_MIN ≤ order → order ≤ HEAP_ORDER_MAX → HEAP_ORDER_MAX < order + fuel →
      (∀ o, HEAP_ORDER_MIN ≤ o → o < order → 2 ^ o < size) →
      IsLeast {o | HEAP_ORDER_MIN ≤ o ∧ size ≤ 2 ^ o} (requiredOrderFrom size fuel order) := by
  induction fuel with
  | zero => exact fun order _ hmax hfuel => absurd hfuel (by omega)
  | succ fuel ih =>
      intro order hmin hmax hfuel hbelow
      rw [requiredOrderFrom]
      split
      · next hloop =>
        -- the loop goes on: the order is too small, so it is not the largest one
        obtain ⟨-, hsmall⟩ := hloop
        have hne : order ≠ HEAP_ORDER_MAX := by
          rintro rfl
          exact absurd hsize (not_le.mpr hsmall)
        refine ih (order + 1) (by omega) (by omega) (by omega) ?_
        intro o ho hlt
        rcases Nat.lt_succ_iff_lt_or_eq.mp hlt with hlt | rfl
        · exact hbelow o ho hlt
        · exact hsmall
      · next hdone =>
        have hfits : size ≤ 2 ^ order := by
          by_contra hsmall
          exact hdone ⟨hmax, not_le.mp hsmall⟩
        refine ⟨⟨hmin, hfits⟩, ?_⟩
        rintro o ⟨ho, hso⟩
        by_contra hlt
        have hsmall := hbelow o ho (not_le.mp hlt)
        omega

/-- **`required_order`** is the least order of a block that has room for so much. -/
theorem requiredOrder_isLeast {size : Nat} (hsize : size ≤ HEAP_SIZE) :
    IsLeast {o | HEAP_ORDER_MIN ≤ o ∧ size ≤ 2 ^ o} (requiredOrder size) := by
  refine requiredOrderFrom_spec hsize TREE_LEVELS HEAP_ORDER_MIN ?_ ?_ ?_ ?_
  · exact le_refl _
  · decide
  · decide
  · intro o ho hlt
    omega

theorem requiredOrder_le {size : Nat} (hsize : size ≤ HEAP_SIZE) :
    requiredOrder size ≤ HEAP_ORDER_MAX :=
  (requiredOrder_isLeast hsize).2 ⟨by decide, hsize⟩

/-! ## Headers -/

theorem loadHeader_of_bytes {heap : Nat → HeapByte} {address : Nat} {node : Option Nat}
    (h : ∀ i < HEADER_SIZE, heap (address + i) = .pointer node i) :
    loadHeader heap address = node := by
  have h0 : heap address = .pointer node 0 := h 0 (by decide)
  simp only [loadHeader, h0]
  exact if_pos h

theorem storeHeader_bytes (heap : Nat → HeapByte) (address : Nat) (node : Option Nat) {i : Nat}
    (hi : i < HEADER_SIZE) : storeHeader heap address node (address + i) = .pointer node i := by
  simp only [storeHeader]
  rw [if_pos ⟨Nat.le_add_right _ _, by omega⟩, Nat.add_sub_cancel_left]

theorem storeHeader_outside (heap : Nat → HeapByte) {address x : Nat} (node : Option Nat)
    (hx : x < address ∨ address + HEADER_SIZE ≤ x) : storeHeader heap address node x = heap x := by
  simp only [storeHeader]
  exact if_neg (by omega)

/-! ## The invariant -/

/-- The place in the tree of the node of a block. -/
def Allocation.place (a : Allocation) : TreeNode := ofIndex (a.node.getD 0)

/-- The places of the blocks held. -/
def BuddySystem.places (s : BuddySystem) : List TreeNode := s.live.map Allocation.place

/-- A block held, as it lies in the heap. -/
structure Holds (heap : Nat → HeapByte) (a : Allocation) : Prop where
  node : a.node = some a.place.index
  level : a.place.length ≤ DEPTH
  ptr : a.ptr = offset HEAP_ORDER_MAX a.place + HEADER_SIZE
  size : 0 < a.size ∧ a.size + HEADER_SIZE ≤ HEAP_SIZE
  order : HEAP_ORDER_MAX - a.place.length = requiredOrder (a.size + HEADER_SIZE)
  header : ∀ i < HEADER_SIZE, heap (offset HEAP_ORDER_MAX a.place + i) = .pointer a.node i

/-- The invariant. -/
structure BuddySystem.Sound (s : BuddySystem) : Prop where
  built : Built s.buddy.nodes
  root : s.buddy.root = some 0
  holds : ∀ a ∈ s.live, Holds s.buddy.heap a
  apart : s.places.Pairwise Apart
  shows : ∀ p : TreeNode, p.length ≤ DEPTH →
    Shows {u | u ∈ s.places} p (stateAt s.buddy.nodes p)

theorem level_le_max {p : TreeNode} (hp : p.length ≤ DEPTH) : p.length ≤ HEAP_ORDER_MAX :=
  hp.trans (Nat.sub_le _ _)

/-- Every block has room for a header. -/
theorem header_le_width {p : TreeNode} (hp : p.length ≤ DEPTH) : HEADER_SIZE ≤ width HEAP_ORDER_MAX p := by
  have hexp : 3 ≤ HEAP_ORDER_MAX - p.length := by
    unfold DEPTH HEAP_ORDER_MAX HEAP_ORDER_MIN at *
    omega
  exact (Nat.pow_le_pow_right (by decide) hexp : 2 ^ 3 ≤ 2 ^ (HEAP_ORDER_MAX - p.length))

namespace Holds

variable {heap heap' : Nat → HeapByte} {a b : Allocation}

theorem congr (h : Holds heap a)
    (hh : ∀ i < HEADER_SIZE, heap' (offset HEAP_ORDER_MAX a.place + i) =
      heap (offset HEAP_ORDER_MAX a.place + i)) : Holds heap' a :=
  { h with header := fun i hi => (hh i hi).trans (h.header i hi) }

theorem loadHeader (h : Holds heap a) : loadHeader heap (a.ptr - HEADER_SIZE) = a.node := by
  rw [h.ptr, Nat.add_sub_cancel]
  exact loadHeader_of_bytes h.header

/-- The block with its header lies inside its node. -/
theorem fits (h : Holds heap a) :
    a.ptr + a.size ≤ offset HEAP_ORDER_MAX a.place + width HEAP_ORDER_MAX a.place := by
  have hleast := (requiredOrder_isLeast h.size.2).1.2
  rw [← h.order] at hleast
  rw [h.ptr]
  unfold width
  omega

theorem inHeap (h : Holds heap a) :
    offset HEAP_ORDER_MAX a.place + width HEAP_ORDER_MAX a.place ≤ HEAP_SIZE := by
  have hin := (block_below (List.nil_suffix (l := a.place))
    (level_le_max h.level)).2
  simpa [offset, width, HEAP_SIZE] using hin

theorem disjoint (ha : Holds heap a) (hb : Holds heap b) (h : Apart a.place b.place) :
    a.ptr + a.size ≤ b.ptr - HEADER_SIZE ∨ b.ptr + b.size ≤ a.ptr - HEADER_SIZE := by
  have hfa := ha.fits
  have hfb := hb.fits
  have hpa := ha.ptr
  have hpb := hb.ptr
  rcases block_disjoint (level_le_max ha.level) (level_le_max hb.level) h with hd | hd
  · left
    omega
  · right
    omega

end Holds

namespace BuddySystem

variable {s s' : BuddySystem}

theorem antichain (h : s.Sound) : IsAntichain (· <:+ ·) {u | u ∈ s.places} :=
  antichain_of_apart h.apart

theorem place_mem {a : Allocation} (ha : a ∈ s.live) : a.place ∈ s.places :=
  List.mem_map_of_mem ha

theorem Sound.apart_of_ne (h : s.Sound) {a b : Allocation} (ha : a ∈ s.live) (hb : b ∈ s.live)
    (hne : a ≠ b) : Apart a.place b.place := by
  have hpair : s.live.Pairwise (fun a b => Apart a.place b.place) := List.pairwise_map.mp h.apart
  have : Std.Symm (fun a b : Allocation => Apart a.place b.place) := ⟨fun _ _ h => ⟨h.2, h.1⟩⟩
  exact hpair.forall ha hb hne

/-- The node of a block held is in use. -/
theorem Sound.used (h : s.Sound) {a : Allocation} (ha : a ∈ s.live) :
    stateAt s.buddy.nodes a.place = .used :=
  (h.shows _ (h.holds a ha).level).unique (antichain h)
    (show Shows {u | u ∈ s.places} a.place .used from place_mem ha)

/-! ## `mem_alloc` -/

/-- What `mem_alloc` does: nothing, or it puts a header in the block of a node it has acquired. -/
inductive Allocated (s : BuddySystem) (size : Nat) : Option Nat × Buddy → Prop
  | failed : Allocated s size (none, s.buddy)
  | found (j : TreeNode) (nodes : Nat → BuddyNode) (pos : 0 < size)
      (room : size + HEADER_SIZE ≤ HEAP_SIZE)
      (acquired : Acquired {u | u ∈ s.places} (requiredOrder (size + HEADER_SIZE)) []
        s.buddy.nodes nodes (some j.index)) :
      Allocated s size (some (offset HEAP_ORDER_MAX j + HEADER_SIZE),
        { s.buddy with
          nodes := nodes
          heap := storeHeader s.buddy.heap (offset HEAP_ORDER_MAX j) (some j.index) })

theorem memAlloc_spec (h : s.Sound) (size : Nat) : Allocated s size (s.buddy.memAlloc size) := by
  have hinit : s.buddy.ensureInit = s.buddy := by
    simp [Buddy.ensureInit, h.root]
  unfold Buddy.memAlloc
  rw [hinit]
  dsimp only
  split
  · exact .failed
  next hsize =>
  split
  · exact .failed
  next hroom =>
  have hroom' : size + HEADER_SIZE ≤ HEAP_SIZE := by
    have hle : HEADER_SIZE ≤ HEAP_SIZE := by decide
    omega
  rw [if_neg (not_lt.mpr (requiredOrder_le hroom'))]
  have hmin : HEAP_ORDER_MIN ≤ requiredOrder (size + HEADER_SIZE) :=
    (requiredOrder_isLeast hroom').1.1
  have hspec : Acquired {u | u ∈ s.places} (requiredOrder (size + HEADER_SIZE)) [] s.buddy.nodes
      (acquireNode (requiredOrder (size + HEADER_SIZE)) TREE_LEVELS s.buddy.nodes s.buddy.root).2
      (acquireNode (requiredOrder (size + HEADER_SIZE)) TREE_LEVELS s.buddy.nodes s.buddy.root).1 := by
    rw [h.root]
    exact acquireNode_spec (antichain h) hmin TREE_LEVELS [] s.buddy.nodes h.built (Nat.zero_le _)
      (by decide) fun q _ hq => h.shows q hq
  revert hspec
  generalize acquireNode (requiredOrder (size + HEADER_SIZE)) TREE_LEVELS s.buddy.nodes
    s.buddy.root = r
  obtain ⟨node, nodes⟩ := r
  intro hspec
  cases node with
  | none =>
      cases hspec with
      | failed same =>
          dsimp only at same
          subst same
          exact .failed
  | some n =>
      obtain ⟨j, rfl⟩ : ∃ j : TreeNode, n = j.index := ⟨ofIndex n, (index_ofIndex n).symm⟩
      have hbase : (nodes j.index).base = offset HEAP_ORDER_MAX j := by
        generalize hn : index j = n at hspec
        cases hspec with
        | found i _ level _ _ _ built _ _ =>
            cases index_inj hn
            exact built.base level
      dsimp only
      rw [hbase]
      exact .found j nodes (by omega) hroom' hspec

/-! ## One operation -/

theorem held_spec {ptr : Nat} {a : Allocation} (h : s.held ptr = some a) :
    a ∈ s.live ∧ a.ptr = ptr :=
  ⟨List.mem_of_find?_eq_some h, by simpa using List.find?_some h⟩

theorem Sound.alloc (h : s.Sound) {size : Nat} (hs : s.step (.alloc size) = some s') : s'.Sound := by
  have hspec := memAlloc_spec h size
  simp only [step] at hs
  revert hspec hs
  generalize s.buddy.memAlloc size = r
  intro hs hspec
  cases hspec with
  | failed =>
      cases hs
      exact h
  | found j nodes pos room acquired =>
      generalize hj : index j = n at acquired
      cases acquired with
      | found i below level fits free above built shows frame =>
          cases index_inj hj
          dsimp only at hs
          have hload : TpSo.loadHeader
              (storeHeader s.buddy.heap (offset HEAP_ORDER_MAX j) (some j.index))
              (offset HEAP_ORDER_MAX j + HEADER_SIZE - HEADER_SIZE) = some j.index := by
            rw [Nat.add_sub_cancel]
            exact loadHeader_of_bytes fun i hi => storeHeader_bytes _ _ _ hi
          rw [hload] at hs
          cases hs
          have hplace : Allocation.place
              ⟨offset HEAP_ORDER_MAX j + HEADER_SIZE, size, some j.index⟩ = j := ofIndex_index j
          have hapart : ∀ u ∈ s.places, Apart j u := fun u hu =>
            ⟨free u hu, above u hu List.nil_suffix⟩
          -- the new block is apart from the old ones because the region it takes was free
          refine ⟨built, h.root, ?_, ?_, ?_⟩
          · intro a ha
            rcases List.mem_cons.mp ha with rfl | ha
            · refine ⟨?_, ?_, ?_, ⟨pos, room⟩, ?_, ?_⟩ <;> rw [hplace]
              · exact level
              · exact fits
              · intro i hi
                exact storeHeader_bytes _ _ _ hi
            · -- the new header lies in another block
              have hold := h.holds a ha
              refine hold.congr fun i hi => storeHeader_outside _ _ ?_
              have hwa := header_le_width hold.level
              have hwj := header_le_width level
              rcases block_disjoint (level_le_max level) (level_le_max hold.level)
                (hapart _ (place_mem ha)) with hd | hd <;> omega
          · show (List.map _ _).Pairwise Apart
            rw [List.map_cons, hplace]
            exact List.pairwise_cons.mpr ⟨hapart, h.apart⟩
          · intro p hp
            have hset : {u | u ∈ j :: s.places} = insert j {u | u ∈ s.places} := by
              ext u
              simp
            have hshow := shows p List.nil_suffix hp
            rw [← hset] at hshow
            show Shows {u | u ∈ List.map _ _} p _
            rw [List.map_cons, hplace]
            exact hshow

theorem places_erase (h : s.Sound) {a : Allocation} (ha : a ∈ s.live) :
    {u | u ∈ (s.live.erase a).map Allocation.place} = {u | u ∈ s.places} \ {a.place} := by
  have hnodup : s.live.Nodup := by
    refine (List.pairwise_map.mp h.apart).imp ?_
    rintro b c hbc rfl
    exact hbc.1 (List.suffix_refl _)
  ext u
  simp only [Set.mem_ofPred_eq, List.mem_map, hnodup.mem_erase_iff, Set.mem_sdiff,
    Set.mem_singleton_iff, places]
  constructor
  · rintro ⟨b, ⟨hne, hb⟩, rfl⟩
    exact ⟨⟨b, hb, rfl⟩, fun he => (h.apart_of_ne hb ha hne).1 (he ▸ List.suffix_refl _)⟩
  · rintro ⟨⟨b, hb, rfl⟩, hne⟩
    exact ⟨b, ⟨fun he => hne (he ▸ rfl), hb⟩, rfl⟩

/-- Freeing the node of a block held leaves the states right up to its parent. -/
theorem Sound.freed (h : s.Sound) {a : Allocation} (ha : a ∈ s.live) {r : TreeNode}
    (hr : r.length ≤ DEPTH) (hra : r <:+ a.place → r = a.place) :
    Shows ({u | u ∈ s.places} \ {a.place}) r
      (stateAt (setNodeState s.buddy.nodes a.place.index .free) r) := by
  by_cases he : r = a.place
  · subst he
    rw [stateAt_set]
    intro u hu hb
    exact antichain h (place_mem ha) hu.1 (fun he => hu.2 he.symm) hb
  · rw [stateAt_set_of_ne he]
    exact (h.shows r hr).remove fun hb => he (hra hb)

/-- What `mem_free` does with a block held. -/
theorem memFree_spec (h : s.Sound) {a : Allocation} (ha : a ∈ s.live) :
    ∃ nodes, s.buddy.memFree (some a.ptr) =
        { s.buddy with
          nodes := nodes
          heap := storeHeader s.buddy.heap (a.ptr - HEADER_SIZE) none } ∧
      Built nodes ∧
      ∀ r : TreeNode, r.length ≤ DEPTH →
        Shows ({u | u ∈ s.places} \ {a.place}) r (stateAt nodes r) := by
  have hold := h.holds a ha
  have hused : ¬ (s.buddy.nodes a.place.index).state ≠ .used := not_not.mpr (h.used ha)
  have hbuilt : Built (setNodeState s.buddy.nodes a.place.index .free) := h.built.set hold.level
  refine ⟨coalesceUp TREE_LEVELS (setNodeState s.buddy.nodes a.place.index .free)
    (setNodeState s.buddy.nodes a.place.index .free a.place.index).parent, ?_, ?_⟩
  · simp only [Buddy.memFree, h.root, hold.loadHeader, hold.node, if_neg hused]
  · cases hp : a.place with
    | nil =>
        rw [hp] at hbuilt
        rw [hbuilt.parent_root]
        refine ⟨hbuilt, ?_⟩
        intro r hr
        have hfreed := h.freed ha hr
        rw [hp] at hfreed
        exact hfreed List.suffix_nil.mp
    | cons b q =>
        have hlevel : (b :: q).length ≤ DEPTH := hp ▸ hold.level
        rw [hp] at hbuilt
        rw [hbuilt.parent_cons hlevel]
        refine coalesceUp_spec q TREE_LEVELS _ ?_ ⟨hbuilt, hlevel, ?_, ?_, ?_⟩
        · exact lt_of_lt_of_le (Nat.lt_of_succ_le hlevel) (by decide)
        · intro r hr hrq
          have hfreed := h.freed ha hr
          rw [hp] at hfreed
          exact hfreed fun hb => (List.suffix_cons_iff.mp hb).resolve_right hrq
        · rintro r hr ⟨hrU, hne⟩
          refine antichain h hrU (place_mem ha) (hp ▸ hne) ?_
          rw [hp]
          exact hr.trans (List.suffix_cons b q)
        · intro r hr
          have hne : r ≠ b :: q := fun he => child_ne (List.suffix_refl (b :: q))
            (below_antisymm (he ▸ hr) (List.suffix_cons b q))
          rw [stateAt_set_of_ne hne]
          have hlen : r.length ≤ DEPTH :=
            hr.length_le.trans (Nat.le_of_succ_le hlevel)
          refine (h.shows r hlen).unique (antichain h) ?_
          refine ⟨a.place, place_mem ha, ?_, ?_⟩
          · rw [hp]
            exact hr.trans (List.suffix_cons b q)
          · rw [hp]
            exact hne

theorem Sound.free (h : s.Sound) {ptr : Nat} (hs : s.step (.free ptr) = some s') : s'.Sound := by
  obtain ⟨a, hheld, rfl⟩ := Option.map_eq_some_iff.mp hs
  obtain ⟨ha, rfl⟩ := held_spec hheld
  obtain ⟨nodes, heq, hbuilt, hshows⟩ := memFree_spec h ha
  have hsub : (s.live.erase a).Sublist s.live := List.erase_sublist
  refine ⟨?_, ?_, ?_, h.apart.sublist (hsub.map _), ?_⟩
  · simp only [heq]
    exact hbuilt
  · simp only [heq]
    exact h.root
  · intro b hb
    have hbl := hsub.mem hb
    simp only [heq]
    -- the header cleared is that of another block
    have hne : a ≠ b := by
      rintro rfl
      have hmem : a.place ∈ {u | u ∈ (s.live.erase a).map Allocation.place} :=
        List.mem_map_of_mem hb
      rw [places_erase h ha] at hmem
      exact hmem.2 rfl
    refine (h.holds b hbl).congr fun i hi => storeHeader_outside _ _ ?_
    have hwa := header_le_width (h.holds a ha).level
    have hwb := header_le_width (h.holds b hbl).level
    have hpa := (h.holds a ha).ptr
    rcases block_disjoint (level_le_max (h.holds a ha).level) (level_le_max (h.holds b hbl).level)
      (h.apart_of_ne ha hbl hne) with hd | hd <;> omega
  · intro r hr
    simp only [heq]
    show Shows {u | u ∈ (s.live.erase a).map Allocation.place} r _
    rw [places_erase h ha]
    exact hshows r hr

/-- A write inside a block held changes no header, and no other block. -/
theorem Sound.write_outside (h : s.Sound) {a b : Allocation} (ha : a ∈ s.live) (hb : b ∈ s.live)
    {off x : Nat} (hoff : off < a.size)
    (hx : b.ptr - HEADER_SIZE ≤ x ∧ x < (if a = b then b.ptr else b.ptr + b.size)) :
    x ≠ a.ptr + off := by
  have hpa := (h.holds a ha).ptr
  split at hx
  · next hab =>
    subst hab
    omega
  · next hab =>
    rcases (h.holds a ha).disjoint (h.holds b hb) (h.apart_of_ne ha hb hab) with hd | hd <;> omega

theorem step_write {ptr off : Nat} {byte : UInt8} (hs : s.step (.write ptr off byte) = some s') :
    ∃ a ∈ s.live, a.ptr = ptr ∧ off < a.size ∧ s' = { s with buddy :=
      { s.buddy with heap := Function.update s.buddy.heap (ptr + off) (.data byte) } } := by
  simp only [step] at hs
  split at hs
  · cases hs
  · next a hheld =>
    obtain ⟨ha, hptr⟩ := held_spec hheld
    obtain ⟨hoff, hs⟩ := Option.ite_none_right_eq_some.mp hs
    exact ⟨a, ha, hptr, hoff, (Option.some.inj hs).symm⟩

theorem Sound.write (h : s.Sound) {ptr off : Nat} {byte : UInt8}
    (hs : s.step (.write ptr off byte) = some s') : s'.Sound := by
  obtain ⟨a, ha, rfl, hoff, rfl⟩ := step_write hs
  refine ⟨h.built, h.root, ?_, h.apart, h.shows⟩
  intro b hb
  have hold := h.holds b hb
  refine hold.congr fun i hi => Function.update_of_ne ?_ _ _
  refine h.write_outside ha hb hoff ⟨?_, ?_⟩
  · have hptr := hold.ptr
    omega
  · have hptr := hold.ptr
    split <;> omega

/-- **Step lemma.** -/
theorem Sound.step (h : s.Sound) {op : BuddyOp} (hs : s.step op = some s') : s'.Sound := by
  cases op with
  | alloc size => exact h.alloc hs
  | free ptr => exact h.free hs
  | write ptr off byte => exact h.write hs

theorem Sound.init : BuddySystem.init.Sound := by
  obtain ⟨hbuilt, hfree⟩ := buildTree_built
  refine ⟨hbuilt, rfl, ?_, .nil, ?_⟩
  · intro a ha
    exact absurd ha List.not_mem_nil
  · intro p hp
    have hst : stateAt BuddySystem.init.buddy.nodes p = .free := hfree p hp
    rw [hst]
    intro u hu
    exact absurd hu List.not_mem_nil

end BuddySystem

/-- A run of a program that uses the allocator, from `mem_init` on. -/
abbrev BuddyRun (ops : List BuddyOp) (s : BuddySystem) : Prop :=
  GuardedRun BuddySystem.step (fun _ _ => True) BuddySystem.init ops s

/-- **Run lemma.** -/
theorem BuddyRun.sound {ops : List BuddyOp} {s : BuddySystem} (h : BuddyRun ops s) : s.Sound :=
  h.invariant BuddySystem.Sound (fun _ _ _ hi _ hs => hi.step hs) BuddySystem.Sound.init

end TpSo
