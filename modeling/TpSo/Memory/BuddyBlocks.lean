import TpSo.Memory.BuddySound
import Mathlib.Logic.Relation

set_option autoImplicit false

/-! # The blocks of the buddy allocator, in its own terms

What the invariant says about node pointers, headers and bytes: the blocks held are apart, and the
tree is a function of the nodes in use. -/

namespace TpSo

open TreeNode

/-- `j` is a child of the node `i`. -/
def IsChildNode (nodes : Nat → BuddyNode) (i j : Nat) : Prop :=
  (nodes i).left = some j ∨ (nodes i).right = some j

/-- `j` lies below the node `i`. -/
def Descendant (nodes : Nat → BuddyNode) : Nat → Nat → Prop := Relation.TransGen (IsChildNode nodes)

theorem index_lt_nodeCount {p : TreeNode} : p.index < NODE_COUNT ↔ p.length ≤ DEPTH := by
  have hcount : NODE_COUNT + 1 = 2 ^ (DEPTH + 1) := by decide
  rw [← index_lt_iff, ← hcount]
  omega

theorem exists_place {i : Nat} (hi : i < NODE_COUNT) : ∃ p : TreeNode, i = p.index ∧ p.length ≤ DEPTH :=
  ⟨ofIndex i, (index_ofIndex i).symm, index_lt_nodeCount.mp ((index_ofIndex i).symm ▸ hi)⟩

section Tree
variable {nodes : Nat → BuddyNode} (h : Built nodes) {p q : TreeNode}
include h

theorem isChildNode_iff (hp : p.length ≤ DEPTH) (j : Nat) :
    IsChildNode nodes p.index j ↔ ∃ b, j = index (b :: p) ∧ (b :: p).length ≤ DEPTH := by
  unfold IsChildNode
  rw [h.node p hp]
  by_cases hinner : p.length < DEPTH
  · simp only [builtNode, if_pos hinner, Option.some.injEq]
    constructor
    · rintro (rfl | rfl)
      · exact ⟨false, rfl, hinner⟩
      · exact ⟨true, rfl, hinner⟩
    · rintro ⟨b, rfl, -⟩
      cases b
      · exact .inl rfl
      · exact .inr rfl
  · simp only [builtNode, if_neg hinner, reduceCtorEq, or_self, false_iff]
    rintro ⟨b, -, hb⟩
    exact hinner hb

theorem descendant_iff (hp : p.length ≤ DEPTH) (j : Nat) :
    Descendant nodes p.index j ↔ ∃ q : TreeNode, j = q.index ∧ q.length ≤ DEPTH ∧ p <:+ q ∧ p ≠ q := by
  constructor
  · intro hd
    induction hd with
    | single hc =>
        obtain ⟨b, rfl, hb⟩ := (isChildNode_iff h hp _).mp hc
        exact ⟨b :: p, rfl, hb, List.suffix_cons b p, cons_ne b p⟩
    | tail _ hc ih =>
        obtain ⟨q, rfl, hq, hpq, hne⟩ := ih
        obtain ⟨b, rfl, hb⟩ := (isChildNode_iff h hq _).mp hc
        refine ⟨b :: q, rfl, hb, hpq.trans (List.suffix_cons b q), ?_⟩
        rintro rfl
        exact cons_ne b q (below_antisymm (List.suffix_cons b q) hpq)
  · rintro ⟨q, rfl, hq, hpq, hne⟩
    -- by induction on the path from `p` down to `q`
    induction q with
    | nil => exact absurd (List.suffix_nil.mp hpq) hne
    | cons b q ih =>
        have hstep : IsChildNode nodes (index q) (index (b :: q)) :=
          (isChildNode_iff h (Nat.le_of_succ_le hq) _).mpr ⟨b, rfl, hq⟩
        rcases List.suffix_cons_iff.mp hpq with rfl | hpq'
        · exact absurd rfl hne
        · by_cases he : p = q
          · subst he
            exact .single hstep
          · exact .tail (ih (Nat.le_of_succ_le hq) hpq' he) hstep

end Tree

namespace BuddySystem

variable {s : BuddySystem}

theorem Sound.node_eq_some (h : s.Sound) {a : Allocation} (ha : a ∈ s.live) {p : TreeNode} :
    a.node = some p.index ↔ a.place = p := by
  rw [(h.holds a ha).node]
  constructor
  · intro he
    exact index_inj (Option.some.inj he)
  · rintro rfl
    rfl

theorem Sound.mem_places (h : s.Sound) {p : TreeNode} :
    p ∈ s.places ↔ ∃ a ∈ s.live, a.node = some p.index := by
  unfold places
  rw [List.mem_map]
  exact exists_congr fun a => and_congr_right fun ha => (h.node_eq_some ha).symm

theorem Sound.state_iff (h : s.Sound) {p : TreeNode} (hp : p.length ≤ DEPTH) (st : NodeState) :
    (s.buddy.nodes p.index).state = st ↔ Shows {u | u ∈ s.places} p st := by
  have hshow := h.shows p hp
  constructor
  · rintro rfl
    exact hshow
  · exact fun hst => hshow.unique (antichain h) hst

theorem Sound.isSplit_iff (h : s.Sound) {p : TreeNode} (hp : p.length ≤ DEPTH) :
    IsSplit {u | u ∈ s.places} p ↔
      ∃ a ∈ s.live, ∃ j, a.node = some j ∧ Descendant s.buddy.nodes p.index j := by
  constructor
  · rintro ⟨u, hu, hb, hne⟩
    obtain ⟨a, ha, hnode⟩ := h.mem_places.mp hu
    have hlevel : u.length ≤ DEPTH := (h.node_eq_some ha).mp hnode ▸ (h.holds a ha).level
    exact ⟨a, ha, u.index, hnode, (descendant_iff h.built hp _).mpr ⟨u, rfl, hlevel, hb, hne⟩⟩
  · rintro ⟨a, ha, j, hnode, hd⟩
    obtain ⟨u, rfl, -, hb, hne⟩ := (descendant_iff h.built hp _).mp hd
    exact ⟨u, h.mem_places.mpr ⟨a, ha, hnode⟩, hb, hne⟩

/-- The state of a node from the blocks held. -/
theorem Sound.state_determined (h : s.Sound) {i : Nat} (hi : i < NODE_COUNT) :
    ((s.buddy.nodes i).state = .used ↔ ∃ a ∈ s.live, a.node = some i) ∧
    ((s.buddy.nodes i).state = .split ↔
      ∃ a ∈ s.live, ∃ j, a.node = some j ∧ Descendant s.buddy.nodes i j) ∧
    ((s.buddy.nodes i).state = .free ↔
      (¬ ∃ a ∈ s.live, a.node = some i) ∧
      ¬ ∃ a ∈ s.live, ∃ j, a.node = some j ∧ Descendant s.buddy.nodes i j) := by
  obtain ⟨p, rfl, hp⟩ := exists_place hi
  have hused : (s.buddy.nodes p.index).state = .used ↔ ∃ a ∈ s.live, a.node = some p.index :=
    (h.state_iff hp .used).trans h.mem_places
  have hsplit := (h.state_iff hp .split).trans (h.isSplit_iff hp)
  refine ⟨hused, hsplit, ?_⟩
  rw [← hused, ← hsplit]
  cases (s.buddy.nodes p.index).state <;> simp

/-- The nodes in use determine the tree. -/
theorem Sound.nodes_determined {t : BuddySystem} (h : s.Sound) (ht : t.Sound)
    (hsame : ∀ i, (∃ a ∈ s.live, a.node = some i) ↔ ∃ a ∈ t.live, a.node = some i) :
    s.buddy.nodes = t.buddy.nodes := by
  have hplaces : {u | u ∈ s.places} = {u | u ∈ t.places} := by
    ext u
    exact h.mem_places.trans ((hsame u.index).trans ht.mem_places.symm)
  refine h.built.ext ht.built fun p hp => ?_
  have hst := ht.shows p hp
  rw [← hplaces] at hst
  exact (h.shows p hp).unique (antichain h) hst

theorem Sound.memStatus (h : s.Sound) :
    s.buddy.memStatus.1.total = HEAP_SIZE ∧
    s.buddy.memStatus.1.used + s.buddy.memStatus.1.available = s.buddy.memStatus.1.total ∧
    s.buddy.memStatus.1.used =
      (s.live.map (fun a => blockSize (requiredOrder (a.size + HEADER_SIZE)))).sum := by
  have hinit : s.buddy.ensureInit = s.buddy := by
    simp [Buddy.ensureInit, h.root]
  have hlevel : ∀ u ∈ s.places, u.length ≤ DEPTH := by
    intro u hu
    obtain ⟨a, ha, rfl⟩ := List.mem_map.mp hu
    exact (h.holds a ha).level
  have hcount := freeBytes_add_taken h.apart h.built hlevel h.shows TREE_LEVELS [] (Nat.zero_le _)
    (by decide)
  have hroot : some (index []) = s.buddy.root := h.root.symm
  have hwidth : width HEAP_ORDER_MAX [] = HEAP_SIZE := rfl
  have htaken : taken HEAP_ORDER_MAX s.places [] =
      (s.live.map (fun a => blockSize (requiredOrder (a.size + HEADER_SIZE)))).sum := by
    rw [taken_root, places, List.map_map]
    congr 1
    refine List.map_congr_left fun a ha => ?_
    rw [← (h.holds a ha).order]
    rfl
  rw [hroot, hwidth, htaken] at hcount
  unfold Buddy.memStatus
  rw [hinit]
  dsimp only
  refine ⟨rfl, ?_, ?_⟩ <;> omega

end BuddySystem

/-- **Blocks are apart.** After `mem_init` and any sequence of `mem_alloc`, `mem_free` of blocks held
    and writes inside blocks held: every block with its header lies inside its own node in use, and
    so inside the heap; no two overlap; below a node in use or free all is free; a split node has a
    child that is not free; and a write inside one block leaves every header and every other block as
    they are. -/
theorem blocks_apart {ops : List BuddyOp} {s : BuddySystem} (h : BuddyRun ops s) :
    (∀ a ∈ s.live, ∃ i < NODE_COUNT, a.node = some i ∧
      loadHeader s.buddy.heap (a.ptr - HEADER_SIZE) = some i ∧
      (s.buddy.nodes i).state = .used ∧ HEADER_SIZE ≤ a.ptr ∧
      (s.buddy.nodes i).base ≤ a.ptr - HEADER_SIZE ∧
      a.ptr + a.size ≤ (s.buddy.nodes i).base + blockSize (s.buddy.nodes i).order ∧
      (s.buddy.nodes i).base + blockSize (s.buddy.nodes i).order ≤ HEAP_SIZE) ∧
    s.live.Pairwise (fun a b => a.node ≠ b.node ∧
      (a.ptr + a.size ≤ b.ptr - HEADER_SIZE ∨ b.ptr + b.size ≤ a.ptr - HEADER_SIZE)) ∧
    (∀ i j, i < NODE_COUNT → (s.buddy.nodes i).state ≠ .split → Descendant s.buddy.nodes i j →
      (s.buddy.nodes j).state = .free) ∧
    (∀ i < NODE_COUNT, (s.buddy.nodes i).state = .split →
      ∃ j, IsChildNode s.buddy.nodes i j ∧ (s.buddy.nodes j).state ≠ .free) ∧
    ∀ ptr off byte s', s.step (.write ptr off byte) = some s' → ∀ b ∈ s.live,
      (∀ x, b.ptr - HEADER_SIZE ≤ x → x < b.ptr → s'.buddy.heap x = s.buddy.heap x) ∧
      (b.ptr ≠ ptr → ∀ x, b.ptr ≤ x → x < b.ptr + b.size → s'.buddy.heap x = s.buddy.heap x) := by
  have hs := h.sound
  -- each part is read off the marks: a node in use is the place of a block held, and the places
  -- are pairwise not below each other
  refine ⟨?_, ?_, ?_, ?_, ?_⟩
  · intro a ha
    have hold := hs.holds a ha
    refine ⟨a.place.index, index_lt_nodeCount.mpr hold.level, hold.node, ?_, hs.used ha, ?_, ?_, ?_, ?_⟩
    · rw [hold.loadHeader, hold.node]
    · rw [hold.ptr]
      omega
    · rw [hs.built.base hold.level, hold.ptr]
      omega
    · rw [hs.built.base hold.level, hs.built.order hold.level]
      exact hold.fits
    · rw [hs.built.base hold.level, hs.built.order hold.level]
      exact hold.inHeap
  · refine (List.pairwise_map.mp hs.apart).imp_of_mem ?_
    intro a b ha hb hab
    refine ⟨?_, (hs.holds a ha).disjoint (hs.holds b hb) hab⟩
    intro hnode
    have hplace : a.place = b.place := by
      unfold Allocation.place
      rw [hnode]
    exact hab.1 (hplace ▸ List.suffix_refl _)
  · intro i j hi hns hd
    obtain ⟨p, rfl, hp⟩ := exists_place hi
    obtain ⟨q, rfl, hq, hpq, hne⟩ := (descendant_iff hs.built hp j).mp hd
    refine (hs.state_iff hq .free).mpr ?_
    have hshow := hs.shows p hp
    cases hst : stateAt s.buddy.nodes p with
    | free =>
        rw [hst] at hshow
        exact IsFree.below hshow hpq
    | split => exact absurd hst hns
    | used =>
        rw [hst] at hshow
        exact IsFree.of_marked (BuddySystem.antichain hs) hshow hpq hne
  · intro i hi hsplit
    obtain ⟨p, rfl, hp⟩ := exists_place hi
    have hshow : IsSplit {u | u ∈ s.places} p := (hs.state_iff hp .split).mp hsplit
    obtain ⟨c, hc⟩ := hshow.child
    have hinner : (c :: p).length ≤ DEPTH := by
      obtain ⟨a, ha, j, hnode, hd⟩ := (hs.isSplit_iff hp).mp hshow
      obtain ⟨q, -, hq, hpq, hne⟩ := (descendant_iff hs.built hp j).mp hd
      have hlt : p.length < q.length :=
        lt_of_le_of_ne hpq.length_le fun he => hne (hpq.eq_of_length he)
      simp only [List.length_cons]
      omega
    refine ⟨index (c :: p), (isChildNode_iff hs.built hp _).mpr ⟨c, rfl, hinner⟩, fun hfree => ?_⟩
    exact hc ((hs.state_iff hinner .free).mp hfree)
  · intro ptr off byte s' hw b hb
    obtain ⟨a, ha, rfl, hoff, rfl⟩ := BuddySystem.step_write hw
    refine ⟨?_, ?_⟩
    · intro x hlo hhi
      refine Function.update_of_ne (hs.write_outside ha hb hoff ⟨hlo, ?_⟩) _ _
      split <;> omega
    · intro hne x hlo hhi
      have hab : a ≠ b := fun he => hne (he ▸ rfl)
      refine Function.update_of_ne (hs.write_outside ha hb hoff ⟨by omega, ?_⟩) _ _
      rwa [if_neg hab]

/-- Two blocks, the first one written at its end. -/
def twoBlocks : List BuddyOp := [.alloc 40000, .alloc 20000, .write 8 39999 7]

/-- The nodes of the blocks held, with base, order and state. -/
def BuddySystem.heldNodes (s : BuddySystem) : List (Nat × Nat × Option (Nat × Nat × NodeState)) :=
  s.live.map fun a => (a.ptr, a.size, a.node.map fun n =>
    ((s.buddy.nodes n).base, (s.buddy.nodes n).order, (s.buddy.nodes n).state))

/-- They come to stand side by side at the start of the heap, and the root is split. -/
theorem twoBlocks_held : ∃ s, BuddyRun twoBlocks s ∧ (s.buddy.nodes 0).state = .split ∧
    s.heldNodes = [(65544, 20000, some (65536, 15, .used)), (8, 40000, some (0, 16, .used))] := by
  obtain ⟨s, hs, hheld⟩ := (Option.any_eq_true (fun s : BuddySystem =>
    decide ((s.buddy.nodes 0).state = .split) &&
      decide (s.heldNodes = [(65544, 20000, some (65536, 15, .used)), (8, 40000, some (0, 16, .used))]))
    (GuardedRun.check BuddySystem.step (fun _ _ => True) .init twoBlocks)).mp (by decide +kernel)
  simp only [Bool.and_eq_true, decide_eq_true_eq] at hheld
  exact ⟨s, GuardedRun.of_check hs, hheld⟩

/-- Their headers are intact, they lie one behind the other, and the split root has a child that is not free. -/
theorem blocks_apart_two : ∃ s a b, BuddyRun twoBlocks s ∧ s.live = [b, a] ∧ a.size = 40000 ∧ b.size = 20000 ∧
    loadHeader s.buddy.heap (a.ptr - HEADER_SIZE) = a.node ∧
    loadHeader s.buddy.heap (b.ptr - HEADER_SIZE) = b.node ∧ a.node ≠ b.node ∧
    (b.ptr + b.size ≤ a.ptr - HEADER_SIZE ∨ a.ptr + a.size ≤ b.ptr - HEADER_SIZE) ∧
    ∃ j, IsChildNode s.buddy.nodes 0 j ∧ (s.buddy.nodes j).state ≠ .free := by
  obtain ⟨s, hrun, hroot, hheld⟩ := twoBlocks_held
  obtain ⟨b, rest, hlive, hb, hrest⟩ := List.map_eq_cons_iff.mp hheld
  obtain ⟨a, rest, rfl, ha, hnil⟩ := List.map_eq_cons_iff.mp hrest
  rw [List.map_eq_nil_iff.mp hnil] at hlive
  simp only [Prod.mk.injEq] at ha hb
  obtain ⟨hblocks, hapart, -, hsplit, -⟩ := blocks_apart hrun
  obtain ⟨i, -, hinode, hi, -⟩ := hblocks a (by simp [hlive])
  obtain ⟨j, -, hjnode, hj, -⟩ := hblocks b (by simp [hlive])
  rw [hlive] at hapart
  obtain ⟨hne, hbeside⟩ := (List.pairwise_cons.mp hapart).1 a (List.mem_singleton_self a)
  exact ⟨s, a, b, hrun, hlive, ha.2.1, hb.2.1, hi.trans hinode.symm, hj.trans hjnode.symm, hne.symm, hbeside,
    hsplit 0 (by decide) hroot⟩

/-- **The tree is a function of the blocks held.** After any sequence of operations: a node is
    `NODE_USED` when it is that of a block held, `NODE_SPLIT` when one lies below it, `NODE_FREE`
    otherwise; two runs that hold the same nodes have the same tree, so that without blocks it is the
    tree of `mem_init`; and `mem_status` reports the blocks held, each of the least order that has
    room for it, and nothing else, as used. -/
theorem tree_determined {ops : List BuddyOp} {s : BuddySystem} (h : BuddyRun ops s) :
    (∀ i < NODE_COUNT,
      ((s.buddy.nodes i).state = .used ↔ ∃ a ∈ s.live, a.node = some i) ∧
      ((s.buddy.nodes i).state = .split ↔
        ∃ a ∈ s.live, ∃ j, a.node = some j ∧ Descendant s.buddy.nodes i j) ∧
      ((s.buddy.nodes i).state = .free ↔
        (¬ ∃ a ∈ s.live, a.node = some i) ∧
        ¬ ∃ a ∈ s.live, ∃ j, a.node = some j ∧ Descendant s.buddy.nodes i j)) ∧
    (∀ ops' t, BuddyRun ops' t →
      (∀ i, (∃ a ∈ s.live, a.node = some i) ↔ ∃ a ∈ t.live, a.node = some i) →
      s.buddy.nodes = t.buddy.nodes) ∧
    (s.live = [] → s.buddy.nodes = BuddySystem.init.buddy.nodes) ∧
    (s.buddy.memStatus.1.total = HEAP_SIZE ∧
      s.buddy.memStatus.1.used + s.buddy.memStatus.1.available = s.buddy.memStatus.1.total ∧
      s.buddy.memStatus.1.used =
        (s.live.map (fun a => blockSize (requiredOrder (a.size + HEADER_SIZE)))).sum) ∧
    ∀ a ∈ s.live, IsLeast {o | HEAP_ORDER_MIN ≤ o ∧ a.size + HEADER_SIZE ≤ blockSize o}
      (requiredOrder (a.size + HEADER_SIZE)) := by
  have hs := h.sound
  refine ⟨?_, ?_, ?_, hs.memStatus, ?_⟩
  · intro i hi
    exact hs.state_determined hi
  · intro ops' t ht hsame
    exact hs.nodes_determined ht.sound hsame
  · intro hempty
    refine hs.nodes_determined BuddySystem.Sound.init fun i => ?_
    simp [hempty, BuddySystem.init]
  · intro a ha
    exact requiredOrder_isLeast (hs.holds a ha).size.2

/-- With two blocks held the root is split because one of them lies below it, and their orders are what is used. -/
theorem tree_determined_two : ∃ s, BuddyRun twoBlocks s ∧
    (∃ a ∈ s.live, ∃ j, a.node = some j ∧ Descendant s.buddy.nodes 0 j) ∧
    s.buddy.memStatus.1.used = 2 ^ 15 + 2 ^ 16 := by
  obtain ⟨s, hrun, hroot, hheld⟩ := twoBlocks_held
  obtain ⟨hstate, -, -, ⟨-, -, hused⟩, -⟩ := tree_determined hrun
  have hsizes : s.live.map Allocation.size = [20000, 40000] := by
    have hsecond := congrArg (List.map fun held => held.2.1) hheld
    rwa [BuddySystem.heldNodes, List.map_map] at hsecond
  refine ⟨s, hrun, (hstate 0 (by decide)).2.1.mp hroot, hused.trans ?_⟩
  have hsum :=
    congrArg (fun sizes => (sizes.map fun size => blockSize (requiredOrder (size + HEADER_SIZE))).sum) hsizes
  rw [List.map_map] at hsum
  exact hsum.trans (by decide)

end TpSo
