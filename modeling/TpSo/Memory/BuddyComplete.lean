import TpSo.Memory.BuddyBlocks

set_option autoImplicit false

/-! # Completeness of the buddy allocator

`acquire_node` finds a node whenever there is one to find, and the one it finds is the leftmost: so
`mem_alloc` fails only if no aligned region of the order it needs is free of blocks held, and
otherwise takes the lowest such region. -/

namespace TpSo

open TreeNode BuddySystem

/-! ## The search -/

/-- A node that a search of this order from `p` on may take. -/
structure Available (U : Set TreeNode) (order : Nat) (p j : TreeNode) : Prop where
  below : p <:+ j
  level : j.length ≤ DEPTH
  fits : HEAP_ORDER_MAX - j.length = order
  free : IsFree U j
  above : ∀ a ∈ U, p <:+ a → ¬ a <:+ j

/-- What a complete search returns: nothing if nothing is available, else the leftmost node. -/
def Leftmost (U : Set TreeNode) (order : Nat) (p : TreeNode) : Option Nat → Prop
  | none => ∀ j, ¬ Available U order p j
  | some n => ∃ j, n = j.index ∧ Available U order p j ∧
      ∀ j', Available U order p j' → offset HEAP_ORDER_MAX j ≤ offset HEAP_ORDER_MAX j'

section Search
variable {U : Set TreeNode} {order : Nat} {p j : TreeNode}

/-- What is available from a child on. -/
theorem Available.of_child {c : Bool} (hp : p ∉ U) (h : Available U order (c :: p) j) :
    Available U order p j where
  below := below_parent h.below
  level := h.level
  fits := h.fits
  free := h.free
  above a ha hpa haj := by
    rcases below_cases hpa with rfl | ⟨d, hd⟩
    · exact hp ha
    · have hdc : d = c := eq_of_below_both (hd.trans haj) h.below
      subst hdc
      exact h.above a ha hd haj

/-- What is available but `p` itself is available from a child on. -/
theorem Available.child (h : Available U order p j) (hj : j ≠ p) :
    ∃ c, Available U order (c :: p) j := by
  rcases below_cases h.below with rfl | ⟨c, hc⟩
  · exact absurd rfl hj
  · exact ⟨c, hc, h.level, h.fits, h.free, fun a ha hca => h.above a ha (below_parent hca)⟩

/-- The left child is tried first, and everything below it lies left of what is below the right. -/
theorem Leftmost.of_left {n : Nat} (hp : p ∉ U) (horder : order ≠ HEAP_ORDER_MAX - p.length)
    (h : Leftmost U order (false :: p) (some n)) : Leftmost U order p (some n) := by
  obtain ⟨j, hn, hj, hleast⟩ := h
  refine ⟨j, hn, hj.of_child hp, fun j' hj' => ?_⟩
  have hne : j' ≠ p := fun he => horder (he ▸ hj'.fits.symm)
  obtain ⟨c, hc⟩ := hj'.child hne
  have hmax := Nat.sub_le HEAP_ORDER_MAX HEAP_ORDER_MIN
  cases c with
  | false => exact hleast j' hc
  | true => exact offset_left_le_right hj.below hc.below (hj.level.trans hmax) (hc.level.trans hmax)

/-- If nothing is available on the left, the leftmost is that on the right. -/
theorem Leftmost.of_right {r : Option Nat} (hp : p ∉ U) (horder : order ≠ HEAP_ORDER_MAX - p.length)
    (hleft : Leftmost U order (false :: p) none) (h : Leftmost U order (true :: p) r) :
    Leftmost U order p r := by
  have hright : ∀ j', Available U order p j' → Available U order (true :: p) j' := by
    intro j' hj'
    have hne : j' ≠ p := fun he => horder (he ▸ hj'.fits.symm)
    obtain ⟨c, hc⟩ := hj'.child hne
    cases c with
    | false => exact absurd hc (hleft j')
    | true => exact hc
  cases r with
  | none => exact fun j' hj' => h j' (hright j' hj')
  | some n =>
    obtain ⟨j, hn, hj, hleast⟩ := h
    exact ⟨j, hn, hj.of_child hp, fun j' hj' => hleast j' (hright j' hj')⟩

/-- **`acquire_node` is complete**: it takes the leftmost available node, if there is one. -/
theorem acquireNode_leftmost (hU : IsAntichain (· <:+ ·) U) (horder : HEAP_ORDER_MIN ≤ order)
    (fuel : Nat) :
    ∀ (p : TreeNode) (nodes : Nat → BuddyNode), Built nodes → p.length ≤ DEPTH →
      DEPTH < p.length + fuel →
      (∀ q : TreeNode, p <:+ q → q.length ≤ DEPTH → Shows U q (stateAt nodes q)) →
      Leftmost U order p (acquireNode order fuel nodes (some p.index)).1 := by
  induction fuel with
  | zero => exact fun p _ _ hp hfuel => absurd hfuel (by omega)
  | succ fuel ih =>
    intro p nodes hb hp hfuel hshows
    have hself : Shows U p (stateAt nodes p) := hshows p (List.suffix_refl p) hp
    rw [acquireNode]
    split
    · -- a node in use: nothing below it is available
      next hused =>
      have hst : stateAt nodes p = .used := hused
      rw [hst] at hself
      exact fun j hj => hj.above p hself (List.suffix_refl p) hj.below
    next hused =>
    rw [hb.order hp]
    split
    · -- the nodes from here on are too small
      next hlt =>
      intro j hj
      have hlen := hj.below.length_le
      have hfits := hj.fits
      omega
    next hlt =>
    split
    · next heq =>
      -- on the level of the order the node itself is the only candidate
      have honly : ∀ j, Available U order p j → j = p := by
        intro j hj
        have hfits := hj.fits
        have hlevel := hj.level
        unfold DEPTH HEAP_ORDER_MAX HEAP_ORDER_MIN at *
        exact (hj.below.eq_of_length (by omega)).symm
      split
      · next hfree =>
        have hst : stateAt nodes p = .free := hfree
        rw [hst] at hself
        refine ⟨p, rfl, ⟨List.suffix_refl p, hp, heq, hself, fun a ha hpa _ => hself a ha hpa⟩, ?_⟩
        intro j hj
        rw [honly j hj]
      · next hnf =>
        intro j hj
        have hjp := honly j hj
        subst hjp
        exact hnf (hself.unique hU (show Shows U j .free from hj.free))
    next hne =>
    have hinner : p.length < DEPTH := by
      unfold DEPTH HEAP_ORDER_MAX HEAP_ORDER_MIN at *
      omega
    rw [hb.left hinner, hb.right hinner]
    dsimp only
    set nodes1 := if (nodes p.index).state = .free then setNodeState nodes p.index .split else nodes
      with hn1
    have hnotU : p ∉ U := fun hpU => hused (hself.unique hU (show Shows U p .used from hpU))
    have hopen : Opened U p nodes nodes1 := Opened.of_not_used hb hp hused hnotU hshows
    have hchild : ∀ c : Bool, ∀ q : TreeNode, c :: p <:+ q → q.length ≤ DEPTH →
        Shows U q (stateAt nodes1 q) := fun c q hq hlen => hopen.shows_child hq hlen
    have hfuel' : ∀ c : Bool, DEPTH < (c :: p).length + fuel := by
      intro c
      simp only [List.length_cons]
      omega
    have hl := ih (false :: p) nodes1 hopen.built hinner (hfuel' false) (hchild false)
    have hspec := acquireNode_spec hU horder fuel (false :: p) nodes1 hopen.built hinner
      (hfuel' false) (hchild false)
    revert hl hspec
    generalize acquireNode order fuel nodes1 (some (index (false :: p))) = left
    obtain ⟨l1, l2⟩ := left
    intro hl hspec
    cases l1 with
    | some n => exact hl.of_left hnotU (Ne.symm hne)
    | none =>
      -- the failed search on the left has changed nothing
      cases hspec with
      | failed same =>
        dsimp only at same
        subst same
        have hr := ih (true :: p) nodes1 hopen.built hinner (hfuel' true) (hchild true)
        have hsome := Leftmost.of_right hnotU (Ne.symm hne) hl hr
        revert hsome
        dsimp only
        rw [if_neg (by simp)]
        generalize acquireNode order fuel nodes1 (some (index (true :: p))) = right
        obtain ⟨r1, r2⟩ := right
        intro hsome
        cases r1 with
        | some n => exact hsome
        | none =>
          dsimp only
          rw [if_neg (by simp)]
          split <;> exact hsome

end Search

/-! ## Regions -/

/-- The aligned region number `i` of this order lies in the heap and meets no node of a block held. -/
def Unoccupied (s : BuddySystem) (order i : Nat) : Prop :=
  (i + 1) * 2 ^ order ≤ HEAP_SIZE ∧ ∀ a ∈ s.live, ∀ n, a.node = some n →
    (i + 1) * 2 ^ order ≤ (s.buddy.nodes n).base ∨
      (s.buddy.nodes n).base + blockSize (s.buddy.nodes n).order ≤ i * 2 ^ order

section Regions
variable {s : BuddySystem} {order : Nat} {j : TreeNode}

/-- The nodes of an order have its regions, one each. -/
theorem exists_region (hlevel : j.length ≤ DEPTH) (hfits : HEAP_ORDER_MAX - j.length = order) :
    ∃ i, offset HEAP_ORDER_MAX j = i * 2 ^ order ∧ (i + 1) * 2 ^ order ≤ HEAP_SIZE := by
  obtain ⟨i, hi, hoff⟩ := offset_aligned (level_le_max hlevel)
  rw [hfits] at hoff
  refine ⟨i, hoff, ?_⟩
  have hheap : HEAP_SIZE = 2 ^ j.length * 2 ^ order := by
    rw [← pow_add, ← hfits, Nat.add_sub_cancel' (level_le_max hlevel)]
    rfl
  rw [hheap]
  exact Nat.mul_le_mul_right _ hi

theorem exists_node {i : Nat} (hmin : HEAP_ORDER_MIN ≤ order) (hmax : order ≤ HEAP_ORDER_MAX)
    (hi : (i + 1) * 2 ^ order ≤ HEAP_SIZE) :
    ∃ j : TreeNode, j.length ≤ DEPTH ∧ HEAP_ORDER_MAX - j.length = order ∧
      offset HEAP_ORDER_MAX j = i * 2 ^ order := by
  have hheap : HEAP_SIZE = 2 ^ (HEAP_ORDER_MAX - order) * 2 ^ order := by
    rw [← pow_add, Nat.sub_add_cancel hmax]
    rfl
  rw [hheap] at hi
  have hlt : i < 2 ^ (HEAP_ORDER_MAX - order) := Nat.le_of_mul_le_mul_right hi (Nat.pow_pos (by decide))
  obtain ⟨j, hlen, hoff⟩ := exists_offset (Nat.sub_le HEAP_ORDER_MAX order) i hlt
  rw [Nat.sub_sub_self hmax] at hoff
  refine ⟨j, ?_, ?_, hoff⟩
  · rw [hlen]
    exact Nat.sub_le_sub_left hmin _
  · rw [hlen, Nat.sub_sub_self hmax]

/-- A node can be taken if and only if its region is unoccupied. -/
theorem available_iff (h : s.Sound) (hlevel : j.length ≤ DEPTH)
    (hfits : HEAP_ORDER_MAX - j.length = order) {i : Nat} (hoff : offset HEAP_ORDER_MAX j = i * 2 ^ order)
    (hi : (i + 1) * 2 ^ order ≤ HEAP_SIZE) :
    Available {u | u ∈ s.places} order [] j ↔ Unoccupied s order i := by
  have hend : offset HEAP_ORDER_MAX j + width HEAP_ORDER_MAX j = (i + 1) * 2 ^ order := by
    unfold width
    rw [hoff, hfits, Nat.add_one_mul]
  -- apart from a node in use is beside its block
  have hnode : ∀ a ∈ s.live, Apart j a.place ↔
      ((i + 1) * 2 ^ order ≤ (s.buddy.nodes a.place.index).base ∨
        (s.buddy.nodes a.place.index).base + blockSize (s.buddy.nodes a.place.index).order ≤
          i * 2 ^ order) := by
    intro a ha
    have hplace := (h.holds a ha).level
    rw [apart_iff_disjoint (level_le_max hlevel) (level_le_max hplace), hend, hoff,
      h.built.base hplace, h.built.order hplace]
    rfl
  constructor
  · intro hj
    refine ⟨hi, fun a ha n hn => ?_⟩
    rw [(h.holds a ha).node] at hn
    obtain rfl := Option.some.inj hn
    have hmem := place_mem ha
    exact (hnode a ha).mp ⟨hj.free _ hmem, hj.above _ hmem List.nil_suffix⟩
  · rintro ⟨-, hun⟩
    have hapart : ∀ u ∈ s.places, Apart j u := by
      intro u hu
      obtain ⟨a, ha, rfl⟩ := List.mem_map.mp hu
      exact (hnode a ha).mpr (hun a ha _ (h.holds a ha).node)
    exact ⟨List.nil_suffix, hlevel, hfits, fun u hu => (hapart u hu).1,
      fun u hu _ => (hapart u hu).2⟩

end Regions

/-! ## `mem_alloc` -/

/-- `mem_alloc` returns the block of the node that the search finds. -/
theorem memAlloc_leftmost {s : BuddySystem} (h : s.Sound) {size : Nat} (hpos : 0 < size)
    (hroom : size + HEADER_SIZE ≤ HEAP_SIZE) :
    ∃ r, Leftmost {u | u ∈ s.places} (requiredOrder (size + HEADER_SIZE)) [] r ∧
      (s.buddy.memAlloc size).1 = r.map (fun n => (s.buddy.nodes n).base + HEADER_SIZE) := by
  have hinit : s.buddy.ensureInit = s.buddy := by
    simp [Buddy.ensureInit, h.root]
  have hmin : HEAP_ORDER_MIN ≤ requiredOrder (size + HEADER_SIZE) :=
    (requiredOrder_isLeast hroom).1.1
  have hleft := acquireNode_leftmost (antichain h) hmin TREE_LEVELS [] s.buddy.nodes h.built
    (Nat.zero_le _) (by decide) fun q _ hq => h.shows q hq
  have hspec := acquireNode_spec (antichain h) hmin TREE_LEVELS [] s.buddy.nodes h.built
    (Nat.zero_le _) (by decide) fun q _ hq => h.shows q hq
  refine ⟨_, hleft, ?_⟩
  unfold Buddy.memAlloc
  rw [hinit]
  dsimp only
  rw [if_neg (by omega), if_neg (by omega), if_neg (not_lt.mpr (requiredOrder_le hroom)), h.root]
  revert hspec
  show Acquired _ _ _ _ (acquireNode _ TREE_LEVELS s.buddy.nodes (some 0)).2
    (acquireNode _ TREE_LEVELS s.buddy.nodes (some 0)).1 → _ =
    (acquireNode _ TREE_LEVELS s.buddy.nodes (some 0)).1.map _
  generalize acquireNode (requiredOrder (size + HEADER_SIZE)) TREE_LEVELS s.buddy.nodes (some 0) = r
  obtain ⟨node, nodes⟩ := r
  intro hspec
  cases hspec with
  | failed same => rfl
  | found j below level fits free above built shows frame =>
    show some _ = some ((s.buddy.nodes j.index).base + HEADER_SIZE)
    rw [built.base level, h.built.base level]

/-- `mem_alloc` succeeds if some region of its order is unoccupied. -/
theorem memAlloc_isSome {s : BuddySystem} (h : s.Sound) {size : Nat} (hpos : 0 < size)
    (hroom : size + HEADER_SIZE ≤ HEAP_SIZE)
    (hregion : ∃ i, Unoccupied s (requiredOrder (size + HEADER_SIZE)) i) :
    (s.buddy.memAlloc size).1.isSome := by
  obtain ⟨i, hi⟩ := hregion
  obtain ⟨r, hr, hresult⟩ := memAlloc_leftmost h hpos hroom
  obtain ⟨j, hlevel, hfits, hoff⟩ :=
    exists_node (requiredOrder_isLeast hroom).1.1 (requiredOrder_le hroom) hi.1
  have hj := (available_iff h hlevel hfits hoff hi.1).mpr hi
  rw [hresult, Option.isSome_map]
  cases r with
  | none => exact absurd hj (hr j)
  | some n => rfl

/-- What `mem_alloc` returns is the lowest unoccupied region of its order. -/
theorem memAlloc_lowest {s : BuddySystem} (h : s.Sound) {size ptr : Nat} (hpos : 0 < size)
    (hroom : size + HEADER_SIZE ≤ HEAP_SIZE) (hptr : (s.buddy.memAlloc size).1 = some ptr) :
    ∃ i, IsLeast {i | Unoccupied s (requiredOrder (size + HEADER_SIZE)) i} i ∧
      ptr = i * 2 ^ requiredOrder (size + HEADER_SIZE) + HEADER_SIZE := by
  obtain ⟨r, hr, hresult⟩ := memAlloc_leftmost h hpos hroom
  rw [hptr] at hresult
  obtain ⟨n, rfl, hn⟩ := Option.map_eq_some_iff.mp hresult.symm
  obtain ⟨j, rfl, hj, hleast⟩ := hr
  obtain ⟨i, hoff, hi⟩ := exists_region hj.level hj.fits
  refine ⟨i, ⟨(available_iff h hj.level hj.fits hoff hi).mp hj, fun i' hi' => ?_⟩, ?_⟩
  · obtain ⟨j', hlevel, hfits, hoff'⟩ :=
      exists_node (requiredOrder_isLeast hroom).1.1 (requiredOrder_le hroom) hi'.1
    have hle := hleast j' ((available_iff h hlevel hfits hoff' hi'.1).mpr hi')
    rw [hoff, hoff'] at hle
    exact Nat.le_of_mul_le_mul_right hle (Nat.pow_pos (by decide))
  · rw [← hn, h.built.base hj.level, hoff]

/-- **`mem_alloc` is complete.** After any sequence of operations and for any size, let `order` be
    the least order whose blocks have room for it and its header. `mem_alloc` succeeds if and only if
    the size is one the heap can hold and some region of that order is unoccupied; it takes the node
    of the lowest one; and a call that fails changes the state of no node. -/
theorem mem_alloc_complete {ops : List BuddyOp} {s : BuddySystem} (h : BuddyRun ops s)
    {size order : Nat} (horder : IsLeast {o | HEAP_ORDER_MIN ≤ o ∧ size + HEADER_SIZE ≤ 2 ^ o} order) :
    ((s.buddy.memAlloc size).1.isSome ↔
      (1 ≤ size ∧ size ≤ HEAP_SIZE - HEADER_SIZE) ∧ ∃ i, Unoccupied s order i) ∧
    (∀ ptr, (s.buddy.memAlloc size).1 = some ptr →
      ∃ i, IsLeast {i | Unoccupied s order i} i ∧ ptr = i * 2 ^ order + HEADER_SIZE ∧
        ∃ n < NODE_COUNT, loadHeader (s.buddy.memAlloc size).2.heap (i * 2 ^ order) = some n ∧
          ((s.buddy.memAlloc size).2.nodes n).base = i * 2 ^ order ∧
          ((s.buddy.memAlloc size).2.nodes n).order = order ∧
          ((s.buddy.memAlloc size).2.nodes n).state = .used) ∧
    ((s.buddy.memAlloc size).1 = none →
      ∀ n, ((s.buddy.memAlloc size).2.nodes n).state = (s.buddy.nodes n).state) := by
  have hs := h.sound
  have hheader : HEADER_SIZE ≤ HEAP_SIZE := by decide
  have hrequired (hroom : size + HEADER_SIZE ≤ HEAP_SIZE) : requiredOrder (size + HEADER_SIZE) = order :=
    (requiredOrder_isLeast hroom).unique horder
  -- `requiredOrder` is the least order, and the descent finds the lowest free region of it
  have hspec := memAlloc_spec hs size
  refine ⟨⟨fun hsome => ?_, ?_⟩, ?_, ?_⟩
  · obtain ⟨ptr, hptr⟩ := Option.isSome_iff_exists.mp hsome
    have hbounds : 0 < size ∧ size + HEADER_SIZE ≤ HEAP_SIZE := by
      revert hspec hptr
      generalize s.buddy.memAlloc size = r
      intro hspec hptr
      cases hspec with
      | failed => cases hptr
      | found j nodes pos room acquired => exact ⟨pos, room⟩
    obtain ⟨i, hleast, -⟩ := memAlloc_lowest hs hbounds.1 hbounds.2 hptr
    rw [hrequired hbounds.2] at hleast
    exact ⟨⟨hbounds.1, Nat.le_sub_of_add_le hbounds.2⟩, i, hleast.1⟩
  · rintro ⟨⟨hpos, hle⟩, hregion⟩
    have hroom : size + HEADER_SIZE ≤ HEAP_SIZE := Nat.add_le_of_le_sub hheader hle
    rw [← hrequired hroom] at hregion
    exact memAlloc_isSome hs hpos hroom hregion
  · intro ptr hptr
    have hlow := fun hpos hroom => memAlloc_lowest hs hpos hroom hptr
    revert hspec hptr
    generalize s.buddy.memAlloc size = r
    intro hspec hptr
    cases hspec with
    | failed => cases hptr
    | found j nodes pos room acquired =>
      obtain ⟨i, hleast, hi⟩ := hlow pos room
      rw [hrequired room] at hleast hi acquired
      obtain rfl := Option.some.inj hptr
      have hoff : offset HEAP_ORDER_MAX j = i * 2 ^ order := Nat.add_right_cancel hi
      refine ⟨i, hleast, hi, j.index, ?_⟩
      generalize hn : j.index = n at acquired
      cases acquired with
      | found j' below level fits free above built shows frame =>
        cases index_inj hn
        refine ⟨index_lt_nodeCount.mpr level, ?_, ?_, ?_, ?_⟩
        · rw [← hoff]
          exact loadHeader_of_bytes fun b hb => storeHeader_bytes _ _ _ hb
        · rw [← hoff]
          exact built.base level
        · rw [← fits]
          exact built.order level
        · have hchain := antichain_insert (antichain hs) free (fun a ha => above a ha List.nil_suffix)
          exact (shows j below level).unique hchain (show Shows _ j .used from .inl rfl)
  · intro hnone n
    revert hspec hnone
    generalize s.buddy.memAlloc size = r
    intro hspec hnone
    cases hspec with
    | failed => rfl
    | found j nodes pos room acquired => cases hnone

/-- Behind two blocks, the lowest region of 32 bytes is the one that follows them. -/
theorem mem_alloc_complete_third : ∃ s, BuddyRun twoBlocks s ∧ (s.buddy.nodes 0).state = .split ∧
    (s.buddy.memAlloc 16).1 = some 98312 := by
  obtain ⟨s, hrun, hroot, hheld⟩ := twoBlocks_held
  obtain ⟨b, rest, hlive, hb, hrest⟩ := List.map_eq_cons_iff.mp hheld
  obtain ⟨a, rest, rfl, ha, hnil⟩ := List.map_eq_cons_iff.mp hrest
  rw [List.map_eq_nil_iff.mp hnil] at hlive
  simp only [Prod.mk.injEq, Option.map_eq_some_iff] at ha hb
  obtain ⟨-, -, n, han, hnbase, hnorder, -⟩ := ha
  obtain ⟨-, -, m, hbm, hmbase, hmorder, -⟩ := hb
  -- a region is unoccupied if it is beside the nodes of both
  have hbeside : ∀ i, Unoccupied s 5 i ↔ (i + 1) * 32 ≤ HEAP_SIZE ∧ 98304 ≤ i * 32 := by
    intro i
    simp only [Unoccupied, hlive, List.forall_mem_cons, List.not_mem_nil, false_implies, implies_true, and_true,
      hbm, han, Option.some.injEq, forall_eq', hmbase, hmorder, hnbase, hnorder, blockSize]
    omega
  have horder : IsLeast {o | HEAP_ORDER_MIN ≤ o ∧ 16 + HEADER_SIZE ≤ 2 ^ o} 5 :=
    ⟨⟨le_refl _, by decide⟩, fun o ho => ho.1⟩
  obtain ⟨hiff, hlowest, -⟩ := mem_alloc_complete hrun horder
  have hthird : Unoccupied s 5 3072 := (hbeside 3072).mpr ⟨by decide, by decide⟩
  obtain ⟨ptr, hptr⟩ := Option.isSome_iff_exists.mp (hiff.mpr ⟨by decide, 3072, hthird⟩)
  obtain ⟨i, hleast, rfl, -⟩ := hlowest ptr hptr
  have hbehind := ((hbeside i).mp hleast.1).2
  have hle : i ≤ 3072 := hleast.2 hthird
  obtain rfl : i = 3072 := by omega
  exact ⟨s, hrun, hroot, hptr⟩

/-! ## Giving back and asking again -/

/-- A region contains regions of every smaller order. -/
theorem Unoccupied.of_le {s : BuddySystem} {order order' i : Nat} (hle : order' ≤ order)
    (h : Unoccupied s order i) : ∃ i', Unoccupied s order' i' := by
  have hstart : i * 2 ^ (order - order') * 2 ^ order' = i * 2 ^ order := by
    rw [Nat.mul_assoc, ← pow_add, Nat.sub_add_cancel hle]
  have hend : (i * 2 ^ (order - order') + 1) * 2 ^ order' ≤ (i + 1) * 2 ^ order := by
    rw [Nat.add_one_mul, Nat.add_one_mul, hstart]
    exact Nat.add_le_add_left (Nat.pow_le_pow_right (by decide) hle) _
  refine ⟨i * 2 ^ (order - order'), hend.trans h.1, fun a ha n hn => ?_⟩
  rw [hstart]
  exact (h.2 a ha n hn).imp hend.trans id

/-- **A block that has been given back serves again**: right after `mem_free` of a block held, a
    request for no more than it had succeeds. -/
theorem freed_block_serves {s s' : BuddySystem} (h : s.Sound) {ptr size : Nat} {a : Allocation}
    (hheld : s.held ptr = some a) (hs : s.step (.free ptr) = some s') (hpos : 0 < size)
    (hle : size ≤ a.size) : (s'.buddy.memAlloc size).1.isSome := by
  have hs' := h.free hs
  obtain ⟨ha, rfl⟩ := held_spec hheld
  have hold := h.holds a ha
  have hroom : size + HEADER_SIZE ≤ HEAP_SIZE := (Nat.add_le_add_right hle _).trans hold.size.2
  have horder : requiredOrder (size + HEADER_SIZE) ≤ requiredOrder (a.size + HEADER_SIZE) := by
    obtain ⟨hmin, hfits⟩ := (requiredOrder_isLeast hold.size.2).1
    exact (requiredOrder_isLeast hroom).2 ⟨hmin, (Nat.add_le_add_right hle _).trans hfits⟩
  obtain ⟨i, hoff, hi⟩ := exists_region hold.level hold.order
  refine memAlloc_isSome hs' hpos hroom (Unoccupied.of_le horder (i := i) ?_)
  -- the node given back is apart from those still in use
  refine (available_iff hs' hold.level hold.order hoff hi).mp ?_
  have hlive : s'.live = s.live.erase a := by
    obtain ⟨b, hb, rfl⟩ := Option.map_eq_some_iff.mp hs
    rw [hheld] at hb
    cases hb
    rfl
  have hrest : ∀ u ∈ s'.places, u ∈ s.places ∧ u ≠ a.place := by
    intro u hu
    have hmem : u ∈ {u | u ∈ (s.live.erase a).map Allocation.place} := hlive ▸ hu
    rwa [places_erase h ha] at hmem
  refine ⟨List.nil_suffix, hold.level, hold.order, fun u hu => ?_, fun u hu _ => ?_⟩
  · exact antichain h (place_mem ha) (hrest u hu).1 (hrest u hu).2.symm
  · exact antichain h (hrest u hu).1 (place_mem ha) (hrest u hu).2

end TpSo
