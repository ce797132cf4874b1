import TpSo.Memory.Buddy
import TpSo.Library.MarkedTree

set_option autoImplicit false

/-! # The tree of the buddy allocator

The node array as the binary tree `build_tree` lays out in it, and what the three walks over it
(`acquire_node`, `coalesce_up`, `free_bytes`) do when each node's state shows the set of nodes in
use: in use itself, split by one below it, or free. -/

namespace TpSo

open TreeNode

/-- The number of levels below the root. -/
def DEPTH : Nat := HEAP_ORDER_MAX - HEAP_ORDER_MIN

/-- The node `build_tree` puts at a place of the tree. -/
def builtNode (p : TreeNode) : BuddyNode where
  parent :=
    match p with
    | [] => none
    | _ :: above => some (index above)
  left := if p.length < DEPTH then some (index (false :: p)) else none
  right := if p.length < DEPTH then some (index (true :: p)) else none
  order := HEAP_ORDER_MAX - p.length
  state := .free
  base := offset HEAP_ORDER_MAX p

/-- The array holds the tree that `build_tree` made, in whatever states, and nothing else. -/
structure Built (nodes : Nat → BuddyNode) : Prop where
  node : ∀ p : TreeNode, p.length ≤ DEPTH →
    nodes p.index = { builtNode p with state := (nodes p.index).state }
  outside : ∀ n, (∀ p : TreeNode, p.length ≤ DEPTH → n ≠ p.index) → nodes n = {}

/-- The state at a place of the tree. -/
def stateAt (nodes : Nat → BuddyNode) (p : TreeNode) : NodeState := (nodes p.index).state

/-! ## Writing a state -/

section States
variable {nodes : Nat → BuddyNode} {p q : TreeNode} {st : NodeState}

@[simp] theorem stateAt_set (nodes : Nat → BuddyNode) (p : TreeNode) (st : NodeState) :
    stateAt (setNodeState nodes p.index st) p = st := by
  simp [stateAt, setNodeState]

theorem stateAt_set_of_ne (h : q ≠ p) : stateAt (setNodeState nodes p.index st) q = stateAt nodes q := by
  have hne : q.index ≠ p.index := fun he => h (index_inj he)
  simp [stateAt, setNodeState, Function.update_of_ne hne]

theorem setNodeState_self (h : (nodes p.index).state = st) : setNodeState nodes p.index st = nodes := by
  subst h
  exact Function.update_eq_self _ _

theorem setNodeState_twice (nodes : Nat → BuddyNode) (n : Nat) (st st' : NodeState) :
    setNodeState (setNodeState nodes n st) n st' = setNodeState nodes n st' := by
  simp [setNodeState]

namespace Built

variable (h : Built nodes)
include h

theorem parent_cons {b : Bool} (hp : (b :: p).length ≤ DEPTH) :
    (nodes (index (b :: p))).parent = some p.index := by
  rw [h.node _ hp]
  rfl

theorem parent_root : (nodes (index [])).parent = none := by
  rw [h.node [] (Nat.zero_le _)]
  rfl

theorem left (hp : p.length < DEPTH) : (nodes p.index).left = some (index (false :: p)) := by
  rw [h.node p hp.le]
  simp [builtNode, hp]

theorem right (hp : p.length < DEPTH) : (nodes p.index).right = some (index (true :: p)) := by
  rw [h.node p hp.le]
  simp [builtNode, hp]

theorem order (hp : p.length ≤ DEPTH) : (nodes p.index).order = HEAP_ORDER_MAX - p.length := by
  rw [h.node p hp]
  rfl

theorem base (hp : p.length ≤ DEPTH) : (nodes p.index).base = offset HEAP_ORDER_MAX p := by
  rw [h.node p hp]
  rfl

theorem set (hp : p.length ≤ DEPTH) : Built (setNodeState nodes p.index st) := by
  refine ⟨?_, ?_⟩
  · intro q hq
    by_cases he : q = p
    · subst he
      have hq' := h.node q hq
      simp only [setNodeState, Function.update_self]
      rw [hq']
    · have hne : q.index ≠ p.index := fun hi => he (index_inj hi)
      simp only [setNodeState, Function.update_of_ne hne]
      exact h.node q hq
  · intro n hn
    simp only [setNodeState, Function.update_of_ne (hn p hp)]
    exact h.outside n hn

/-- The states determine the whole array. -/
theorem ext {nodes' : Nat → BuddyNode} (h' : Built nodes')
    (hs : ∀ p : TreeNode, p.length ≤ DEPTH → stateAt nodes p = stateAt nodes' p) :
    nodes = nodes' := by
  funext n
  by_cases hn : ∃ p : TreeNode, p.length ≤ DEPTH ∧ n = p.index
  · obtain ⟨p, hp, rfl⟩ := hn
    have hst : (nodes p.index).state = (nodes' p.index).state := hs p hp
    rw [h.node p hp, h'.node p hp, hst]
  · simp only [not_exists, not_and] at hn
    rw [h.outside n hn, h'.outside n hn]

end Built

end States

/-! ## `build_tree` -/

/-- What `build_tree` has made of the nodes at and below `p`: the tree, but for the parent of `p`. -/
structure BuiltBelow (p : TreeNode) (nodes nodes' : Nat → BuddyNode) : Prop where
  top : nodes' p.index = { builtNode p with parent := none }
  below : ∀ q : TreeNode, p <:+ q → q ≠ p → q.length ≤ DEPTH → nodes' q.index = builtNode q
  outside : ∀ n, (∀ q : TreeNode, p <:+ q → q.length ≤ DEPTH → n ≠ q.index) → nodes' n = nodes n

theorem buildTree_builds (height : Nat) : ∀ (p : TreeNode) (nodes : Nat → BuddyNode),
    p.length + height = DEPTH →
    BuiltBelow p nodes (buildTree nodes p.index height (offset HEAP_ORDER_MAX p)) := by
  induction height with
  | zero =>
      intro p nodes hlen
      have hleaf : ¬ p.length < DEPTH := by omega
      refine ⟨?_, ?_, ?_⟩
      · have horder : HEAP_ORDER_MIN = HEAP_ORDER_MAX - p.length := by
          unfold DEPTH HEAP_ORDER_MAX HEAP_ORDER_MIN at *
          omega
        simp only [buildTree, Function.update_self, builtNode, if_neg hleaf, ← horder]
      · intro q hpq hne hq
        exact absurd (hpq.eq_of_length_le (by omega)).symm hne
      · intro n hn
        exact Function.update_of_ne (hn p (List.suffix_refl p) (by omega)) _ _
  | succ height ih =>
      intro p nodes hlen
      have hinner : p.length < DEPTH := by omega
      have hlenc : ∀ c : Bool, (c :: p).length + height = DEPTH := by
        intro c
        simp only [List.length_cons]
        omega
      have hl : index p * 2 + 1 = index (false :: p) := by
        simp only [index, Bool.toNat_false]
        omega
      have hr : index (false :: p) + 1 = index (true :: p) := by
        simp only [index, Bool.toNat_false, Bool.toNat_true]
      have hbl : offset HEAP_ORDER_MAX p = offset HEAP_ORDER_MAX (false :: p) := by
        simp [offset]
      have hbr : offset HEAP_ORDER_MAX p + blockSize (HEAP_ORDER_MIN + height) =
          offset HEAP_ORDER_MAX (true :: p) := by
        have hexp : HEAP_ORDER_MAX - p.length - 1 = HEAP_ORDER_MIN + height := by
          unfold DEPTH HEAP_ORDER_MAX HEAP_ORDER_MIN at *
          omega
        simp [offset, blockSize, hexp]
      -- the nodes written one after the other: `p`, its left subtree, its right subtree
      set nodes1 := Function.update nodes p.index
        { order := HEAP_ORDER_MIN + (height + 1), base := offset HEAP_ORDER_MAX p } with hn1
      set nodes2 := buildTree nodes1 (index (false :: p)) height (offset HEAP_ORDER_MAX (false :: p))
        with hn2
      set nodes3 := buildTree nodes2 (index (true :: p)) height (offset HEAP_ORDER_MAX (true :: p))
        with hn3
      have hleft : BuiltBelow (false :: p) nodes1 nodes2 := ih _ _ (hlenc false)
      have hright : BuiltBelow (true :: p) nodes2 nodes3 := ih _ _ (hlenc true)
      have heq : buildTree nodes p.index (height + 1) (offset HEAP_ORDER_MAX p) =
          Function.update (setParent (setParent nodes3 (index (false :: p)) p.index)
            (index (true :: p)) p.index) p.index
            { setParent (setParent nodes3 (index (false :: p)) p.index)
                (index (true :: p)) p.index p.index with
              left := some (index (false :: p)), right := some (index (true :: p)) } := by
        simp only [buildTree, hl, hr, hbr]
        rw [← hn1]
        conv_lhs => rw [show buildTree nodes1 (index (false :: p)) height (offset HEAP_ORDER_MAX p) =
          nodes2 by rw [hn2, ← hbl]]
      have hindex : ∀ {q r : TreeNode}, q ≠ r → q.index ≠ r.index := fun h he => h (index_inj he)
      have hpc : ∀ c : Bool, p.index ≠ index (c :: p) := fun c => hindex (cons_ne c p)
      have hlr : index (false :: p) ≠ index (true :: p) := hindex (by simp)
      have hnot : ∀ {c : Bool} {q : TreeNode}, c :: p <:+ q → q ≠ p := by
        intro c q hq he
        subst he
        have hle := hq.length_le
        simp at hle
      have hside : ∀ {b c : Bool} {q r : TreeNode}, b ≠ c → b :: p <:+ q → c :: p <:+ r → q ≠ r := by
        intro b c q r hbc hq hr he
        subst he
        exact hbc (eq_of_below_both hq hr)
      have hchild : ∀ c : Bool, c :: p <:+ c :: p := fun c => List.suffix_refl _
      rw [heq]
      refine ⟨?_, ?_, ?_⟩
      · have hp3 : nodes3 p.index = nodes1 p.index := by
          rw [hright.outside _ fun q hq _ => hindex (hnot hq).symm,
            hleft.outside _ fun q hq _ => hindex (hnot hq).symm]
        have horder : HEAP_ORDER_MIN + (height + 1) = HEAP_ORDER_MAX - p.length := by
          unfold DEPTH HEAP_ORDER_MAX HEAP_ORDER_MIN at *
          omega
        simp only [Function.update_self, setParent, Function.update_of_ne (hpc _), hp3, hn1, builtNode,
          if_pos hinner, horder]
      · intro q hpq hne hq
        rw [Function.update_of_ne (hindex hne)]
        rcases below_cases hpq with rfl | ⟨c, hc⟩
        · exact absurd rfl hne
        · by_cases hqc : q = c :: p
          · subst hqc
            cases c with
            | false =>
                have h3 : nodes3 (index (false :: p)) = nodes2 (index (false :: p)) :=
                  hright.outside _ fun r hr _ => hindex (hside (by decide) (hchild false) hr)
                simp only [setParent, Function.update_of_ne hlr, Function.update_self, h3, hleft.top]
                rfl
            | true =>
                simp only [setParent, Function.update_self, Function.update_of_ne hlr.symm, hright.top]
                rfl
          · have hne' : ∀ b : Bool, q ≠ b :: p := by
              rintro b rfl
              exact hqc (by rw [eq_of_below_both hc (hchild b)])
            simp only [setParent, Function.update_of_ne (hindex (hne' _))]
            cases c with
            | false =>
                rw [hright.outside _ fun r hr _ => hindex (hside (by decide) hc hr)]
                exact hleft.below q hc hqc hq
            | true => exact hright.below q hc hqc hq
      · intro n hn
        have hnp : n ≠ p.index := hn p (List.suffix_refl p) hinner.le
        have hnc : ∀ c : Bool, n ≠ index (c :: p) := fun c =>
          hn _ (List.suffix_cons c p) hinner
        rw [Function.update_of_ne hnp]
        simp only [setParent, Function.update_of_ne (hnc _)]
        rw [hright.outside n fun q hq => hn q (below_parent hq),
          hleft.outside n fun q hq => hn q (below_parent hq), hn1, Function.update_of_ne hnp]

/-- **`mem_init`** lays out the tree, all of it free. -/
theorem buildTree_built :
    Built (buildTree (fun _ => {}) 0 (HEAP_ORDER_MAX - HEAP_ORDER_MIN) 0) ∧
    ∀ p : TreeNode, p.length ≤ DEPTH →
      stateAt (buildTree (fun _ => {}) 0 (HEAP_ORDER_MAX - HEAP_ORDER_MIN) 0) p = .free := by
  have h : BuiltBelow [] (fun _ => {})
      (buildTree (fun _ => {}) 0 (HEAP_ORDER_MAX - HEAP_ORDER_MIN) 0) :=
    buildTree_builds DEPTH [] _ rfl
  have hnode : ∀ p : TreeNode, p.length ≤ DEPTH →
      buildTree (fun _ => {}) 0 (HEAP_ORDER_MAX - HEAP_ORDER_MIN) 0 p.index = builtNode p := by
    intro p hp
    by_cases he : p = []
    · subst he
      exact h.top
    · exact h.below p List.nil_suffix he hp
  refine ⟨⟨?_, ?_⟩, ?_⟩
  · intro p hp
    rw [hnode p hp]
  · intro n hn
    exact h.outside n fun q _ => hn q
  · intro p hp
    rw [stateAt, hnode p hp]
    rfl

/-! ## States that show the nodes in use -/

/-- The state tells what the nodes in use look like from `p`. -/
def Shows (U : Set TreeNode) (p : TreeNode) : NodeState → Prop
  | .free => IsFree U p
  | .split => IsSplit U p
  | .used => p ∈ U

section Shows
variable {U : Set TreeNode} {p q j : TreeNode} {st st' : NodeState}

theorem Shows.unique (hU : IsAntichain (· <:+ ·) U) (h : Shows U p st) (h' : Shows U p st') :
    st = st' := by
  cases st <;> cases st' <;> try rfl
  all_goals simp only [Shows] at h h'
  case free.split => exact absurd h' h.not_split
  case free.used => exact absurd h' h.not_mem
  case split.free => exact absurd h h'.not_split
  case split.used => exact absurd h' (h.not_mem hU)
  case used.free => exact absurd h h'.not_mem
  case used.split => exact absurd h (h'.not_mem hU)

/-- One more node in use does not show where it is not below. -/
theorem Shows.insert_aside (h : Shows U p st) (hj : ¬ p <:+ j) : Shows (insert j U) p st := by
  cases st with
  | free =>
      intro u hu
      rcases hu with rfl | hu
      · exact hj
      · exact h u hu
  | split =>
      obtain ⟨u, hu, hb⟩ := h
      exact ⟨u, .inr hu, hb⟩
  | used => exact .inr h

/-- Nor does one fewer. -/
theorem Shows.remove (h : Shows U p st) (hp : ¬ p <:+ j) : Shows (U \ {j}) p st := by
  cases st with
  | free => exact fun u hu => h u hu.1
  | split =>
      obtain ⟨u, hu, hb, hne⟩ := h
      exact ⟨u, ⟨hu, fun he => hp (he ▸ hb)⟩, hb, hne⟩
  | used => exact ⟨h, fun he => hp (he ▸ List.suffix_refl _)⟩

end Shows

/-! ## `acquire_node` -/

/-- What `acquire_node` has done at and below `p` when it returns `result`. -/
inductive Acquired (U : Set TreeNode) (order : Nat) (p : TreeNode) (nodes nodes' : Nat → BuddyNode) :
    Option Nat → Prop
  | failed (same : nodes' = nodes) : Acquired U order p nodes nodes' none
  | found (j : TreeNode) (below : p <:+ j) (level : j.length ≤ DEPTH)
      (fits : HEAP_ORDER_MAX - j.length = order) (free : IsFree U j)
      (above : ∀ a ∈ U, p <:+ a → ¬ a <:+ j) (built : Built nodes')
      (shows : ∀ q : TreeNode, p <:+ q → q.length ≤ DEPTH →
        Shows (insert j U) q (stateAt nodes' q))
      (frame : ∀ q : TreeNode, ¬ p <:+ q → stateAt nodes' q = stateAt nodes q) :
      Acquired U order p nodes nodes' (some j.index)

/-- The states while `acquire_node` looks below the node `p`: that of `p` is `NODE_SPLIT`. -/
structure Opened (U : Set TreeNode) (p : TreeNode) (nodes nodes1 : Nat → BuddyNode) : Prop where
  built : Built nodes1
  split : stateAt nodes1 p = .split
  aside : ∀ q, q ≠ p → stateAt nodes1 q = stateAt nodes q
  notUsed : p ∉ U
  shows : ∀ q : TreeNode, p <:+ q → q.length ≤ DEPTH → Shows U q (stateAt nodes q)

theorem child_ne {c : Bool} {p q : TreeNode} (hq : c :: p <:+ q) : q ≠ p := by
  rintro rfl
  have hle := hq.length_le
  simp at hle

theorem Opened.shows_child {U : Set TreeNode} {p q : TreeNode} {nodes nodes1 : Nat → BuddyNode}
    (h : Opened U p nodes nodes1) {c : Bool} (hq : c :: p <:+ q) (hlen : q.length ≤ DEPTH) :
    Shows U q (stateAt nodes1 q) := by
  rw [h.aside q (child_ne hq)]
  exact h.shows q (below_parent hq) hlen

/-- A node not in use is split before its children are tried. -/
theorem Opened.of_not_used {U : Set TreeNode} {p : TreeNode} {nodes : Nat → BuddyNode}
    (hb : Built nodes) (hp : p.length ≤ DEPTH) (hused : (nodes p.index).state ≠ .used) (hU : p ∉ U)
    (hshows : ∀ q : TreeNode, p <:+ q → q.length ≤ DEPTH → Shows U q (stateAt nodes q)) :
    Opened U p nodes
      (if (nodes p.index).state = .free then setNodeState nodes p.index .split else nodes) := by
  split
  · exact ⟨hb.set hp, stateAt_set .., fun q hq => stateAt_set_of_ne hq, hU, hshows⟩
  · next hfree =>
    refine ⟨hb, ?_, fun _ _ => rfl, hU, hshows⟩
    cases hst : stateAt nodes p with
    | free => exact absurd hst hfree
    | split => rfl
    | used => exact absurd hst hused

/-- What is found below a child is found below `p`. -/
theorem Acquired.of_child {U : Set TreeNode} {order n : Nat} {p : TreeNode} {c : Bool}
    {nodes nodes1 nodes' : Nat → BuddyNode} (hopen : Opened U p nodes nodes1)
    (h : Acquired U order (c :: p) nodes1 nodes' (some n)) :
    Acquired U order p nodes nodes' (some n) := by
  cases h with
  | found j below level fits free above built shows frame =>
      refine .found j (below_parent below) level fits free ?_ built ?_ ?_
      · intro a ha hpa haj
        rcases below_cases hpa with rfl | ⟨d, hd⟩
        · exact hopen.notUsed ha
        · have hcd : d = c := eq_of_below_both (hd.trans haj) below
          subst hcd
          exact above a ha hd haj
      · intro q hpq hq
        rcases below_cases hpq with rfl | ⟨d, hd⟩
        · rw [frame q fun h => child_ne h rfl, hopen.split]
          exact ⟨j, .inl rfl, below_parent below, (child_ne below).symm⟩
        · by_cases hcd : d = c
          · subst hcd
            exact shows q hd hq
          · have haside : ¬ c :: p <:+ q := fun h => hcd (eq_of_below_both hd h)
            rw [frame q haside]
            refine (hopen.shows_child hd hq).insert_aside fun h => ?_
            exact hcd (eq_of_below_both (hd.trans h) below)
      · intro q hq
        rw [frame q fun h => hq (below_parent h), hopen.aside q fun h => hq (h ▸ List.suffix_refl p)]

/-- A search that fails below both children undoes the split it made, and no other. -/
theorem Opened.undo {U : Set TreeNode} {p : TreeNode} {nodes nodes1 : Nat → BuddyNode}
    (h : Opened U p nodes nodes1) (hU : IsAntichain (· <:+ ·) U) (hp : p.length < DEPTH)
    (heq : nodes1 =
      if (nodes p.index).state = .free then setNodeState nodes p.index .split else nodes) :
    (if (nodes1 (index (false :: p))).state = .free ∧ (nodes1 (index (true :: p))).state = .free then
      setNodeState nodes1 p.index .free else nodes1) = nodes := by
  have hchild : ∀ c : Bool, Shows U (c :: p) (stateAt nodes1 (c :: p)) := fun c =>
    h.shows_child (List.suffix_refl _) hp
  have hself := h.shows p (List.suffix_refl p) hp.le
  by_cases hfree : (nodes p.index).state = .free
  · have hU' : IsFree U p := by
      have hst : stateAt nodes p = .free := hfree
      rwa [hst] at hself
    have hcf : ∀ c : Bool, (nodes1 (index (c :: p))).state = .free := fun c =>
      (hchild c).unique hU (show Shows U (c :: p) .free from hU'.child c)
    rw [if_pos ⟨hcf false, hcf true⟩, heq, if_pos hfree, setNodeState_twice,
      setNodeState_self hfree]
  · rw [if_neg hfree] at heq
    subst heq
    have hst : stateAt nodes1 p = .split := h.split
    rw [hst] at hself
    obtain ⟨c, hc⟩ := IsSplit.child hself
    refine if_neg fun hboth => hc ?_
    have hcf : stateAt nodes1 (c :: p) = .free := by
      cases c
      · exact hboth.1
      · exact hboth.2
    have hshow := hchild c
    rwa [hcf] at hshow

/-- **`acquire_node`** takes a free node of the order asked for, under no node in use, or changes
    nothing. -/
theorem acquireNode_spec {U : Set TreeNode} (hU : IsAntichain (· <:+ ·) U) {order : Nat}
    (horder : HEAP_ORDER_MIN ≤ order) (fuel : Nat) :
    ∀ (p : TreeNode) (nodes : Nat → BuddyNode), Built nodes → p.length ≤ DEPTH →
      DEPTH < p.length + fuel →
      (∀ q : TreeNode, p <:+ q → q.length ≤ DEPTH → Shows U q (stateAt nodes q)) →
      Acquired U order p nodes (acquireNode order fuel nodes (some p.index)).2
        (acquireNode order fuel nodes (some p.index)).1 := by
  induction fuel with
  | zero => exact fun p _ _ hp hfuel => absurd hfuel (by omega)
  | succ fuel ih =>
      intro p nodes hb hp hfuel hshows
      have hself : Shows U p (stateAt nodes p) := hshows p (List.suffix_refl p) hp
      rw [acquireNode]
      split
      · exact .failed rfl
      next hused =>
      split
      · exact .failed rfl
      next hlt =>
      rw [hb.order hp] at hlt ⊢
      split
      · next heq =>
        split
        · -- a free node of this order is taken
          next hfree =>
          have hst : stateAt nodes p = .free := hfree
          rw [hst] at hself
          refine .found p (List.suffix_refl p) hp heq hself ?_ (hb.set hp) ?_ ?_
          · intro a ha hpa _
            exact hself a ha hpa
          · intro q hpq hq
            by_cases hqp : q = p
            · subst hqp
              rw [stateAt_set]
              exact .inl rfl
            · rw [stateAt_set_of_ne hqp]
              refine (hshows q hpq hq).insert_aside fun hqp' => ?_
              exact hqp (below_antisymm hqp' hpq)
          · intro q hq
            exact stateAt_set_of_ne fun h => hq (h ▸ List.suffix_refl p)
        · exact .failed rfl
      next hne =>
      have hinner : p.length < DEPTH := by
        unfold DEPTH HEAP_ORDER_MAX HEAP_ORDER_MIN at *
        omega
      rw [hb.left hinner, hb.right hinner]
      dsimp only
      -- a free node is split before its children are tried
      set nodes1 := if (nodes p.index).state = .free then setNodeState nodes p.index .split else nodes
        with hn1
      have hnotU : p ∉ U := fun hpU => hused (hself.unique hU (show Shows U p .used from hpU))
      have hopen : Opened U p nodes nodes1 := Opened.of_not_used hb hp hused hnotU hshows
      have hsearch : ∀ c : Bool, Acquired U order (c :: p) nodes1
          (acquireNode order fuel nodes1 (some (index (c :: p)))).2
          (acquireNode order fuel nodes1 (some (index (c :: p)))).1 := by
        intro c
        refine ih (c :: p) nodes1 hopen.built hinner ?_ fun q hq hlen => hopen.shows_child hq hlen
        simp only [List.length_cons]
        omega
      have hl := hsearch false
      revert hl
      generalize acquireNode order fuel nodes1 (some (index (false :: p))) = left
      obtain ⟨l1, l2⟩ := left
      intro hl
      cases l1 with
      | some n => exact hl.of_child hopen
      | none =>
          cases hl with
          | failed same =>
              dsimp only at same
              subst same
              have hr := hsearch true
              revert hr
              dsimp only
              rw [if_neg (by simp)]
              generalize acquireNode order fuel nodes1 (some (index (true :: p))) = right
              obtain ⟨r1, r2⟩ := right
              intro hr
              cases r1 with
              | some n => exact hr.of_child hopen
              | none =>
                  cases hr with
                  | failed same =>
                      dsimp only at same
                      subst same
                      have hundo := hopen.undo hU hinner hn1
                      dsimp only
                      rw [if_neg (by simp)]
                      split
                      · next hboth =>
                        rw [if_pos hboth] at hundo
                        exact .failed hundo
                      · next hboth =>
                        rw [if_neg hboth] at hundo
                        exact .failed hundo

/-! ## `coalesce_up` -/

/-- The states while `coalesce_up` is at `q`: right everywhere but from `q` up, where no node is in
    use and all say `NODE_SPLIT`. -/
structure Coalescing (U : Set TreeNode) (q : TreeNode) (nodes : Nat → BuddyNode) : Prop where
  built : Built nodes
  inner : q.length < DEPTH
  shows : ∀ r : TreeNode, r.length ≤ DEPTH → ¬ r <:+ q → Shows U r (stateAt nodes r)
  notUsed : ∀ r : TreeNode, r <:+ q → r ∉ U
  split : ∀ r : TreeNode, r <:+ q → stateAt nodes r = .split

namespace Coalescing

variable {U : Set TreeNode} {q : TreeNode} {b : Bool} {nodes : Nat → BuddyNode}

theorem shows_child (h : Coalescing U q nodes) (c : Bool) :
    Shows U (c :: q) (stateAt nodes (c :: q)) := by
  refine h.shows _ h.inner fun hc => ?_
  have hle := hc.length_le
  simp at hle

/-- Both children are free: so is the node. -/
theorem isFree (h : Coalescing U q nodes) (hfree : ∀ c : Bool, stateAt nodes (c :: q) = .free) :
    IsFree U q := by
  refine .of_children (h.notUsed q (List.suffix_refl q)) fun c => ?_
  have hc := h.shows_child c
  rwa [hfree c] at hc

/-- One child is not free: the states are right as they are. -/
theorem shows_all (h : Coalescing U q nodes) {c : Bool} (hc : stateAt nodes (c :: q) ≠ .free)
    {r : TreeNode} (hr : r.length ≤ DEPTH) : Shows U r (stateAt nodes r) := by
  by_cases hrq : r <:+ q
  · rw [h.split r hrq]
    have hnf : ¬ IsFree U (c :: q) := by
      intro hf
      have hshow := h.shows_child c
      cases hst : stateAt nodes (c :: q) with
      | free => exact hc hst
      | split =>
          rw [hst] at hshow
          exact hf.not_split hshow
      | used =>
          rw [hst] at hshow
          exact hf.not_mem hshow
    exact (IsSplit.of_child hnf).above hrq
  · exact h.shows r hr hrq

/-- A node found free: what is left to do lies above it. -/
theorem free_node (h : Coalescing U q nodes) (hfree : IsFree U q) {r : TreeNode}
    (hr : r.length ≤ DEPTH) (hrq : r <:+ q → r = q) :
    Shows U r (stateAt (setNodeState nodes q.index .free) r) := by
  by_cases he : r = q
  · subst he
    rw [stateAt_set]
    exact hfree
  · rw [stateAt_set_of_ne he]
    exact h.shows r hr fun hb => he (hrq hb)

theorem up (h : Coalescing U (b :: q) nodes) (hfree : IsFree U (b :: q)) :
    Coalescing U q (setNodeState nodes (index (b :: q)) .free) where
  built := h.built.set h.inner.le
  inner := Nat.lt_of_succ_lt h.inner
  shows r hr hrq := h.free_node hfree hr fun hb =>
    (List.suffix_cons_iff.mp hb).resolve_right hrq
  notUsed r hr := h.notUsed r (hr.trans (List.suffix_cons b q))
  split r hr := by
    have hne : r ≠ b :: q := by
      rintro rfl
      have hle := hr.length_le
      simp at hle
    rw [stateAt_set_of_ne hne]
    exact h.split r (hr.trans (List.suffix_cons b q))

end Coalescing

/-- **`coalesce_up`** frees the nodes that have become empty, and no others. -/
theorem coalesceUp_spec {U : Set TreeNode} (q : TreeNode) :
    ∀ (fuel : Nat) (nodes : Nat → BuddyNode), q.length < fuel → Coalescing U q nodes →
      Built (coalesceUp fuel nodes (some q.index)) ∧
      ∀ r : TreeNode, r.length ≤ DEPTH →
        Shows U r (stateAt (coalesceUp fuel nodes (some q.index)) r) := by
  -- on the path to the root, which is the way the loop climbs
  induction q with
  | nil =>
      intro fuel nodes hfuel h
      obtain ⟨fuel, rfl⟩ : ∃ n, fuel = n + 1 := ⟨fuel - 1, by omega⟩
      rw [coalesceUp, h.built.left h.inner, h.built.right h.inner]
      dsimp only
      split
      · next hboth =>
        have hfree : IsFree U [] := h.isFree fun c => by
          cases c
          · exact hboth.1
          · exact hboth.2
        rw [h.built.parent_root]
        have hdone : coalesceUp fuel (setNodeState nodes (index []) .free) none =
            setNodeState nodes (index []) .free := by cases fuel <;> rfl
        rw [hdone]
        refine ⟨h.built.set (Nat.zero_le _), ?_⟩
        intro r hr
        exact h.free_node hfree hr List.suffix_nil.mp
      · next hnot =>
        rw [setNodeState_self (h.split [] (List.suffix_refl _))]
        refine ⟨h.built, ?_⟩
        intro r hr
        rcases not_and_or.mp hnot with hc | hc
        · exact h.shows_all (c := false) hc hr
        · exact h.shows_all (c := true) hc hr
  | cons b q ih =>
      intro fuel nodes hfuel h
      obtain ⟨fuel, rfl⟩ : ∃ n, fuel = n + 1 := ⟨fuel - 1, by omega⟩
      rw [coalesceUp, h.built.left h.inner, h.built.right h.inner]
      dsimp only
      split
      · next hboth =>
        have hfree : IsFree U (b :: q) := h.isFree fun c => by
          cases c
          · exact hboth.1
          · exact hboth.2
        rw [h.built.parent_cons h.inner.le]
        exact ih fuel _ (by simpa using hfuel) (h.up hfree)
      · next hnot =>
        rw [setNodeState_self (h.split _ (List.suffix_refl _))]
        refine ⟨h.built, ?_⟩
        intro r hr
        rcases not_and_or.mp hnot with hc | hc
        · exact h.shows_all (c := false) hc hr
        · exact h.shows_all (c := true) hc hr

/-! ## `free_bytes` -/

/-- **`free_bytes`** counts what the nodes in use leave of a block. -/
theorem freeBytes_add_taken {us : List TreeNode}
    (hus : us.Pairwise Apart) {nodes : Nat → BuddyNode} (hb : Built nodes)
    (hlevel : ∀ u ∈ us, u.length ≤ DEPTH)
    (hshows : ∀ p : TreeNode, p.length ≤ DEPTH → Shows {u | u ∈ us} p (stateAt nodes p)) (fuel : Nat) :
    ∀ p : TreeNode, p.length ≤ DEPTH → DEPTH < p.length + fuel →
      freeBytes nodes fuel (some p.index) + taken HEAP_ORDER_MAX us p = width HEAP_ORDER_MAX p := by
  induction fuel with
  | zero => exact fun p hp hfuel => absurd hfuel (by omega)
  | succ fuel ih =>
      intro p hp hfuel
      have hshow := hshows p hp
      cases hst : stateAt nodes p with
      | free =>
          rw [hst] at hshow
          have hst' : (nodes p.index).state = .free := hst
          simp only [freeBytes, hst', taken_free hshow, hb.order hp]
          rfl
      | used =>
          rw [hst] at hshow
          have hst' : (nodes p.index).state = .used := hst
          simp only [freeBytes, hst', taken_marked hus hshow, Nat.zero_add]
      | split =>
          rw [hst] at hshow
          have hst' : (nodes p.index).state = .split := hst
          obtain ⟨u, hu, hpu, hne⟩ := hshow
          have hinner : p.length < DEPTH := by
            have hlen : p.length < u.length := by
              refine lt_of_le_of_ne hpu.length_le fun he => hne (hpu.eq_of_length he)
            have hul := hlevel u hu
            omega
          have hnot : p ∉ us := by
            intro hpus
            exact (hus.forall hpus hu hne).1 hpu
          have hl := ih (false :: p) hinner (by simp only [List.length_cons]; omega)
          have hr := ih (true :: p) hinner (by simp only [List.length_cons]; omega)
          have hw := width_cons false (by
            unfold DEPTH at hinner
            exact lt_of_lt_of_le hinner (Nat.sub_le _ _))
          have hw' : width HEAP_ORDER_MAX (true :: p) = width HEAP_ORDER_MAX (false :: p) := rfl
          simp only [freeBytes, hst', hb.left hinner, hb.right hinner, taken_children hnot]
          omega

end TpSo
