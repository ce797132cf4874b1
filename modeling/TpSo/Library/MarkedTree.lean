import Mathlib.Order.Antichain
import Mathlib.Data.List.Infix
import Mathlib.Data.List.Pairwise
import Mathlib.Algebra.BigOperators.Group.List.Basic
import Mathlib.Data.Set.Insert
import Mathlib.Tactic.Ring

set_option autoImplicit false

/-! # Marked nodes of a binary tree

A node of the infinite binary tree is the list of turns that lead to it from the root, the last turn
first; so a node lies below another exactly when it has it as a suffix. Given a set of marked nodes,
none below another, every node is *marked*, *free* (no mark at or below it) or *split* (a mark
strictly below it). Nodes are numbered breadth first, and each stands for an aligned block of a
range whose length is a power of two. -/

/-- The turns from the root to a node, the last one first. -/
abbrev TreeNode := List Bool

namespace TreeNode

variable {U : Set TreeNode} {p q u : TreeNode} {b : Bool}

/-- Neither node lies below the other. -/
def Apart (p q : TreeNode) : Prop := ¬ p <:+ q ∧ ¬ q <:+ p

instance : Std.Symm Apart where
  symm _ _ h := ⟨h.2, h.1⟩

/-! ## Free and split nodes -/

/-- There is no marked node at `p` or below it. -/
def IsFree (U : Set TreeNode) (p : TreeNode) : Prop := ∀ u ∈ U, ¬ p <:+ u

/-- There is a marked node strictly below `p`. -/
def IsSplit (U : Set TreeNode) (p : TreeNode) : Prop := ∃ u ∈ U, p <:+ u ∧ p ≠ u

/-- A node below `p` is `p` itself or below one of its children. -/
theorem below_cases (h : p <:+ q) : q = p ∨ ∃ b, b :: p <:+ q := by
  induction q with
  | nil => exact .inl (List.suffix_nil.mp h).symm
  | cons c rest ih =>
      rcases List.suffix_cons_iff.mp h with rfl | hrest
      · exact .inl rfl
      · refine .inr ?_
        rcases ih hrest with rfl | ⟨b, hb⟩
        · exact ⟨c, List.suffix_refl _⟩
        · exact ⟨b, hb.trans (List.suffix_cons c rest)⟩

theorem below_parent (h : b :: p <:+ q) : p <:+ q := (List.suffix_cons b p).trans h

theorem below_antisymm (h : p <:+ q) (h' : q <:+ p) : p = q :=
  h.eq_of_length (le_antisymm h.length_le h'.length_le)

theorem cons_ne (b : Bool) (p : TreeNode) : p ≠ b :: p := by
  intro h
  simpa using congrArg List.length h

/-- The two subtrees of a node share no node. -/
theorem eq_of_below_both {c : Bool} (hb : b :: p <:+ q) (hc : c :: p <:+ q) : b = c := by
  have hle := List.suffix_of_suffix_length_le hb hc (by simp)
  exact (List.cons.inj (hle.eq_of_length (by simp))).1

theorem IsFree.child (h : IsFree U p) (b : Bool) : IsFree U (b :: p) :=
  fun u hu hb => h u hu (below_parent hb)

theorem IsFree.below (h : IsFree U p) (hq : p <:+ q) : IsFree U q :=
  fun u hu hb => h u hu (hq.trans hb)

theorem IsFree.of_children (hp : p ∉ U) (h : ∀ b, IsFree U (b :: p)) : IsFree U p := by
  intro u hu hb
  rcases below_cases hb with rfl | ⟨b, hb⟩
  · exact hp hu
  · exact h b u hu hb

/-- Below a marked node all is free. -/
theorem IsFree.of_marked (hU : IsAntichain (· <:+ ·) U) (hp : p ∈ U) (hq : p <:+ q) (hne : p ≠ q) :
    IsFree U q := by
  intro u hu hb
  have hpu : p = u := by
    by_contra hne'
    exact hU hp hu hne' (hq.trans hb)
  subst hpu
  exact hne (below_antisymm hq hb)

theorem IsFree.not_split (h : IsFree U p) : ¬ IsSplit U p :=
  fun ⟨u, hu, hb, _⟩ => h u hu hb

theorem IsFree.not_mem (h : IsFree U p) : p ∉ U := fun hp => h p hp (List.suffix_refl p)

theorem IsSplit.not_mem (hU : IsAntichain (· <:+ ·) U) (h : IsSplit U p) : p ∉ U := by
  obtain ⟨u, hu, hb, hne⟩ := h
  exact fun hp => hU hp hu hne hb

theorem IsSplit.child (h : IsSplit U p) : ∃ b, ¬ IsFree U (b :: p) := by
  obtain ⟨u, hu, hb, hne⟩ := h
  rcases below_cases hb with rfl | ⟨b, hb⟩
  · exact absurd rfl hne
  · exact ⟨b, fun hf => hf u hu hb⟩

theorem IsSplit.of_child (h : ¬ IsFree U (b :: p)) : IsSplit U p := by
  simp only [IsFree, not_forall, not_not] at h
  obtain ⟨u, hu, hb⟩ := h
  refine ⟨u, hu, below_parent hb, ?_⟩
  rintro rfl
  have hlen := hb.length_le
  simp at hlen

/-- Marks under one node are seen from every node above it. -/
theorem IsSplit.above (h : IsSplit U q) (hp : p <:+ q) : IsSplit U p := by
  obtain ⟨u, hu, hb, hne⟩ := h
  refine ⟨u, hu, hp.trans hb, ?_⟩
  rintro rfl
  exact hne (below_antisymm hb hp)

/-- Distinct members of a list of nodes apart lie apart. -/
theorem antichain_of_apart {us : List TreeNode} (h : us.Pairwise Apart) :
    IsAntichain (· <:+ ·) {u | u ∈ us} :=
  fun _ hu _ hv hne => (h.forall hu hv hne).1

/-- Marking a free node under no marked one leaves no mark below another. -/
theorem antichain_insert (hU : IsAntichain (· <:+ ·) U) (hq : IsFree U q)
    (habove : ∀ p ∈ U, ¬ p <:+ q) : IsAntichain (· <:+ ·) (insert q U) := by
  refine hU.insert ?_ ?_
  · intro p hp _ hb
    exact habove p hp hb
  · intro u hu _ hb
    exact hq u hu hb

/-! ## Numbers -/

/-- The number of a node, breadth first from 0. -/
def index : TreeNode → Nat
  | [] => 0
  | b :: p => 2 * index p + 1 + b.toNat

theorem index_inj : ∀ {p q : TreeNode}, index p = index q → p = q
  | [], [], _ => rfl
  | [], c :: q, h => by
      simp only [index] at h
      omega
  | b :: p, [], h => by
      simp only [index] at h
      omega
  | b :: p, c :: q, h => by
      have hb := Bool.toNat_le b
      have hc := Bool.toNat_le c
      simp only [index] at h
      have hp : index p = index q := by omega
      have hbc : b.toNat = c.toNat := by omega
      rw [index_inj hp]
      cases b <;> cases c <;> simp at hbc ⊢

/-- Level `n` has the numbers from `2 ^ n - 1` on. -/
theorem index_bounds (p : TreeNode) :
    2 ^ p.length ≤ index p + 1 ∧ index p + 1 < 2 ^ (p.length + 1) := by
  induction p with
  | nil => simp [index]
  | cons b p ih =>
      have hb := Bool.toNat_le b
      simp only [index, List.length_cons, pow_succ] at ih ⊢
      omega

theorem index_lt_iff {d : Nat} : index p + 1 < 2 ^ (d + 1) ↔ p.length ≤ d := by
  obtain ⟨hlo, hhi⟩ := index_bounds p
  constructor
  · intro h
    by_contra hlen
    have hpow : 2 ^ (d + 1) ≤ 2 ^ p.length := Nat.pow_le_pow_right (by omega) (by omega)
    omega
  · intro h
    have hpow : 2 ^ (p.length + 1) ≤ 2 ^ (d + 1) := Nat.pow_le_pow_right (by omega) (by omega)
    omega

/-- The node with this number. -/
def ofIndex (n : Nat) : TreeNode :=
  if n = 0 then [] else decide (n % 2 = 0) :: ofIndex ((n - 1) / 2)

theorem index_ofIndex (n : Nat) : index (ofIndex n) = n := by
  induction n using Nat.strong_induction_on with
  | _ n ih =>
      rw [ofIndex]
      split
      · next hn => simp [index, hn]
      · next hn =>
        have hrec := ih ((n - 1) / 2) (by omega)
        simp only [index, hrec]
        by_cases hmod : n % 2 = 0
        · simp only [hmod, decide_true, Bool.toNat_true]
          omega
        · simp only [hmod, decide_false, Bool.toNat_false]
          omega

theorem ofIndex_index (p : TreeNode) : ofIndex (index p) = p := index_inj (index_ofIndex _)

/-! ## Blocks -/

/-- Where the block of a node begins, in a range of length `2 ^ top`. -/
def offset (top : Nat) : TreeNode → Nat
  | [] => 0
  | b :: p => offset top p + if b then 2 ^ (top - p.length - 1) else 0

/-- The length of the block of a node. -/
def width (top : Nat) (p : TreeNode) : Nat := 2 ^ (top - p.length)

theorem width_cons {top : Nat} (b : Bool) (h : p.length < top) :
    width top (b :: p) + width top (b :: p) = width top p := by
  obtain ⟨n, hn⟩ : ∃ n, top - p.length = n + 1 := ⟨top - p.length - 1, by omega⟩
  have hn' : top - (b :: p).length = n := by
    simp only [List.length_cons]
    omega
  unfold width
  rw [hn, hn', pow_succ]
  omega

theorem offset_cons {top : Nat} (b : Bool) :
    offset top (b :: p) = offset top p + if b then width top (b :: p) else 0 := by
  simp only [offset, width, List.length_cons, Nat.sub_sub]

/-- The block of a node lies inside those of the nodes above it. -/
theorem block_below {top : Nat} (h : p <:+ q) (hq : q.length ≤ top) :
    offset top p ≤ offset top q ∧ offset top q + width top q ≤ offset top p + width top p := by
  induction q with
  | nil =>
      rw [List.suffix_nil.mp h]
      exact ⟨le_refl _, le_refl _⟩
  | cons c rest ih =>
      rcases List.suffix_cons_iff.mp h with rfl | hrest
      · exact ⟨le_refl _, le_refl _⟩
      · have hlen : rest.length < top := hq
        obtain ⟨hlo, hhi⟩ := ih hrest (by omega)
        have hw := width_cons c hlen
        have ho := @offset_cons rest top c
        split at ho <;> omega

/-- The blocks of two nodes of one level overlap only if the nodes are the same. -/
theorem block_disjoint_level {top : Nat} : ∀ {p q : TreeNode}, p.length = q.length → q.length ≤ top →
    p ≠ q → offset top p + width top p ≤ offset top q ∨ offset top q + width top q ≤ offset top p
  | [], [], _, _, hne => absurd rfl hne
  | [], _ :: _, h, _, _ => by simp at h
  | _ :: _, [], h, _, _ => by simp at h
  | b :: p, c :: q, h, hq, hne => by
      have hlen : p.length = q.length := by simpa using h
      have hlt : q.length < top := hq
      by_cases hpq : p = q
      · subst hpq
        have hbc : b ≠ c := fun hbc => hne (hbc ▸ rfl)
        have hb := @offset_cons p top b
        have hc := @offset_cons p top c
        have hw : width top (b :: p) = width top (c :: p) := by simp [width]
        cases b <;> cases c <;> simp at hbc hb hc <;> omega
      · have hp := block_below (List.suffix_cons b p) (h.le.trans hq)
        have hc := block_below (List.suffix_cons c q) hq
        rcases block_disjoint_level hlen hlt.le hpq with hd | hd
        · left
          omega
        · right
          omega

/-- **Disjoint blocks**: those of two nodes neither of which lies below the other. -/
theorem block_disjoint {top : Nat} (hp : p.length ≤ top) (hq : q.length ≤ top) (h : Apart p q) :
    offset top p + width top p ≤ offset top q ∨ offset top q + width top q ≤ offset top p := by
  -- by symmetry `p` is on the higher level: compare it with the node above `q` on that level
  wlog hle : p.length ≤ q.length generalizing p q with hsymm
  · exact (hsymm hq hp (symm h) (by omega)).symm
  · have hr : q.drop (q.length - p.length) <:+ q := List.drop_suffix _ _
    have hlen : (q.drop (q.length - p.length)).length = p.length := by
      rw [List.length_drop]
      omega
    have hne : p ≠ q.drop (q.length - p.length) := fun he => h.1 (he ▸ hr)
    have hin := block_below hr hq
    rcases block_disjoint_level hlen.symm (hlen.le.trans (hle.trans hq)) hne with hd | hd
    · left
      omega
    · right
      omega

/-- Nodes with disjoint blocks lie apart, and the other way round. -/
theorem apart_iff_disjoint {top : Nat} (hp : p.length ≤ top) (hq : q.length ≤ top) :
    Apart p q ↔
      offset top p + width top p ≤ offset top q ∨ offset top q + width top q ≤ offset top p := by
  refine ⟨block_disjoint hp hq, fun hd => ?_⟩
  have hwp : 0 < width top p := Nat.pow_pos (by omega)
  have hwq : 0 < width top q := Nat.pow_pos (by omega)
  constructor
  · intro hb
    have hin := block_below hb hq
    omega
  · intro hb
    have hin := block_below hb hp
    omega

/-- Blocks on the left of a node come before those on its right. -/
theorem offset_left_le_right {top : Nat} {r : TreeNode} (hq : false :: p <:+ q) (hr : true :: p <:+ r)
    (hqlen : q.length ≤ top) (hrlen : r.length ≤ top) : offset top q ≤ offset top r := by
  have hleft := block_below hq hqlen
  have hright := block_below hr hrlen
  have hf := @offset_cons p top false
  have ht := @offset_cons p top true
  have hw : width top (false :: p) = width top (true :: p) := rfl
  simp only [Bool.false_eq_true, if_false, if_true] at hf ht
  omega

/-- Every aligned block is that of a node on the level of its length. -/
theorem exists_offset {top d : Nat} (hd : d ≤ top) : ∀ i < 2 ^ d, ∃ p : TreeNode,
    p.length = d ∧ offset top p = i * 2 ^ (top - d) := by
  induction d with
  | zero =>
    intro i hi
    obtain rfl : i = 0 := by simpa using hi
    exact ⟨[], rfl, by simp [offset]⟩
  | succ d ih =>
    intro i hi
    obtain ⟨p, hlen, hoff⟩ := ih (by omega) (i / 2) (by rw [pow_succ] at hi; omega)
    have hpow : 2 ^ (top - d) = 2 * 2 ^ (top - (d + 1)) := by
      rw [← pow_succ']
      congr 1
      omega
    refine ⟨decide (i % 2 = 1) :: p, by simp [hlen], ?_⟩
    have hsplit : i = i / 2 * 2 + i % 2 := by omega
    have hwidth : top - p.length - 1 = top - (d + 1) := by omega
    rw [offset, hoff, hpow, hwidth]
    by_cases hodd : i % 2 = 1
    · simp only [hodd, decide_true, if_true]
      conv_rhs => rw [hsplit, hodd]
      ring
    · have heven : i % 2 = 0 := by omega
      simp only [hodd, decide_false, Bool.false_eq_true, if_false]
      conv_rhs => rw [hsplit, heven]
      ring

/-- The block of a node is aligned to its length. -/
theorem offset_aligned {top : Nat} : ∀ {p : TreeNode}, p.length ≤ top →
    ∃ i < 2 ^ p.length, offset top p = i * 2 ^ (top - p.length)
  | [], _ => ⟨0, by simp, by simp [offset]⟩
  | b :: p, hp => by
    have hlen : p.length < top := hp
    obtain ⟨i, hi, hoff⟩ := offset_aligned hlen.le
    have hpow : 2 ^ (top - p.length) = 2 * 2 ^ (top - (p.length + 1)) := by
      rw [← pow_succ']
      congr 1
      omega
    refine ⟨2 * i + b.toNat, ?_, ?_⟩
    · have hb := Bool.toNat_le b
      rw [List.length_cons, pow_succ]
      omega
    · rw [offset, hoff, hpow, Nat.sub_sub, List.length_cons]
      cases b
      · simp only [Bool.false_eq_true, if_false, Bool.toNat_false]
        ring
      · simp only [if_true, Bool.toNat_true]
        ring

/-! ## What the marks take -/

/-- The lengths of the blocks of the listed nodes at or below `p`, added up. -/
def taken (top : Nat) (us : List TreeNode) (p : TreeNode) : Nat :=
  ((us.filter (fun u => p.isSuffixOf u)).map (width top)).sum

theorem taken_cons (top : Nat) (u : TreeNode) (us : List TreeNode) (p : TreeNode) :
    taken top (u :: us) p = (if p <:+ u then width top u else 0) + taken top us p := by
  unfold taken
  rw [List.filter_cons]
  by_cases h : p <:+ u
  · rw [if_pos h, if_pos (List.isSuffixOf_iff_suffix.mpr h), List.map_cons, List.sum_cons]
  · rw [if_neg h, if_neg (fun hs => h (List.isSuffixOf_iff_suffix.mp hs)), Nat.zero_add]

theorem taken_root (top : Nat) (us : List TreeNode) : taken top us [] = (us.map (width top)).sum := by
  induction us with
  | nil => rfl
  | cons u us ih => rw [taken_cons, if_pos List.nil_suffix, ih, List.map_cons, List.sum_cons]

theorem taken_free {top : Nat} {us : List TreeNode} (h : IsFree {u | u ∈ us} p) :
    taken top us p = 0 := by
  induction us with
  | nil => rfl
  | cons u us ih =>
      rw [taken_cons, if_neg (h u List.mem_cons_self), ih fun v hv => h v (List.mem_cons_of_mem _ hv)]

/-- A marked node takes its own block, once. -/
theorem taken_marked {top : Nat} {us : List TreeNode} (hU : us.Pairwise Apart) (hp : p ∈ us) :
    taken top us p = width top p := by
  induction us with
  | nil => exact absurd hp List.not_mem_nil
  | cons u us ih =>
      obtain ⟨hu, hus⟩ := List.pairwise_cons.mp hU
      rw [taken_cons]
      rcases List.mem_cons.mp hp with rfl | hp
      · rw [if_pos (List.suffix_refl _), taken_free fun v hv => (hu v hv).1, Nat.add_zero]
      · rw [if_neg (hu p hp).2, ih hus hp, Nat.zero_add]

/-- What lies below a node that is not marked lies below one of its children. -/
theorem taken_children {top : Nat} {us : List TreeNode} (hp : p ∉ us) :
    taken top us p = taken top us (false :: p) + taken top us (true :: p) := by
  induction us with
  | nil => rfl
  | cons u us ih =>
      have hu : u ≠ p := fun h => hp (h ▸ List.mem_cons_self)
      rw [taken_cons, taken_cons, taken_cons, ih fun h => hp (List.mem_cons_of_mem _ h)]
      by_cases hb : p <:+ u
      · rcases below_cases hb with rfl | ⟨b, hb'⟩
        · exact absurd rfl hu
        · have hother : ∀ c, c ≠ b → ¬ c :: p <:+ u := fun c hc hc' => hc (eq_of_below_both hc' hb')
          cases b with
          | false =>
              rw [if_pos hb, if_pos hb', if_neg (hother true (by decide))]
              omega
          | true =>
              rw [if_pos hb, if_pos hb', if_neg (hother false (by decide))]
              omega
      · rw [if_neg hb, if_neg fun h => hb (below_parent h), if_neg fun h => hb (below_parent h)]
        omega

end TreeNode
