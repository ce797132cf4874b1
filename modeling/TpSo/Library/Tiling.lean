import Mathlib.Algebra.GroupWithZero.Nat
import Mathlib.Data.List.Nodup
import Mathlib.Data.List.Pairwise

set_option autoImplicit false

/-! # Blocks that tile an interval

An interval of addresses is cut into blocks one after the other, each a header of a fixed number of
bytes followed by its payload. `Tiles` says so of a list of blocks; what lies in one block is then
disjoint from what lies in another. -/

namespace Tiling

/-- A block: where its header starts and how long its payload is. -/
structure Block where
  addr : Nat
  size : Nat
  free : Bool
  deriving DecidableEq

/-- The blocks `bs` fill the addresses from `a` to `e`, each with a header of `header` bytes. -/
def Tiles (header : Nat) : Nat → List Block → Nat → Prop
  | a, [], e => a = e
  | a, b :: bs, e => b.addr = a ∧ Tiles header (a + header + b.size) bs e

variable {header a e : Nat} {bs cs : List Block} {b c : Block}

theorem tiles_append :
    Tiles header a (bs ++ cs) e ↔ ∃ m, Tiles header a bs m ∧ Tiles header m cs e := by
  induction bs generalizing a with
  | nil => simp [Tiles]
  | cons b bs ih => simp only [List.cons_append, Tiles, ih, and_assoc, exists_and_left]

theorem Tiles.length_le (h : Tiles header a bs e) : a + header * bs.length ≤ e := by
  induction bs generalizing a with
  | nil =>
    have hend : a = e := h
    simp [hend]
  | cons b bs ih =>
    have hrest := ih h.2
    rw [List.length_cons, Nat.mul_succ]
    omega

theorem Tiles.le (h : Tiles header a bs e) : a ≤ e := by
  have hlength := h.length_le
  omega

/-- Every block lies within the interval. -/
theorem Tiles.bounds (h : Tiles header a bs e) (hb : b ∈ bs) :
    a ≤ b.addr ∧ b.addr + header + b.size ≤ e := by
  induction bs generalizing a with
  | nil => cases hb
  | cons c bs ih =>
    have hle := h.2.le
    rcases List.mem_cons.mp hb with rfl | hrest
    · have haddr := h.1
      omega
    · have hbounds := ih h.2 hrest
      omega

/-- The blocks come in address order, each one after the end of the ones before it. -/
theorem Tiles.pairwise (h : Tiles header a bs e) :
    bs.Pairwise (fun b c => b.addr + header + b.size ≤ c.addr) := by
  induction bs generalizing a with
  | nil => exact .nil
  | cons b bs ih =>
    refine List.pairwise_cons.mpr ⟨?_, ih h.2⟩
    intro c hc
    have hbounds := h.2.bounds hc
    have haddr := h.1
    omega

/-- Two different blocks have nothing in common. -/
theorem Tiles.apart (h : Tiles header a bs e) (hb : b ∈ bs) (hc : c ∈ bs) (hne : b ≠ c) :
    b.addr + header + b.size ≤ c.addr ∨ c.addr + header + c.size ≤ b.addr := by
  let Apart : Block → Block → Prop := fun b c =>
    b.addr + header + b.size ≤ c.addr ∨ c.addr + header + c.size ≤ b.addr
  have hsymm : Std.Symm Apart := ⟨fun _ _ => Or.symm⟩
  have hpair : bs.Pairwise Apart := h.pairwise.imp Or.inl
  exact hpair.forall hb hc hne

/-- Where headers are not empty, an address starts at most one block. -/
theorem Tiles.eq_of_addr (h : Tiles header a bs e) (hpos : 0 < header) (hb : b ∈ bs) (hc : c ∈ bs)
    (haddr : b.addr = c.addr) : b = c := by
  by_contra hne
  have hapart := h.apart hb hc hne
  omega

variable {l r : List Block}

/-- The blocks before and after a given one. -/
theorem Tiles.around (h : Tiles header a (l ++ b :: r) e) :
    (∀ c ∈ l, c.addr + header + c.size ≤ b.addr) ∧ (∀ c ∈ r, b.addr + header + b.size ≤ c.addr) := by
  obtain ⟨m, hl, hb, hr⟩ := tiles_append.mp h
  constructor
  · intro c hc
    have hbounds := hl.bounds hc
    omega
  · intro c hc
    have hbounds := hr.bounds hc
    omega

/-- A block may be replaced by blocks that tile it. -/
theorem Tiles.replace (h : Tiles header a (l ++ b :: r) e)
    (hcs : Tiles header b.addr cs (b.addr + header + b.size)) : Tiles header a (l ++ cs ++ r) e := by
  obtain ⟨m, hl, rfl, hr⟩ := tiles_append.mp h
  rw [List.append_assoc]
  exact tiles_append.mpr ⟨_, hl, tiles_append.mpr ⟨_, hcs, hr⟩⟩

/-! ## Counting bytes -/

/-- The payload bytes of the free blocks, or of those in use. -/
def payloadBytes (free : Bool) (bs : List Block) : Nat :=
  ((bs.filter fun b => b.free == free).map Block.size).sum

@[simp]
theorem payloadBytes_nil (free : Bool) : payloadBytes free [] = 0 := rfl

theorem payloadBytes_cons (free : Bool) (b : Block) (bs : List Block) :
    payloadBytes free (b :: bs) = (if b.free = free then b.size else 0) + payloadBytes free bs := by
  by_cases hfree : b.free = free <;> simp [payloadBytes, hfree]

/-- Payloads and headers fill the interval. -/
theorem Tiles.total (h : Tiles header a bs e) :
    a + payloadBytes false bs + payloadBytes true bs + header * bs.length = e := by
  induction bs generalizing a with
  | nil => simpa [Tiles] using h
  | cons b bs ih =>
    have hrest := ih h.2
    rw [payloadBytes_cons, payloadBytes_cons, List.length_cons, Nat.mul_succ]
    cases hfree : b.free <;> simp only [if_true, Bool.false_eq_true, Bool.true_eq_false, if_false] <;> omega

variable {α β κ : Type} {xs : List α} {ys : List β} {f : α → κ} {g : β → κ} {u : α → Nat} {v : β → Nat}

/-- Where each `x` has a `y` of the same key that weighs at least as much, and no two `xs` share a key, the
    `ys` together weigh at least as much. -/
theorem sum_le_sum_of_keys (hdistinct : (xs.map f).Nodup)
    (h : ∀ x ∈ xs, ∃ y ∈ ys, f x = g y ∧ u x ≤ v y) : (xs.map u).sum ≤ (ys.map v).sum := by
  induction xs generalizing ys with
  | nil => exact Nat.zero_le _
  | cons x xs ih =>
    obtain ⟨hx, hxs⟩ := List.nodup_cons.mp hdistinct
    obtain ⟨y, hy, hkey, hle⟩ := h x List.mem_cons_self
    obtain ⟨l, r, rfl⟩ := List.append_of_mem hy
    -- the others have other keys, so theirs are among what is left without `y`
    have hrest : (xs.map u).sum ≤ ((l ++ r).map v).sum := by
      apply ih hxs
      intro x' hx'
      obtain ⟨y', hy', hkey', hle'⟩ := h x' (List.mem_cons_of_mem x hx')
      have hne : y' ≠ y := by
        rintro rfl
        exact hx (List.mem_map.mpr ⟨x', hx', hkey'.trans hkey.symm⟩)
      exact ⟨y', by simpa [hne] using hy', hkey', hle'⟩
    simp only [List.map_cons, List.map_append, List.sum_cons, List.sum_append] at hrest ⊢
    omega

end Tiling
