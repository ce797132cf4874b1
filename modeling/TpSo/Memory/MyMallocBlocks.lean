import TpSo.Library.Tiling
import TpSo.Memory.MyMalloc

set_option autoImplicit false

/-! # The block list of `myMalloc.c`

`Linked` reads the list that the headers in memory form. `mem_alloc` takes the first free block that
is large enough and replaces it by `carve`: the block itself, and what was cut off it. Both the list and the
tiling of the heap survive. -/

namespace TpSo.MyMalloc

open Bytes Tiling

/-- The header at `b.addr` says what `b` says. -/
def Header (mem : Memory) (b : Tiling.Block) : Prop :=
  getSize mem b.addr = b.size ∧ (getFree mem b.addr ≠ 0 ↔ b.free = true)

/-- Following `next` from `curr` visits the blocks `bs` and then arrives at `last`. -/
def Linked (mem : Memory) : Nat → List Tiling.Block → Nat → Prop
  | curr, [], last => curr = last
  | curr, b :: bs, last => curr = b.addr ∧ Header mem b ∧ Linked mem (getNext mem b.addr) bs last

variable {mem mem' : Memory} {curr last size p : Nat} {b : Tiling.Block} {bs cs l r : List Tiling.Block}

theorem linked_append :
    Linked mem curr (bs ++ cs) last ↔ ∃ mid, Linked mem curr bs mid ∧ Linked mem mid cs last := by
  induction bs generalizing curr with
  | nil => simp [Linked]
  | cons b bs ih =>
    simp only [List.cons_append, Linked, ih]
    constructor
    · rintro ⟨hcurr, hb, mid, hbs, hcs⟩
      exact ⟨mid, ⟨hcurr, hb, hbs⟩, hcs⟩
    · rintro ⟨mid, ⟨hcurr, hb, hbs⟩, hcs⟩
      exact ⟨hcurr, hb, mid, hbs, hcs⟩

/-! ## Headers depend on their own bytes -/

/-- The header at `p` is the same in both memories. -/
def SameHeader (mem mem' : Memory) (p : Nat) : Prop :=
  ∀ a, p ≤ a → a < p + BLOCK_SIZE → mem' a = mem a

theorem SameHeader.getSize (h : SameHeader mem mem' p) : getSize mem' p = getSize mem p := by
  apply loadLE_congr
  intro a h1 h2
  exact h a h1 (by simp only [BLOCK_SIZE]; omega)

theorem SameHeader.getFree (h : SameHeader mem mem' p) : getFree mem' p = getFree mem p := by
  apply loadLE_congr
  intro a h1 h2
  exact h a (by omega) (by simp only [BLOCK_SIZE]; omega)

theorem SameHeader.getNext (h : SameHeader mem mem' p) : getNext mem' p = getNext mem p := by
  apply loadLE_congr
  intro a h1 h2
  exact h a (by omega) (by simp only [BLOCK_SIZE]; omega)

theorem Header.congr (h : Header mem b) (hsame : SameHeader mem mem' b.addr) : Header mem' b := by
  rwa [Header, hsame.getSize, hsame.getFree]

theorem Linked.congr (h : Linked mem curr bs last) (hsame : ∀ b ∈ bs, SameHeader mem mem' b.addr) :
    Linked mem' curr bs last := by
  induction bs generalizing curr with
  | nil => exact h
  | cons b bs ih =>
    obtain ⟨hcurr, hb, hrest⟩ := h
    have hsameb := hsame b List.mem_cons_self
    refine ⟨hcurr, hb.congr hsameb, ?_⟩
    rw [hsameb.getNext]
    exact ih hrest fun c hc => hsame c (List.mem_cons_of_mem b hc)

/-- A block may be replaced by blocks that are linked in its place. -/
theorem Linked.replace (h : Linked mem curr (l ++ b :: r) last)
    (hcs : Linked mem' b.addr cs (getNext mem b.addr))
    (hl : ∀ c ∈ l, SameHeader mem mem' c.addr) (hr : ∀ c ∈ r, SameHeader mem mem' c.addr) :
    Linked mem' curr (l ++ cs ++ r) last := by
  obtain ⟨mid, hleft, rfl, -, hright⟩ := linked_append.mp h
  rw [List.append_assoc]
  exact linked_append.mpr ⟨_, hleft.congr hl, linked_append.mpr ⟨_, hcs, hright.congr hr⟩⟩

/-! ## The search -/

/-- The test of the loop of `mem_alloc`. -/
def fits (size : Nat) (b : Tiling.Block) : Bool := b.free && decide (size ≤ b.size)

theorem Header.fits_iff (h : Header mem b) :
    (getFree mem b.addr ≠ 0 ∧ size ≤ getSize mem b.addr) ↔ fits size b = true := by
  simp only [fits, Bool.and_eq_true, decide_eq_true_eq, h.1, h.2]

/-- The loop passes over blocks that do not fit. -/
theorem memAllocFrom_skip (hl : ∀ b ∈ l, 0 < b.addr ∧ fits size b = false) {fuel : Nat}
    (h : Linked mem curr l last) :
    memAllocFrom (fuel + l.length) mem curr size = memAllocFrom fuel mem last size := by
  induction l generalizing curr with
  | nil =>
    have hlast : curr = last := h
    rw [hlast]
    rfl
  | cons b l ih =>
    obtain ⟨rfl, hb, hrest⟩ := h
    obtain ⟨hpos, hunfit⟩ := hl b List.mem_cons_self
    have hnull : b.addr ≠ NULL := by
      simp only [NULL]
      omega
    have htest : ¬ (getFree mem b.addr ≠ 0 ∧ size ≤ getSize mem b.addr) := by
      simp [hb.fits_iff, hunfit]
    rw [List.length_cons, ← Nat.add_assoc, memAllocFrom, if_neg hnull, if_neg htest]
    exact ih (fun c hc => hl c (List.mem_cons_of_mem b hc)) hrest

/-- Where no block fits, the request fails and changes nothing. -/
theorem memAllocFrom_none (hbs : ∀ b ∈ bs, 0 < b.addr ∧ fits size b = false) {fuel : Nat}
    (h : Linked mem curr bs NULL) (hfuel : bs.length < fuel) :
    memAllocFrom fuel mem curr size = some (NULL, mem) := by
  obtain ⟨k, rfl⟩ : ∃ k, fuel = (k + 1) + bs.length := ⟨fuel - bs.length - 1, by omega⟩
  rw [memAllocFrom_skip hbs h, memAllocFrom, if_pos rfl]

/-- The first block that fits is taken. -/
theorem memAllocFrom_some (hl : ∀ b ∈ l, 0 < b.addr ∧ fits size b = false) {fuel : Nat}
    (h : Linked mem curr (l ++ b :: r) last) (hpos : 0 < b.addr) (hfits : fits size b = true)
    (hfuel : l.length < fuel) :
    memAllocFrom fuel mem curr size =
      some ((b.addr + BLOCK_SIZE) % 2 ^ 64, takeBlock mem b.addr size) := by
  obtain ⟨k, rfl⟩ : ∃ k, fuel = (k + 1) + l.length := ⟨fuel - l.length - 1, by omega⟩
  obtain ⟨mid, hleft, rfl, hb, -⟩ := linked_append.mp h
  have hnull : b.addr ≠ NULL := by
    simp only [NULL]
    omega
  rw [memAllocFrom_skip hl hleft, memAllocFrom, if_neg hnull, if_pos (hb.fits_iff.mpr hfits)]

/-! ## The block that is taken -/

/-- What becomes of a block of which `size` bytes are taken. -/
def carve (b : Tiling.Block) (size : Nat) : List Tiling.Block :=
  if size + BLOCK_SIZE < b.size then
    [⟨b.addr, size, false⟩, ⟨b.addr + BLOCK_SIZE + size, b.size - size - BLOCK_SIZE, true⟩]
  else [⟨b.addr, b.size, false⟩]

theorem tiles_carve (b : Tiling.Block) (size : Nat) :
    Tiles BLOCK_SIZE b.addr (carve b size) (b.addr + BLOCK_SIZE + b.size) := by
  unfold carve
  split
  · simp only [Tiles, true_and]
    omega
  · simp only [Tiles, true_and]

/-- The first block of `carve` is in use and large enough; what was cut off is free. -/
theorem carve_eq (hle : size ≤ b.size) :
    ∃ k rest, carve b size = ⟨b.addr, k, false⟩ :: rest ∧ size ≤ k ∧ ∀ c ∈ rest, c.free = true := by
  unfold carve
  split
  · exact ⟨size, _, rfl, le_rfl, by simp⟩
  · exact ⟨b.size, [], rfl, hle, by simp⟩

/-- Carving makes no block larger. -/
theorem size_le_of_mem_carve (hle : size ≤ b.size) {c : Tiling.Block} (hc : c ∈ carve b size) :
    c.size ≤ b.size := by
  unfold carve at hc
  split at hc
  · simp only [List.mem_cons, List.not_mem_nil, or_false] at hc
    rcases hc with rfl | rfl
    · exact hle
    · simp only
      omega
  · rw [List.mem_singleton.mp hc]

/-- `splitBlock` writes inside the block that it splits. -/
theorem splitBlock_outside {a : Nat} (hsize : size + BLOCK_SIZE ≤ getSize mem p)
    (hend : p + BLOCK_SIZE + getSize mem p ≤ 2 ^ 64)
    (ha : a < p ∨ p + BLOCK_SIZE + getSize mem p ≤ a) : splitBlock mem p size a = mem a := by
  simp only [BLOCK_SIZE] at *
  have hwrap : (p + 24 + size) % 2 ^ 64 = p + 24 + size := Nat.mod_eq_of_lt (by omega)
  simp only [splitBlock, setSize, setFree, setNext, BLOCK_SIZE, hwrap]
  repeat rw [storeLE_outside _ _ (by omega)]

theorem takeBlock_outside {a : Nat} (hpos : 0 < p) (hend : p + BLOCK_SIZE + getSize mem p ≤ 2 ^ 64)
    (hle : size ≤ getSize mem p) (ha : a < p ∨ p + BLOCK_SIZE + getSize mem p ≤ a) :
    takeBlock mem p size a = mem a := by
  have hwrap : (size + BLOCK_SIZE) % 2 ^ 64 = size + BLOCK_SIZE := Nat.mod_eq_of_lt (by omega)
  have hheader : a < p + 8 ∨ p + 8 + 4 ≤ a := by
    simp only [BLOCK_SIZE] at ha
    omega
  rw [takeBlock, hwrap, setFree, storeLE_outside _ _ hheader]
  split
  · next hsplit => exact splitBlock_outside hsplit.le hend ha
  · rfl

/-- A header reads back what was stored in it. -/
theorem splitBlock_fields (hsize : size + BLOCK_SIZE < getSize mem p)
    (hend : p + BLOCK_SIZE + getSize mem p ≤ 2 ^ 64) :
    let mem' := splitBlock mem p size
    let newBlock := p + BLOCK_SIZE + size
    getSize mem' p = size ∧ getNext mem' p = newBlock ∧
    getSize mem' newBlock = getSize mem p - size - BLOCK_SIZE ∧ getFree mem' newBlock = 1 ∧
    getNext mem' newBlock = getNext mem p := by
  have hnext : getNext mem p < 256 ^ 8 := loadLE_lt 8 mem _
  have hbig : (256 : Nat) ^ 8 = 2 ^ 64 := by norm_num
  simp only [BLOCK_SIZE] at *
  have hwrap : (p + 24 + size) % 2 ^ 64 = p + 24 + size := Nat.mod_eq_of_lt (by omega)
  have hsub : sizeSub (sizeSub (getSize mem p) size) 24 = getSize mem p - size - 24 := by
    simp only [sizeSub]
    omega
  -- every header read below is off the headers written before it, or is one of them
  have hkeep : getNext (setFree (setSize mem (p + 24 + size) (getSize mem p - size - 24))
      (p + 24 + size) 1) p = getNext mem p := by
    simp (disch := omega) only [getNext, setSize, setFree, loadLE_storeLE_of_disjoint]
  simp only [splitBlock, BLOCK_SIZE, hwrap, hsub, hkeep]
  simp (disch := omega) only [getSize, getFree, getNext, setSize, setFree, setNext,
    loadLE_storeLE_of_disjoint, loadLE_storeLE]
  refine ⟨?_, ?_, ?_, ?_, ?_⟩
  · exact Nat.mod_eq_of_lt (by omega)
  · exact Nat.mod_eq_of_lt (by omega)
  · exact Nat.mod_eq_of_lt (by simp only [getSize] at hend; omega)
  · norm_num
  · exact Nat.mod_eq_of_lt hnext

theorem setFree_fields (mem : Memory) (p v : Nat) (hv : v < 2 ^ 32) :
    getSize (setFree mem p v) p = getSize mem p ∧ getFree (setFree mem p v) p = v ∧
    getNext (setFree mem p v) p = getNext mem p := by
  simp (disch := omega) only [getSize, getFree, getNext, setFree, loadLE_storeLE_of_disjoint,
    loadLE_storeLE, true_and, and_true]
  exact Nat.mod_eq_of_lt (by omega)

/-- `free` of another block, the headers being apart. -/
theorem setFree_sameHeader (mem : Memory) {p q : Nat} (v : Nat)
    (h : q + BLOCK_SIZE ≤ p ∨ p + BLOCK_SIZE ≤ q) : SameHeader mem (setFree mem p v) q := by
  intro a h1 h2
  simp only [BLOCK_SIZE] at h h2
  exact storeLE_outside mem v (by omega)

/-- The taken block and what was cut off it are linked in its place. -/
theorem linked_carve (hb : Header mem b) (hpos : 0 < b.addr)
    (hend : b.addr + BLOCK_SIZE + b.size ≤ 2 ^ 64) (hle : size ≤ b.size) :
    Linked (takeBlock mem b.addr size) b.addr (carve b size) (getNext mem b.addr) := by
  have hsize : getSize mem b.addr = b.size := hb.1
  have hwrap : (size + BLOCK_SIZE) % 2 ^ 64 = size + BLOCK_SIZE := Nat.mod_eq_of_lt (by omega)
  rw [takeBlock, hwrap, hsize, carve]
  split
  · next hsplit =>
    obtain ⟨hs, hn, hs', hf', hn'⟩ := splitBlock_fields (p := b.addr)
      (hsize ▸ hsplit) (hsize ▸ hend)
    obtain ⟨ks, kf, kn⟩ := setFree_fields (splitBlock mem b.addr size) b.addr 0 (by norm_num)
    have hsame : SameHeader (splitBlock mem b.addr size) (setFree (splitBlock mem b.addr size)
        b.addr 0) (b.addr + BLOCK_SIZE + size) := setFree_sameHeader _ 0 (.inr (by omega))
    refine ⟨rfl, ⟨ks.trans hs, by simp [kf]⟩, kn.trans hn, ⟨?_, ?_⟩, ?_⟩
    · exact hsame.getSize.trans (hs'.trans (by rw [hsize]))
    · simp [hsame.getFree, hf']
    · exact hsame.getNext.trans hn'
  · obtain ⟨ks, kf, kn⟩ := setFree_fields mem b.addr 0 (by norm_num)
    exact ⟨rfl, ⟨ks.trans hsize, by simp [kf]⟩, kn⟩

end TpSo.MyMalloc
