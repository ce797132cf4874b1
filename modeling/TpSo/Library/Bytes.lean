import Mathlib.Algebra.Group.Nat.Hom
import Mathlib.Logic.Function.Basic
import Mathlib.Tactic.Ring

set_option autoImplicit false

/-! # Byte memories and little-endian words

A memory is a function from addresses to bytes. A word of `n` bytes is stored with its least
significant byte first; `loadLE` and `storeLE` read and write it, and `Holds` says that a list of
bytes lies at an address. -/

namespace Bytes

/-- The bytes at every address. -/
abbrev Memory := Nat → UInt8

/-- The `n` bytes of `v`, least significant first. -/
def toLE : (n : Nat) → (v : Nat) → List UInt8
  | 0, _ => []
  | n + 1, v => UInt8.ofNat v :: toLE n (v / 256)

/-- The unsigned number that the `n` bytes at `a` spell. -/
def loadLE : (n : Nat) → Memory → Nat → Nat
  | 0, _, _ => 0
  | n + 1, mem, a => (mem a).toNat + 256 * loadLE n mem (a + 1)

/-- Write the bytes `bs` at `a`. -/
def write : Memory → Nat → List UInt8 → Memory
  | mem, _, [] => mem
  | mem, a, b :: bs => write (Function.update mem a b) (a + 1) bs

/-- Write the `n` bytes of `v` at `a`. -/
def storeLE (n : Nat) (mem : Memory) (a v : Nat) : Memory := write mem a (toLE n v)

/-- The bytes `bs` lie at `a`. -/
def Holds (mem : Memory) : Nat → List UInt8 → Prop
  | _, [] => True
  | a, b :: bs => mem a = b ∧ Holds mem (a + 1) bs

@[simp] theorem length_toLE (n v : Nat) : (toLE n v).length = n := by
  induction n generalizing v with
  | zero => rfl
  | succ n ih => simp [toLE, ih]

/-! ## What a write leaves alone -/

@[simp] theorem write_nil (mem : Memory) (a : Nat) : write mem a [] = mem := by simp [write]

theorem write_outside (mem : Memory) {a b : Nat} (bs : List UInt8)
    (h : b < a ∨ a + bs.length ≤ b) : write mem a bs b = mem b := by
  induction bs generalizing mem a with
  | nil => simp
  | cons x bs ih =>
    rw [List.length_cons] at h
    rw [write, ih _ (by omega)]
    exact Function.update_of_ne (by omega) _ _

theorem storeLE_outside (mem : Memory) {n a b : Nat} (v : Nat) (h : b < a ∨ a + n ≤ b) :
    storeLE n mem a v b = mem b := by
  apply write_outside
  simpa using h

/-! ## Words depend on their own bytes only -/

theorem loadLE_congr {mem mem' : Memory} {n a : Nat}
    (h : ∀ b, a ≤ b → b < a + n → mem' b = mem b) : loadLE n mem' a = loadLE n mem a := by
  induction n generalizing a with
  | zero => rfl
  | succ n ih =>
    rw [loadLE, loadLE, h a (by omega) (by omega), ih]
    intro b h1 h2
    exact h b (by omega) (by omega)

theorem loadLE_storeLE_of_disjoint (mem : Memory) {n k a b : Nat} (v : Nat)
    (h : a + n ≤ b ∨ b + k ≤ a) : loadLE n (storeLE k mem b v) a = loadLE n mem a := by
  apply loadLE_congr
  intro c h1 h2
  exact storeLE_outside mem v (by omega)

theorem loadLE_lt (n : Nat) (mem : Memory) (a : Nat) : loadLE n mem a < 256 ^ n := by
  induction n generalizing a with
  | zero => simp [loadLE]
  | succ n ih =>
    have hrest := ih (a + 1)
    have hbyte := (mem a).toNat_lt
    rw [loadLE, pow_succ]
    omega

/-! ## Bytes that lie in memory -/

theorem Holds.congr {mem mem' : Memory} {a : Nat} {bs : List UInt8} (h : Holds mem a bs)
    (hsame : ∀ b, a ≤ b → b < a + bs.length → mem' b = mem b) : Holds mem' a bs := by
  induction bs generalizing a with
  | nil => trivial
  | cons x bs ih =>
    rw [List.length_cons] at hsame
    refine ⟨(hsame a (by omega) (by omega)).trans h.1, ih h.2 ?_⟩
    intro b h1 h2
    exact hsame b (by omega) (by omega)

theorem holds_append {mem : Memory} {a : Nat} {bs cs : List UInt8} :
    Holds mem a (bs ++ cs) ↔ Holds mem a bs ∧ Holds mem (a + bs.length) cs := by
  induction bs generalizing a with
  | nil => simp [Holds]
  | cons x bs ih =>
    have harrange : a + (bs.length + 1) = a + 1 + bs.length := by omega
    simp only [List.cons_append, Holds, ih, List.length_cons, harrange, and_assoc]

theorem holds_write (mem : Memory) (a : Nat) (bs : List UInt8) : Holds (write mem a bs) a bs := by
  induction bs generalizing mem a with
  | nil => trivial
  | cons x bs ih =>
    refine ⟨?_, ih _ _⟩
    rw [write, write_outside _ _ (by omega)]
    exact Function.update_self a x mem

theorem holds_iff_getElem {mem : Memory} {a : Nat} {bs : List UInt8} :
    Holds mem a bs ↔ ∀ i, (h : i < bs.length) → mem (a + i) = bs[i] := by
  induction bs generalizing a with
  | nil => simp [Holds]
  | cons x bs ih =>
    simp only [Holds, ih, List.length_cons]
    constructor
    · rintro ⟨hhead, hrest⟩ i hi
      cases i with
      | zero => simpa using hhead
      | succ i => simpa [Nat.add_assoc, Nat.add_comm 1] using hrest i (by omega)
    · intro h
      refine ⟨by simpa using h 0 (by omega), ?_⟩
      intro i hi
      have hnext := h (i + 1) (by omega)
      rw [List.getElem_cons_succ] at hnext
      rw [← hnext]
      congr 1
      omega

/-- A word is what its bytes spell. -/
theorem loadLE_of_holds {mem : Memory} {n a v : Nat} (h : Holds mem a (toLE n v)) :
    loadLE n mem a = v % 256 ^ n := by
  induction n generalizing a v with
  | zero => simp [loadLE, Nat.mod_one]
  | succ n ih =>
    have hhead : (UInt8.ofNat v).toNat = v % 256 := UInt8.toNat_ofNat'
    rw [loadLE, ih h.2, h.1, hhead, pow_succ', Nat.mod_mul]

theorem loadLE_storeLE (mem : Memory) (n a v : Nat) :
    loadLE n (storeLE n mem a v) a = v % 256 ^ n :=
  loadLE_of_holds (holds_write mem a _)

/-- Storing the word read at `b` copies its bytes. -/
theorem holds_toLE_loadLE (n : Nat) (mem : Memory) (a : Nat) : Holds mem a (toLE n (loadLE n mem a)) := by
  induction n generalizing a with
  | zero => trivial
  | succ n ih =>
    have hbyte := (mem a).toNat_lt
    have hhead : UInt8.ofNat ((mem a).toNat + 256 * loadLE n mem (a + 1)) = mem a := by
      apply UInt8.toNat_inj.mp
      rw [UInt8.toNat_ofNat']
      omega
    have htail : ((mem a).toNat + 256 * loadLE n mem (a + 1)) / 256 = loadLE n mem (a + 1) := by
      omega
    rw [loadLE, toLE, htail]
    exact ⟨hhead.symm, ih (a + 1)⟩

/-! ## Copies -/

/-- `mem'` is `mem` with the `n` bytes at `s` copied to `d`. -/
def Copied (mem mem' : Memory) (d s n : Nat) : Prop :=
  ∀ a, mem' a = if d ≤ a ∧ a < d + n then mem (s + (a - d)) else mem a

theorem Copied.outside {mem mem' : Memory} {d s n a : Nat} (h : Copied mem mem' d s n)
    (ha : a < d ∨ d + n ≤ a) : mem' a = mem a := by
  rw [h a, if_neg (by omega)]

theorem Copied.unique {mem mem' mem'' : Memory} {d s n : Nat} (h : Copied mem mem' d s n)
    (h' : Copied mem mem'' d s n) : mem' = mem'' := by
  funext a
  rw [h a, h' a]

/-- The copy holds what the source held. -/
theorem Copied.holds {mem mem' : Memory} {d s n : Nat} {bs : List UInt8}
    (h : Copied mem mem' d s n) (hbs : Holds mem s bs) (hlen : bs.length = n) : Holds mem' d bs := by
  apply holds_iff_getElem.mpr
  intro i hi
  rw [h (d + i), if_pos (by omega), Nat.add_sub_cancel_left]
  exact holds_iff_getElem.mp hbs i hi

/-- Storing the word read at `s` copies it. -/
theorem copied_storeLE_loadLE (mem : Memory) (n d s : Nat) :
    Copied mem (storeLE n mem d (loadLE n mem s)) d s n := by
  intro a
  split
  · next ha =>
    have hi : a - d < (toLE n (loadLE n mem s)).length := by
      rw [length_toLE]
      omega
    have hsource := holds_iff_getElem.mp (holds_toLE_loadLE n mem s) (a - d) hi
    have hcopy := holds_iff_getElem.mp (holds_write mem d (toLE n (loadLE n mem s))) (a - d) hi
    rw [Nat.add_sub_cancel' ha.1] at hcopy
    rw [hsource]
    exact hcopy
  · next ha => exact storeLE_outside mem _ (by omega)

/-- A copy whose source the copy before it did not touch continues it. -/
theorem Copied.append {mem mem' mem'' : Memory} {d s n k : Nat} (h : Copied mem mem' d s n)
    (h' : Copied mem' mem'' (d + n) (s + n) k) (hapart : s + n + k ≤ d ∨ d + n ≤ s + n) :
    Copied mem mem'' d s (n + k) := by
  intro a
  rw [h' a]
  split
  · next ha =>
    have hsame : s + n + (a - (d + n)) = s + (a - d) := by omega
    rw [if_pos (by omega), h.outside (by omega), hsame]
  · next ha =>
    rw [h a]
    by_cases hlow : d ≤ a ∧ a < d + n
    · rw [if_pos hlow, if_pos (by omega)]
    · rw [if_neg hlow, if_neg (by omega)]

end Bytes
