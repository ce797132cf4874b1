import TpSo.ModuleImage.Loader

set_option autoImplicit false

/-! # The two ways of `memcpy`

Where both pointers are aligned a word is copied as its four bytes would be: the word that is read is the
one that is written, or has no byte in common with it. So the two loops leave the same memory, and what
`memcpy` does is what its byte loop does. -/

namespace TpSo.ModuleImage

open Bytes

variable {d s n : Nat}

/-- The addresses of the `n` bytes at `p`; they wrap around at the end of the address space. -/
def span (p n : Nat) : Set Nat := {a | ∃ i, i < n ∧ a = (p + i) % 2 ^ 64}

theorem mem_span {p n i : Nat} (hi : i < n) : (p + i) % 2 ^ 64 ∈ span p n := ⟨i, hi, rfl⟩

theorem span_mono {p m n : Nat} (h : m ≤ n) : span p m ⊆ span p n := by
  rintro a ⟨i, hi, rfl⟩
  exact mem_span (hi.trans_le h)

/-! ## The byte loop -/

/-- One round of the byte loop. -/
theorem copyBytes_succ (mem : Memory) (d s i : Nat) : copyElems 1 mem d s (i + 1) =
    Function.update (copyElems 1 mem d s i) ((d + i) % 2 ^ 64)
      (copyElems 1 mem d s i ((s + i) % 2 ^ 64)) := by
  rw [copyElems]
  simp only [storeLE, loadLE, toLE, write, Nat.one_mul, Nat.mul_zero, Nat.add_zero, UInt8.ofNat_toNat]

/-- A loop that goes on where another has ended. -/
theorem copyBytes_add (mem : Memory) (d s m k : Nat) : copyElems 1 mem d s (m + k) =
    copyElems 1 (copyElems 1 mem d s m) ((d + m) % 2 ^ 64) ((s + m) % 2 ^ 64) k := by
  induction k with
  | zero => rfl
  | succ k ih =>
    rw [← Nat.add_assoc, copyBytes_succ, copyBytes_succ, ih, Nat.mod_add_mod, Nat.mod_add_mod,
      Nat.add_assoc, Nat.add_assoc]

/-- Onto itself the loop copies nothing. -/
theorem copyBytes_self (mem : Memory) (d n : Nat) : copyElems 1 mem d d n = mem := by
  induction n with
  | zero => rfl
  | succ n ih => rw [copyBytes_succ, ih, Function.update_eq_self]

theorem copyBytes_outside (mem : Memory) (d s : Nat) {n a : Nat} (ha : a ∉ span d n) :
    copyElems 1 mem d s n a = mem a := by
  induction n with
  | zero => rfl
  | succ n ih =>
    have hne : a ≠ (d + n) % 2 ^ 64 := by
      rintro rfl
      exact ha (mem_span n.lt_succ_self)
    rw [copyBytes_succ, Function.update_of_ne hne]
    exact ih fun hmem => ha (span_mono n.le_succ hmem)

/-- The bytes at the source arrive, in a range that is apart from it. -/
theorem copyBytes_inside (mem : Memory) (hn : n ≤ 2 ^ 64) (hapart : Disjoint (span d n) (span s n))
    {i : Nat} (hi : i < n) :
    copyElems 1 mem d s n ((d + i) % 2 ^ 64) = mem ((s + i) % 2 ^ 64) := by
  induction n with
  | zero => omega
  | succ n ih =>
    have hapart' := hapart.mono (span_mono n.le_succ) (span_mono n.le_succ)
    rw [copyBytes_succ]
    by_cases hlast : i = n
    · -- the loop has not yet written what it reads now
      have hsource : (s + n) % 2 ^ 64 ∉ span d n := fun hmem =>
        Set.disjoint_left.mp hapart (span_mono n.le_succ hmem) (mem_span n.lt_succ_self)
      rw [hlast, Function.update_self]
      exact copyBytes_outside mem d s hsource
    · have hne : (d + i) % 2 ^ 64 ≠ (d + n) % 2 ^ 64 := by omega
      rw [Function.update_of_ne hne]
      exact ih (by omega) hapart' (by omega)

/-! ## Words -/

/-- A word that does not overlap its copy, but for being its own, is copied as its bytes are. -/
theorem copyWord_eq (mem : Memory) {d s w : Nat} (hd : d + w ≤ 2 ^ 64) (hs : s + w ≤ 2 ^ 64)
    (hapart : d = s ∨ s + w ≤ d ∨ d + w ≤ s) :
    storeLE w mem d (loadLE w mem s) = copyElems 1 mem d s w := by
  have hword := copied_storeLE_loadLE mem w d s
  rcases hapart with rfl | hapart
  · rw [copyBytes_self]
    refine hword.unique fun a => ?_
    split
    · rw [Nat.add_sub_cancel' (by omega)]
    · rfl
  · have hbytes : Copied mem (copyElems 1 mem d s w) d s (1 * w) :=
      copied_copyElems 1 (by omega) (by omega) (by omega)
    rw [Nat.one_mul] at hbytes
    exact hword.unique hbytes

/-- **The word loop** leaves the memory that the byte loop leaves. -/
theorem copyElems_words (mem : Memory) (hd : d % 4 = 0) (hs : s % 4 = 0) (k : Nat) :
    copyElems 4 mem d s k = copyElems 1 mem d s (4 * k) := by
  induction k with
  | zero => rfl
  | succ k ih =>
    rw [Nat.mul_succ, copyBytes_add, ← ih]
    exact copyWord_eq _ (by omega) (by omega) (by omega)

/-- The loop that `memcpy` chooses makes no difference. -/
theorem memcpy_eq_copyBytes (mem : Memory) (d s n : Nat) : memcpy mem d s n = copyElems 1 mem d s n := by
  rw [memcpy]
  split
  · next haligned =>
    obtain ⟨hd, hs, hn⟩ := haligned
    rw [copyElems_words mem hd hs, Nat.mul_div_cancel' (Nat.dvd_of_mod_eq_zero hn)]
  · rfl

/-- **`memcpy`** copies the source to a destination apart from it and changes nothing else; where it
    copies by words, bytes would give the same memory. -/
theorem memcpy_word_path (mem : Memory) (destination source length : Nat) (hlength : length < 2 ^ 64)
    (hapart : Disjoint (span destination length) (span source length)) :
    (∀ i, i < length → memcpy mem destination source length ((destination + i) % 2 ^ 64) =
      mem ((source + i) % 2 ^ 64)) ∧
    (∀ a, a ∉ span destination length → memcpy mem destination source length a = mem a) ∧
    (destination % 4 = 0 → source % 4 = 0 → length % 4 = 0 →
      copyElems 4 mem destination source (length / 4) = copyElems 1 mem destination source length) := by
  rw [memcpy_eq_copyBytes]
  refine ⟨fun i hi => copyBytes_inside mem hlength.le hapart hi,
    fun a ha => copyBytes_outside mem destination source ha, fun hd hs hn => ?_⟩
  rw [copyElems_words mem hd hs, Nat.mul_div_cancel' (Nat.dvd_of_mod_eq_zero hn)]

/-- Two words, to a destination at the very end of the address space. -/
theorem memcpy_word_path_end :
    memcpy (fun a => UInt8.ofNat a) (2 ^ 64 - 8) 16 8 (2 ^ 64 - 1) = 23 := by
  have hapart : Disjoint (span (2 ^ 64 - 8) 8) (span 16 8) := by
    rw [Set.disjoint_left]
    rintro a ⟨i, hi, rfl⟩ ⟨j, hj, he⟩
    omega
  exact (memcpy_word_path (fun a => UInt8.ofNat a) (2 ^ 64 - 8) 16 8 (by decide) hapart).1 7 (by decide)

end TpSo.ModuleImage
