import Mathlib.Order.CompletePartialOrder
import Mathlib.Order.Interval.Set.Disjoint
import TpSo.ModuleImage.Packer

set_option autoImplicit false

/-! # Loading the modules of the kernel image (`moduleLoader.c`, `memcpy`)

The loader walks the payload that follows the kernel binary. Pointers are numbers below `2 ^ 64` and wrap
around there; an array of pointers is a function of its index. -/

namespace TpSo.ModuleImage

open Bytes

/-- `for (i = 0; i < rounds; i++) d[i] = s[i];` for elements of `w` bytes. -/
def copyElems (w : Nat) (mem : Memory) (d s : Nat) : (rounds : Nat) → Memory
  | 0 => mem
  | i + 1 =>
    let mem := copyElems w mem d s i
    storeLE w mem ((d + w * i) % 2 ^ 64) (loadLE w mem ((s + w * i) % 2 ^ 64))

/-- `memcpy`: by words where both pointers and the length are aligned, else by bytes. -/
def memcpy (mem : Memory) (destination source length : Nat) : Memory :=
  if destination % 4 = 0 ∧ source % 4 = 0 ∧ length % 4 = 0 then
    copyElems 4 mem destination source (length / 4)
  else copyElems 1 mem destination source length

/-- `readUint32`: the number read and the pointer behind it. -/
def readUint32 (mem : Memory) (address : Nat) : Nat × Nat :=
  (loadLE 4 mem address, (address + 4) % 2 ^ 64)

/-- `loadModule`: the memory, and the pointer to the next module. -/
def loadModule (mem : Memory) (module targetModuleAddress : Nat) : Memory × Nat :=
  let (moduleSize, module) := readUint32 mem module
  (memcpy mem targetModuleAddress module moduleSize, (module + moduleSize) % 2 ^ 64)

/-- The rounds of the loop of `loadModules` that are left, from the `i`-th on. -/
def loadModulesFrom : (rounds : Nat) → Memory → (currentModule : Nat) → (Nat → Nat) → (i : Nat) →
    Memory
  | 0, mem, _, _, _ => mem
  | rounds + 1, mem, currentModule, targetModuleAddress, i =>
    let (mem, currentModule) := loadModule mem currentModule (targetModuleAddress i)
    loadModulesFrom rounds mem currentModule targetModuleAddress (i + 1)

/-- `loadModules`. -/
def loadModules (mem : Memory) (payloadStart : Nat) (targetModuleAddress : Nat → Nat) : Memory :=
  let (moduleCount, currentModule) := readUint32 mem payloadStart
  loadModulesFrom moduleCount mem currentModule targetModuleAddress 0

/-! ## Copying -/

variable {mem : Memory} {d s n : Nat}

/-- The loop copies, the regions being apart and within the address space. -/
theorem copied_copyElems (w : Nat) {rounds : Nat} (hd : d + w * rounds ≤ 2 ^ 64)
    (hs : s + w * rounds ≤ 2 ^ 64) (hapart : s + w * rounds ≤ d ∨ d + w * rounds ≤ s) :
    Copied mem (copyElems w mem d s rounds) d s (w * rounds) := by
  induction rounds with
  | zero =>
    intro a
    rw [if_neg (by omega)]
    rfl
  | succ i ih =>
    rw [Nat.mul_succ] at hd hs hapart ⊢
    have hstart := ih (by omega) (by omega) (by omega)
    rcases Nat.eq_zero_or_pos w with rfl | hw
    · simpa [copyElems, storeLE, toLE] using hstart
    · have hwrapd : (d + w * i) % 2 ^ 64 = d + w * i := Nat.mod_eq_of_lt (by omega)
      have hwraps : (s + w * i) % 2 ^ 64 = s + w * i := Nat.mod_eq_of_lt (by omega)
      rw [copyElems, hwrapd, hwraps]
      exact hstart.append (copied_storeLE_loadLE _ w _ _) (by omega)

/-- Both ways of `memcpy` copy the whole length. -/
theorem copied_memcpy (hd : d + n ≤ 2 ^ 64) (hs : s + n ≤ 2 ^ 64) (hapart : s + n ≤ d ∨ d + n ≤ s) :
    Copied mem (memcpy mem d s n) d s n := by
  rw [memcpy]
  split
  · next haligned =>
    have hwords : 4 * (n / 4) = n := by omega
    have hcopied : Copied mem (copyElems 4 mem d s (n / 4)) d s (4 * (n / 4)) :=
      copied_copyElems 4 (by omega) (by omega) (by omega)
    rwa [hwords] at hcopied
  · have hcopied : Copied mem (copyElems 1 mem d s n) d s (1 * n) :=
      copied_copyElems 1 (by omega) (by omega) (by omega)
    rwa [Nat.one_mul] at hcopied

/-! ## Loading -/

/-- The addresses that a module takes up at its target. -/
def region (target : Nat) (contents : List UInt8) : Set Nat :=
  Set.Ico target (target + contents.length)

@[simp] theorem length_packed (contents : List UInt8) : (packed contents).length = 4 + contents.length := by
  simp [packed]

/-- One module: its size is read back, its contents are copied, and the pointer moves behind it. -/
theorem loadModule_spec {c t : Nat} {contents rest : List UInt8}
    (hholds : Bytes.Holds mem c (packed contents ++ rest))
    (hend : c + (packed contents ++ rest).length ≤ 2 ^ 64) (hshort : contents.length < 2 ^ 32)
    (hfits : t + contents.length ≤ 2 ^ 64)
    (hapart : Disjoint (region t contents) (Set.Ico c (c + (packed contents ++ rest).length))) :
    (loadModule mem (c % 2 ^ 64) t).2 = (c + (packed contents).length) % 2 ^ 64 ∧
    Bytes.Holds (loadModule mem (c % 2 ^ 64) t).1 t contents ∧
    ∀ a, a ∉ region t contents → (loadModule mem (c % 2 ^ 64) t).1 a = mem a := by
  rw [List.length_append, length_packed] at hend hapart
  rw [region, Set.Ico_disjoint_Ico] at hapart
  obtain ⟨hsize, hcontents⟩ := holds_append.mp (holds_append.mp hholds).1
  rw [length_toLE] at hcontents
  have hpointer : c % 2 ^ 64 = c := Nat.mod_eq_of_lt (by omega)
  have hlength : loadLE 4 mem c = contents.length := by
    rw [loadLE_of_holds hsize]
    norm_num
    omega
  -- the pointer wraps around only behind an empty module at the very end of the memory
  have hcopied : Copied mem (memcpy mem t ((c + 4) % 2 ^ 64) contents.length) t ((c + 4) % 2 ^ 64)
      contents.length := copied_memcpy hfits (by omega) (by omega)
  simp only [loadModule, readUint32, hpointer, hlength]
  refine ⟨?_, ?_, ?_⟩
  · rw [length_packed, Nat.mod_add_mod, Nat.add_assoc]
  · rcases Nat.eq_zero_or_pos contents.length with hempty | hpos
    · rw [List.eq_nil_of_length_eq_zero hempty]
      trivial
    · have hsource : (c + 4) % 2 ^ 64 = c + 4 := Nat.mod_eq_of_lt (by omega)
      rw [hsource] at hcopied ⊢
      exact hcopied.holds hcontents rfl
  · intro a ha
    simp only [region, Set.mem_Ico, not_and, not_lt] at ha
    exact hcopied.outside (by omega)

/-- The targets from the `i`-th on lie in the address space, apart from each other and from the
    payload. -/
structure Separate (targets : Nat → Nat) (i : Nat) (modules : List (List UInt8))
    (payload : Set Nat) : Prop where
  fits : ∀ j (hj : j < modules.length), targets (i + j) + modules[j].length ≤ 2 ^ 64
  targets_apart : ∀ j k (_ : j < k) (hk : k < modules.length),
    Disjoint (region (targets (i + j)) modules[j]) (region (targets (i + k)) modules[k])
  payload_apart : ∀ j (hj : j < modules.length),
    Disjoint (region (targets (i + j)) modules[j]) payload

namespace Separate

variable {targets : Nat → Nat} {i : Nat} {contents : List UInt8} {modules : List (List UInt8)}
  {p p' : Set Nat}

theorem head (h : Separate targets i (contents :: modules) p) :
    targets i + contents.length ≤ 2 ^ 64 ∧ Disjoint (region (targets i) contents) p :=
  ⟨h.fits 0 (Nat.succ_pos _), h.payload_apart 0 (Nat.succ_pos _)⟩

theorem head_tail (h : Separate targets i (contents :: modules) p) {j : Nat}
    (hj : j < modules.length) :
    Disjoint (region (targets i) contents) (region (targets (i + 1 + j)) modules[j]) := by
  have hindex : i + 1 + j = i + (j + 1) := by omega
  rw [hindex]
  exact h.targets_apart 0 (j + 1) (Nat.succ_pos j) (Nat.succ_lt_succ hj)

theorem tail (h : Separate targets i (contents :: modules) p) (hp : p' ⊆ p) :
    Separate targets (i + 1) modules p' := by
  have hindex : ∀ j, i + 1 + j = i + (j + 1) := fun j => by omega
  refine ⟨?_, ?_, ?_⟩
  · intro j hj
    rw [hindex]
    exact h.fits (j + 1) (Nat.succ_lt_succ hj)
  · intro j k hjk hk
    rw [hindex, hindex]
    exact h.targets_apart (j + 1) (k + 1) (Nat.succ_lt_succ hjk) (Nat.succ_lt_succ hk)
  · intro j hj
    rw [hindex]
    exact (h.payload_apart (j + 1) (Nat.succ_lt_succ hj)).mono_right hp

end Separate

variable {targets : Nat → Nat}

/-- The modules that are left all arrive, and nothing else changes. -/
theorem loadModulesFrom_spec {modules : List (List UInt8)} {c i : Nat}
    (hholds : Bytes.Holds mem c (modules.flatMap packed))
    (hend : c + (modules.flatMap packed).length ≤ 2 ^ 64)
    (hshort : ∀ contents ∈ modules, contents.length < 2 ^ 32)
    (hsep : Separate targets i modules (Set.Ico c (c + (modules.flatMap packed).length))) :
    (∀ j (hj : j < modules.length),
      Bytes.Holds (loadModulesFrom modules.length mem (c % 2 ^ 64) targets i) (targets (i + j)) modules[j]) ∧
    ∀ a, (∀ j (hj : j < modules.length), a ∉ region (targets (i + j)) modules[j]) →
      loadModulesFrom modules.length mem (c % 2 ^ 64) targets i a = mem a := by
  induction modules generalizing mem c i with
  | nil => exact ⟨fun j hj => absurd hj (Nat.not_lt_zero j), fun a _ => rfl⟩
  | cons contents modules ih =>
    rw [List.flatMap_cons] at hholds hend hsep
    obtain ⟨hpointer, harrives, houtside⟩ := loadModule_spec hholds hend
      (hshort contents List.mem_cons_self) hsep.head.1 hsep.head.2
    have hround : loadModulesFrom (contents :: modules).length mem (c % 2 ^ 64) targets i =
        loadModulesFrom modules.length (loadModule mem (c % 2 ^ 64) (targets i)).1
          ((c + (packed contents).length) % 2 ^ 64) targets (i + 1) := by
      rw [← hpointer]
      rfl
    rw [List.length_append, ← Nat.add_assoc] at hend
    have hrest := (holds_append.mp hholds).2
    -- the modules behind this one are still in place
    have hkept : Bytes.Holds (loadModule mem (c % 2 ^ 64) (targets i)).1 (c + (packed contents).length)
        (modules.flatMap packed) := by
      apply hrest.congr
      intro a h1 h2
      apply houtside
      intro ha
      refine Set.disjoint_left.mp hsep.head.2 ha ⟨by omega, ?_⟩
      rw [List.length_append]
      omega
    have hsub : Set.Ico (c + (packed contents).length)
        (c + (packed contents).length + (modules.flatMap packed).length) ⊆
        Set.Ico c (c + (packed contents ++ modules.flatMap packed).length) := by
      apply Set.Ico_subset_Ico
      · omega
      · rw [List.length_append]
        omega
    obtain ⟨hothers, hsame⟩ := ih hkept hend (fun m hm => hshort m (List.mem_cons_of_mem _ hm))
      (hsep.tail hsub)
    rw [hround]
    constructor
    · intro j hj
      cases j with
      | zero =>
        -- no later module overwrites this one
        apply harrives.congr
        intro a h1 h2
        apply hsame
        intro k hk
        exact Set.disjoint_left.mp (hsep.head_tail hk) ⟨h1, h2⟩
      | succ j =>
        have hindex : i + (j + 1) = i + 1 + j := by omega
        rw [hindex]
        exact hothers j (Nat.lt_of_succ_lt_succ hj)
    · intro a ha
      rw [hsame, houtside a (ha 0 (Nat.succ_pos _))]
      intro j hj
      have hindex : i + 1 + j = i + (j + 1) := by omega
      rw [hindex]
      exact ha (j + 1) (Nat.succ_lt_succ hj)

/-- **Round trip.** From an image that `buildImage` wrote, `loadModules` brings every module to its
    target, and changes nothing else. -/
theorem modules_round_trip {fileArray : FileArray} {created : Bool} {image : List UInt8} {base : Nat}
    (hbuilt : buildImage fileArray created = some image) (hloaded : Bytes.Holds mem base image)
    (hend : base + image.length ≤ 2 ^ 64)
    (hshort : ∀ contents ∈ fileArray.modules, contents.length < 2 ^ 32)
    (hsep : Separate targets 0 fileArray.modules
      (Set.Ico (base + fileArray.kernel.length) (base + image.length))) :
    let mem' := loadModules mem (base + fileArray.kernel.length) targets
    (∀ i (hi : i < fileArray.modules.length), Bytes.Holds mem' (targets i) fileArray.modules[i]) ∧
    ∀ a, (∀ i (hi : i < fileArray.modules.length), a ∉ region (targets i) fileArray.modules[i]) →
      mem' a = mem a := by
  have himage := buildImage_eq hbuilt
  subst himage
  obtain ⟨-, hpayload⟩ := holds_append.mp hloaded
  obtain ⟨hcount, hmodules⟩ := holds_append.mp hpayload
  have hlength := fileArray.length_lt
  have hn : loadLE 4 mem (base + fileArray.kernel.length) = fileArray.modules.length := by
    rw [loadLE_of_holds hcount]
    norm_num
    omega
  rw [length_toLE] at hmodules
  simp only [payload, List.length_append, length_toLE] at hend hsep
  have hsub : Set.Ico (base + fileArray.kernel.length + 4)
      (base + fileArray.kernel.length + 4 + (fileArray.modules.flatMap packed).length) ⊆
      Set.Ico (base + fileArray.kernel.length)
        (base + (fileArray.kernel.length + (4 + (fileArray.modules.flatMap packed).length))) := by
    apply Set.Ico_subset_Ico <;> omega
  have hspec := loadModulesFrom_spec (i := 0) hmodules (by omega) hshort
    ⟨hsep.fits, hsep.targets_apart, fun j hj => (hsep.payload_apart j hj).mono_right hsub⟩
  simpa only [loadModules, readUint32, hn, Nat.zero_add] using hspec

/-- A kernel of three bytes, an empty module, and one that is copied by words. -/
theorem modules_round_trip_two :
    ∃ image, buildImage ⟨[7, 7, 7], [[], [1, 2, 3, 4]], by decide⟩ true = some image ∧
      Bytes.Holds (loadModules (write (fun _ => 0) 0x101 image) 0x104 fun i => 0x200 + 4 * i) 0x204
        [1, 2, 3, 4] := by
  obtain ⟨image, hbuilt⟩ : ∃ image, buildImage ⟨[7, 7, 7], [[], [1, 2, 3, 4]], by decide⟩ true =
    some image := ⟨_, rfl⟩
  have hlength : image.length = 19 := by
    rw [buildImage_eq hbuilt]
    rfl
  have hsep : Separate (fun i => 0x200 + 4 * i) 0 [[], [1, 2, 3, 4]]
      (Set.Ico (0x101 + 3) (0x101 + image.length)) := by
    rw [hlength]
    refine ⟨by decide, ?_, ?_⟩
    · intro j k hjk hk
      have hpair : j = 0 ∧ k = 1 := by
        simp only [List.length_cons, List.length_nil] at hk
        omega
      obtain ⟨rfl, rfl⟩ := hpair
      simp [region]
    · intro j hj
      have hcases : j = 0 ∨ j = 1 := by
        simp only [List.length_cons, List.length_nil] at hj
        omega
      rcases hcases with rfl | rfl
      · simp [region]
      · simp [region]
  refine ⟨image, hbuilt, ?_⟩
  exact (modules_round_trip hbuilt (holds_write _ 0x101 image) (by rw [hlength]; decide)
    (by decide) hsep).1 1 (by decide)

end TpSo.ModuleImage
