import TpSo.Text.Format

set_option autoImplicit false

/-! # The static digit buffers

Kernel and userland each convert numbers in a static buffer of 64 bytes. 64 digits fill it, and then the NUL behind
them is stored at index 64. It takes 64 digits to write a value of 64 bits in base 2 whose top bit is set, such
as a negative `int` after its sign extension. -/

namespace TpSo

namespace Terminal

/-- `printBase` of `fonts.c`: the static buffer it leaves, and the string it gives to `print`. -/
def printBase (value : BitVec 64) (base : BitVec 32) (buffer : Buffer) : Option (Buffer × List UInt8) :=
  match Lib.uintToBase value (some buffer) base with
  | some (some buffer, length) => some (buffer.store length 0, (buffer.store length 0).string 65)
  | _ => none

def printDec (value : BitVec 64) (buffer : Buffer) : Option (Buffer × List UInt8) := printBase value 10 buffer
def printHex (value : BitVec 64) (buffer : Buffer) : Option (Buffer × List UInt8) := printBase value 16 buffer
def printBin (value : BitVec 64) (buffer : Buffer) : Option (Buffer × List UInt8) := printBase value 2 buffer

/-- The kernel's functions that print a number. -/
inductive NumberPrinter
  | printDec | printHex | printBin
  deriving DecidableEq

def NumberPrinter.run : NumberPrinter → BitVec 64 → Buffer → Option (Buffer × List UInt8)
  | .printDec => Terminal.printDec
  | .printHex => Terminal.printHex
  | .printBin => Terminal.printBin

def NumberPrinter.base : NumberPrinter → BitVec 32
  | .printDec => 10
  | .printHex => 16
  | .printBin => 2

theorem NumberPrinter.run_eq (p : NumberPrinter) (value : BitVec 64) (b : Buffer) :
    p.run value b = Terminal.printBase value p.base b := by
  cases p with
  | printDec => rfl
  | printHex => rfl
  | printBin => rfl

/-- The kernel prints the numeral of its value. -/
theorem printBase_eq (value : BitVec 64) {base : BitVec 32} (b : Buffer) (hb : 2 ≤ base.toNat)
    (hb16 : base.toNat ≤ 16) : ∃ b',
      printBase value base b = some (b', digitsText base.toNat value.toNat) ∧
      ∀ x, x ∈ b'.stores ↔ x ≤ (digitsText base.toNat value.toNat).length ∨ x ∈ b.stores := by
  obtain ⟨b1, hrun, hwritten⟩ := Lib.uintToBase_eq value b hb hb16
  have hlen : (digitsText base.toNat value.toNat).length ≤ 64 := by
    rw [length_digitsText]
    exact lowText_length_le (by omega) _
  have hholds : Bytes.Holds (b1.store (digitsText base.toNat value.toNat).length 0).bytes 0
      (digitsText base.toNat value.toNat ++ [0]) := by
    refine Bytes.holds_append.mpr ⟨hwritten.holds.congr fun x _ hx => ?_, ?_, trivial⟩
    · exact Function.update_of_ne (show x ≠ _ by omega) _ _
    · rw [Nat.zero_add]
      exact Function.update_self _ _ _
  have hstring := Stdio.string_of_holds hholds
    (fun c hc => (Stdio.digitsText_ordinary (by omega) hb16 hc).2) (show _ < 65 by omega)
  refine ⟨b1.store (digitsText base.toNat value.toNat).length 0, ?_, ?_⟩
  · simp only [printBase, hrun, hstring]
  · intro x
    rw [Buffer.store_stores, List.mem_cons, hwritten.stores x, ← or_assoc]
    apply or_congr_left
    omega

end Terminal

/-- The conversions that print a number in userland. -/
inductive IntConversion
  | x | d | o | b
  deriving DecidableEq

def IntConversion.base : IntConversion → BitVec 32
  | .x => 16
  | .d => 10
  | .o => 8
  | .b => 2

/-- Every store of the call is inside the 64 bytes. -/
def Terminal.InBounds (p : Terminal.NumberPrinter) (value : BitVec 64) (bytes : Bytes.Memory) : Prop :=
  ∃ b' s, p.run value { bytes := bytes } = some (b', s) ∧ ∀ x ∈ b'.stores, x < 64

/-- The same of userland's `printBase`. -/
def Stdio.InBounds (fd : Int) (num base : BitVec 32) (bytes : Bytes.Memory) (events : List Stdio.Event) : Prop :=
  ∃ fuel out',
    Stdio.printBase (fun s out => Stdio.vfprintf fd fuel s [] out) num base
      { buffer := { bytes := bytes }, events := events } = .ok out' ∧
    ∀ x ∈ out'.buffer.stores, x < 64

theorem length_digitsText_le_iff {base v : Nat} (hb : 1 < base) :
    (digitsText base v).length ≤ 63 ↔ v < base ^ 63 := by
  rw [length_digitsText, lowText, List.length_map]
  exact Numeral.length_lowFirst_le_iff hb (by decide)

/-- From base 8 on, 63 digits are enough. -/
theorem lt_pow_63 {base : Nat} (hb : 8 ≤ base) (value : BitVec 64) : value.toNat < base ^ 63 :=
  calc
    value.toNat < 2 ^ 64 := value.isLt
    _ ≤ 8 ^ 63 := by decide
    _ ≤ base ^ 63 := Nat.pow_le_pow_left hb 63

/-- A sign extension has its top bit clear exactly if the number is not negative. -/
theorem signExtend_lt_iff (num : BitVec 32) : (num.signExtend 64).toNat < 2 ^ 63 ↔ 0 ≤ num.toInt := by
  have hext : (num.signExtend 64).toInt = num.toInt := BitVec.toInt_signExtend_of_le (by decide)
  have hnat := BitVec.toInt_eq_toNat_cond (num.signExtend 64)
  have hlt := (num.signExtend 64).isLt
  rw [← hext]
  omega

theorem NumberPrinter.base_bounds (p : Terminal.NumberPrinter) : 2 ≤ p.base.toNat ∧ p.base.toNat ≤ 16 := by
  cases p <;> decide

theorem IntConversion.base_bounds (c : IntConversion) : 2 ≤ c.base.toNat ∧ c.base.toNat ≤ 16 := by
  cases c <;> decide

/-- The kernel stays inside with 63 digits. -/
theorem Terminal.inBounds_iff (p : Terminal.NumberPrinter) (value : BitVec 64) (bytes : Bytes.Memory) :
    Terminal.InBounds p value bytes ↔ value.toNat < p.base.toNat ^ 63 := by
  obtain ⟨hb, hb16⟩ := NumberPrinter.base_bounds p
  obtain ⟨b', hrun, hstores⟩ := Terminal.printBase_eq value { bytes := bytes } hb hb16
  rw [← p.run_eq] at hrun
  rw [← length_digitsText_le_iff (by omega)]
  constructor
  · rintro ⟨b1, s, hrun1, hin⟩
    rw [hrun] at hrun1
    cases hrun1
    have hlast := hin _ ((hstores _).mpr (.inl (Nat.le_refl _)))
    omega
  · intro hlen
    refine ⟨b', _, hrun, fun x hx => ?_⟩
    rcases (hstores x).mp hx with hle | hold
    · omega
    · cases hold

/-- And so does userland. -/
theorem Stdio.inBounds_iff (fd : Int) (num : BitVec 32) (c : IntConversion) (bytes : Bytes.Memory)
    (events : List Stdio.Event) :
    Stdio.InBounds fd num c.base bytes events ↔ (num.signExtend 64).toNat < c.base.toNat ^ 63 := by
  obtain ⟨hb, hb16⟩ := c.base_bounds
  rw [← length_digitsText_le_iff (by omega)]
  constructor
  · rintro ⟨fuel, out', hprint, hin⟩
    have hwritten := (Stdio.printBase_of_ok hb hb16 hprint).2
    have hlast := hin (digitsText c.base.toNat (num.signExtend 64).toNat).length
      ((hwritten.stores _).mpr (.inl (by simp)))
    omega
  · intro hlen
    obtain ⟨out', hprint, -, hwritten⟩ := @Stdio.printBase_eq fd 65
      { buffer := { bytes := bytes }, events := events } num c.base hb hb16 (by decide)
    refine ⟨65, out', hprint, fun x hx => ?_⟩
    rcases (hwritten.stores x).mp hx with hin | hold
    · rw [List.length_append, List.length_singleton] at hin
      omega
    · cases hold

/-- **The buffers.** Only `printBin` of a value with its top bit set and `%b` of a negative number write behind
    them. -/
theorem digit_buffers_in_bounds_iff (p : Terminal.NumberPrinter) (value : BitVec 64) (fd : Int) (num : BitVec 32)
    (conversion : IntConversion) (bytes : Bytes.Memory) (events : List Stdio.Event) :
    (Terminal.InBounds p value bytes ↔ (p = .printBin → value.toNat < 2 ^ 63)) ∧
    (Stdio.InBounds fd num conversion.base bytes events ↔ (conversion = .b → 0 ≤ num.toInt)) := by
  constructor
  · rw [Terminal.inBounds_iff]
    cases p with
    | printBin => exact ⟨fun h _ => h, fun h => h rfl⟩
    | printDec => exact iff_of_true (lt_pow_63 (by decide) value) (by simp)
    | printHex => exact iff_of_true (lt_pow_63 (by decide) value) (by simp)
  · rw [Stdio.inBounds_iff]
    cases conversion with
    | b => exact (signExtend_lt_iff num).trans ⟨fun h _ => h, fun h => h rfl⟩
    | x => exact iff_of_true (lt_pow_63 (by decide) _) (by simp)
    | d => exact iff_of_true (lt_pow_63 (by decide) _) (by simp)
    | o => exact iff_of_true (lt_pow_63 (by decide) _) (by simp)

/-- `printBin` of the largest value stores its NUL behind the buffer. -/
theorem printBin_out_of_bounds :
    ¬ ∀ (value : BitVec 64) (bytes : Bytes.Memory), Terminal.InBounds .printBin value bytes := by
  intro hall
  have hlt := (Terminal.inBounds_iff _ _ _).mp (hall (-1) fun _ => 0)
  exact absurd hlt (by decide)

end TpSo
