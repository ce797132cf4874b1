import TpSo.Text.Formats
import TpSo.Text.Scan

set_option autoImplicit false

/-! # Printing and reading decimal numbers

`printBase` converts a negative number to 64 bits without changing its sign first, and so prints its complement
behind the sign. Both parsers read any numeral back. -/

namespace TpSo.Stdio

/-- The canonical decimal text of an integer. -/
def decimal (n : Int) : List UInt8 := (if n < 0 then ['-'.toUInt8] else []) ++ digitsText 10 n.natAbs

section

variable {fd : Int} {num : BitVec 32} {out : Out} {ds : List Nat} {rest : List UInt8}

/-! ## Printing -/

theorem digitsText_injective {b : Nat} (hb : 1 < b) (hb16 : b ≤ 16) {m n : Nat}
    (h : digitsText b m = digitsText b n) : m = n := by
  rw [← (isNumeral_digitsText hb hb16 m).value, ← (isNumeral_digitsText hb hb16 n).value, h]

/-- A number is printed canonically exactly if it is not negative. -/
theorem printedText_eq_decimal_iff : printedText num 10 = decimal num.toInt ↔ 0 ≤ num.toInt := by
  have hnat := BitVec.toInt_eq_toNat_cond num
  have hlt := num.isLt
  have hext : (num.signExtend 64).toInt = num.toInt := BitVec.toInt_signExtend_of_le (by decide)
  have hextNat := BitVec.toInt_eq_toNat_cond (num.signExtend 64)
  have hextlt := (num.signExtend 64).isLt
  rw [printedText, decimal, List.append_cancel_left_eq]
  constructor
  · intro h
    have heq := digitsText_injective (by decide) (by decide) h
    by_contra hneg
    omega
  · intro h
    congr 1
    omega

/-! ## Reading -/

theorem isDigit_digitChar {d : Nat} (h : d < 10) :
    IsDigit (digitChar d) ∧ charToInt (digitChar d) - charToInt '0'.toUInt8 = BitVec.ofNat 32 d := by
  unfold IsDigit
  revert d
  decide

/-- One more digit, in `int` arithmetic. -/
theorem ofNat_step (acc d : Nat) :
    BitVec.ofNat 32 acc * 10 + BitVec.ofNat 32 d = BitVec.ofNat 32 (acc * 10 + d) := by
  rw [BitVec.ofNat_add, BitVec.ofNat_mul]
  rfl

/-- **`atoi`'s loop** reads digits up to the first other character. -/
theorem atoiLoop_digits (hds : ∀ d ∈ ds, d < 10) (hrest : ∀ c ∈ rest.head?, ¬ IsDigit c) (acc : Nat) :
    atoiLoop (ds.map digitChar ++ rest) (BitVec.ofNat 32 acc) =
      BitVec.ofNat 32 (ds.foldl (fun acc d => acc * 10 + d) acc) := by
  induction ds generalizing acc with
  | nil =>
    cases rest with
    | nil => rfl
    | cons c rest => exact if_neg (hrest c rfl)
  | cons d ds ih =>
    obtain ⟨hdigit, hvalue⟩ := isDigit_digitChar (hds d List.mem_cons_self)
    rw [List.map_cons, List.cons_append, atoiLoop, if_pos hdigit, hvalue, ofNat_step]
    exact ih (fun e he => hds e (List.mem_cons_of_mem _ he)) _

/-- **`vsscanf`'s loop** reads the same. -/
theorem scanDigits_digits (hds : ∀ d ∈ ds, d < 10) (hrest : ∀ c ∈ rest.head?, ¬ IsDigit c) (acc bufI : Nat)
    (readNum : Bool) :
    scanDigits (ds.map digitChar ++ rest) (BitVec.ofNat 32 acc) bufI readNum =
      (BitVec.ofNat 32 (ds.foldl (fun acc d => acc * 10 + d) acc), bufI + ds.length,
        readNum || !ds.isEmpty) := by
  induction ds generalizing acc bufI readNum with
  | nil =>
    cases rest with
    | nil => simp [scanDigits]
    | cons c rest => simp [scanDigits, hrest c rfl]
  | cons d ds ih =>
    obtain ⟨hdigit, hvalue⟩ := isDigit_digitChar (hds d List.mem_cons_self)
    rw [List.map_cons, List.cons_append, scanDigits, if_pos hdigit, BitVec.sub_eq_add_neg, BitVec.add_assoc,
      ← BitVec.sub_eq_add_neg, hvalue, ofNat_step, ih (fun e he => hds e (List.mem_cons_of_mem _ he))]
    simp [Nat.add_assoc, Nat.add_comm 1]

/-- No digit is a blank or a sign. -/
theorem digitChar_ne {d : Nat} (h : d < 10) : digitChar d ≠ ' '.toUInt8 ∧ digitChar d ≠ '\t'.toUInt8 ∧
    digitChar d ≠ '-'.toUInt8 ∧ digitChar d ≠ '+'.toUInt8 := by
  revert d
  decide

theorem atoi_digits (hds : ∀ d ∈ ds, d < 10) : atoi (ds.map digitChar) = BitVec.ofNat 32 (Numeral.value 10 ds) := by
  cases ds with
  | nil => rfl
  | cons d ds =>
    obtain ⟨hspace, htab, hminus, hplus⟩ := digitChar_ne (hds d List.mem_cons_self)
    have hloop := @atoiLoop_digits (d :: ds) [] hds (fun c hc => by cases hc) 0
    rw [List.append_nil] at hloop
    rw [atoi, List.map_cons, List.dropWhile_cons_of_neg (by simp [hspace, htab])]
    dsimp only
    rw [if_neg hminus, if_neg hplus]
    exact (BitVec.one_mul _).trans hloop

theorem sscanf_digits (hds : ∀ d ∈ ds, d < 10) (hne : ds ≠ []) :
    sscanf (ds.map digitChar) ['%'.toUInt8, 'd'.toUInt8] =
      .ok { bufI := ds.length, argsRead := 1, args := 1
            stores := [.int 0 (BitVec.ofNat 32 (Numeral.value 10 ds))] } := by
  cases ds with
  | nil => exact absurd rfl hne
  | cons d ds =>
    obtain ⟨-, -, hminus, -⟩ := digitChar_ne (hds d List.mem_cons_self)
    have hdigit := (isDigit_digitChar (hds d List.mem_cons_self)).1
    have hloop : scanDigits ((d :: ds).map digitChar) 0 0 false =
        (BitVec.ofNat 32 (Numeral.value 10 (d :: ds)), (d :: ds).length, true) := by
      have hall := @scanDigits_digits (d :: ds) [] hds (fun c hc => by cases hc) 0 0 false
      rw [List.append_nil, Nat.zero_add] at hall
      exact hall
    have hfirst : charAt ((d :: ds).map digitChar) 0 = .ok (digitChar d) := rfl
    have hscan : scanInt ((d :: ds).map digitChar) {} =
        .ok { bufI := (d :: ds).length, argsRead := 1, args := 1
              stores := [.int 0 (BitVec.ofNat 32 (Numeral.value 10 (d :: ds)))] } := by
      rw [scanInt, hfirst]
      simp only [not_true_eq_false, and_false, if_false, hdigit, hminus, List.drop_zero, hloop]
      rw [show ∀ x : BitVec 32, x * 1 = x from BitVec.mul_one]
      rfl
    exact vsscanf_conversion hscan

/-! ## The round trip -/

/-- `printBase` prints the canonical text of a number, from which `atoi` returns the number and `sscanf` stores
    it. -/
def RoundTrips (fd : Int) (num : BitVec 32) (out : Out) : Prop :=
  ∃ fuel out' text,
    printBase (fun s out => vfprintf fd fuel s [] out) num 10 out = .ok out' ∧ out'.text = out.text ++ text ∧
    text = decimal num.toInt ∧ atoi text = num ∧
    ∃ s, sscanf text ['%'.toUInt8, 'd'.toUInt8] = .ok s ∧ s.argsRead = 1 ∧ s.stores = [.int 0 num]

theorem RoundTrips.nonneg (h : RoundTrips fd num out) : 0 ≤ num.toInt := by
  obtain ⟨fuel, out', text, hprint, htext, hdecimal, -⟩ := h
  apply printedText_eq_decimal_iff.mp
  rw [(printBase_of_ok (by decide) (by decide) hprint).1, List.append_cancel_left_eq] at htext
  rw [htext, hdecimal]

end

/-- **Decimal round trip.** It succeeds exactly for the numbers that are not negative. -/
theorem decimal_round_trip_iff (fd : Int) (num : BitVec 32) (out : Out) :
    RoundTrips fd num out ↔ 0 ≤ num.toInt := by
  refine ⟨RoundTrips.nonneg, fun h => ?_⟩
  obtain ⟨out', hprint, htext, -⟩ := @printBase_eq fd 65 out num 10 (by decide) (by decide) (by decide)
  have hdecimal := printedText_eq_decimal_iff.mpr h
  have hds : ∀ d ∈ Numeral.digits 10 num.toInt.natAbs, d < 10 :=
    fun d hd => Numeral.lt_of_mem_digits (by decide) hd
  have hback : BitVec.ofNat 32 (Numeral.value 10 (Numeral.digits 10 num.toInt.natAbs)) = num := by
    have hnat := BitVec.toInt_eq_toNat_cond num
    have hlt := num.isLt
    rw [Numeral.value_digits, show num.toInt.natAbs = num.toNat by omega, BitVec.ofNat_toNat,
      BitVec.setWidth_eq]
  have hpositive : decimal num.toInt = (Numeral.digits 10 num.toInt.natAbs).map digitChar := by
    rw [decimal, if_neg (by omega)]
    rfl
  refine ⟨65, out', _, hprint, htext, hdecimal, ?_, ?_⟩
  · rw [hdecimal, hpositive, atoi_digits hds, hback]
  · have hscan := sscanf_digits hds (Numeral.digits_ne_nil 10 _)
    rw [hback, ← hpositive, ← hdecimal] at hscan
    exact ⟨_, hscan, rfl, rfl⟩

/-- -1 is printed as `-18446744073709551615`. -/
theorem decimal_not_round_trip : ¬ ∀ (num : BitVec 32) (out : Out), RoundTrips FD_STDOUT num out := by
  intro hall
  exact absurd (hall (-1) {}).nonneg (by decide)

end TpSo.Stdio
