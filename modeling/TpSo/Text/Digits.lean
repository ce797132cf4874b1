import TpSo.Library.Bytes
import TpSo.Library.Numeral
import TpSo.Library.Reversal

set_option autoImplicit false

/-! # Digit conversion

`uint_to_base` of the kernel (`lib.c`) and `uintToBase` of userland (`stdio.c`). Each divides the value down,
storing digits from the start of a buffer, and then reverses them in place. The kernel counts its exchanges and
writes no terminator; userland lets two pointers meet and puts a NUL behind the digits. -/

namespace TpSo

/-- A `char` array, by index, and the indices of the stores into it, latest first. Nothing in C keeps an index
    inside the array. -/
structure Buffer where
  bytes : Bytes.Memory := fun _ => 0
  stores : List Nat := []

namespace Buffer

/-- `buffer[i] = c`. -/
def store (b : Buffer) (i : Nat) (c : UInt8) : Buffer :=
  { bytes := Function.update b.bytes i c, stores := i :: b.stores }

/-- `tmp = buffer[i]; buffer[i] = buffer[j]; buffer[j] = tmp`. -/
def swap (b : Buffer) (i j : Nat) : Buffer := (b.store i (b.bytes j)).store j (b.bytes i)

@[simp] theorem store_bytes (b : Buffer) (i : Nat) (c : UInt8) :
    (b.store i c).bytes = Function.update b.bytes i c := rfl

@[simp] theorem store_stores (b : Buffer) (i : Nat) (c : UInt8) : (b.store i c).stores = i :: b.stores :=
  rfl

@[simp] theorem swap_bytes (b : Buffer) (i j : Nat) : (b.swap i j).bytes = Reversal.swap b.bytes i j := rfl

@[simp] theorem swap_stores (b : Buffer) (i j : Nat) : (b.swap i j).stores = j :: i :: b.stores := rfl

/-- Store characters one behind the other, from `i` on. -/
def puts : Buffer → Nat → List UInt8 → Buffer
  | b, _, [] => b
  | b, i, c :: cs => puts (b.store i c) (i + 1) cs

theorem puts_bytes (b : Buffer) (i : Nat) (cs : List UInt8) :
    (b.puts i cs).bytes = Bytes.write b.bytes i cs := by
  induction cs generalizing b i with
  | nil => rfl
  | cons c cs ih => rw [puts, ih, Bytes.write, store_bytes]

theorem mem_puts_stores {b : Buffer} {i x : Nat} {cs : List UInt8} :
    x ∈ (b.puts i cs).stores ↔ i ≤ x ∧ x < i + cs.length ∨ x ∈ b.stores := by
  induction cs generalizing b i with
  | nil =>
    rw [puts, List.length_nil]
    constructor
    · exact .inr
    · rintro (hin | hold)
      · omega
      · exact hold
  | cons c cs ih =>
    rw [puts, ih, store_stores, List.mem_cons, List.length_cons, ← or_assoc]
    apply or_congr_left
    omega

/-- The string at the start of the buffer, if it ends among the first `limit` bytes. -/
def string (b : Buffer) (limit : Nat) : List UInt8 := ((List.range limit).map b.bytes).takeWhile (· ≠ 0)

/-- `b'` is `b` with `cs` written from the start; nothing behind has been stored to. -/
structure Written (b b' : Buffer) (cs : List UInt8) : Prop where
  holds : Bytes.Holds b'.bytes 0 cs
  outside : ∀ x, cs.length ≤ x → b'.bytes x = b.bytes x
  stores : ∀ x, x ∈ b'.stores ↔ x < cs.length ∨ x ∈ b.stores

end Buffer

/-! ## The kernel -/

namespace Lib

/-- `symbols`. -/
def symbols : List UInt8 := "0123456789ABCDEF".toList.map Char.toUInt8

/-- The loop that divides; `none` if it has not ended after `fuel` rounds. -/
def divideLoop (base : Nat) : (fuel value i : Nat) → Buffer → Option (Buffer × Nat)
  | 0, value, i, buffer => if value = 0 then some (buffer, i) else none
  | fuel + 1, value, i, buffer =>
    if value = 0 then some (buffer, i)
    else divideLoop base fuel (value / base) (i + 1) (buffer.store i (symbols.getD (value % base) 0))

/-- The loop that reverses. -/
def reverseLoop (buffer : Buffer) (i : Nat) : Buffer :=
  (List.range (i / 2)).foldl (fun buffer j => buffer.swap j (i - j - 1)) buffer

/-- `uint_to_base`, with the buffer it leaves; the buffer `none` is `NULL`. A value of 64 bits takes no more
    than 64 divisions. -/
def uintToBase (value : BitVec 64) (buffer : Option Buffer) (base : BitVec 32) :
    Option (Option Buffer × Nat) :=
  match buffer with
  | none => some (none, 0)
  | some buffer =>
    if base.toNat < 2 ∨ base.toNat > 16 then some (some buffer, 0)
    else if value.toNat = 0 then some (some (buffer.store 0 '0'.toUInt8), 1)
    else
      match divideLoop base.toNat 64 value.toNat 0 buffer with
      | none => none
      | some (buffer, i) => some (some (reverseLoop buffer i), i)

end Lib

/-! ## Userland -/

namespace Stdio

/-- The character of a digit. -/
def digitChar (remainder : Nat) : UInt8 :=
  UInt8.ofNat (if remainder < 10 then remainder + 48 else remainder + 65 - 10)

/-- The `do`-`while` that divides; `none` if it has not ended after `fuel` rounds. -/
def divideLoop (base : Nat) : (fuel value p : Nat) → Buffer → Option (Buffer × Nat)
  | 0, _, _, _ => none
  | fuel + 1, value, p, buffer =>
    let buffer := buffer.store p (digitChar (value % base))
    if value / base ≠ 0 then divideLoop base fuel (value / base) (p + 1) buffer
    else some (buffer, p + 1)

/-- The loop in which `p1` and `p2` meet; `none` if it has not ended after `fuel` rounds. -/
def reverseLoop : (fuel p1 p2 : Nat) → Buffer → Option Buffer
  | 0, p1, p2, buffer => if p1 < p2 then none else some buffer
  | fuel + 1, p1, p2, buffer =>
    if p1 < p2 then reverseLoop fuel (p1 + 1) (p2 - 1) (buffer.swap p1 p2) else some buffer

/-- `uintToBase`. The pointers are offsets from `buffer`; `digits` is that of `p`. A division by zero has no
    outcome. -/
def uintToBase (value : BitVec 64) (buffer : Buffer) (base : BitVec 32) : Option (Buffer × Nat) :=
  if base.toNat = 0 then none
  else
    match divideLoop base.toNat 64 value.toNat 0 buffer with
    | none => none
    | some (buffer, p) =>
      match reverseLoop 64 0 (p - 1) (buffer.store p 0) with
      | none => none
      | some buffer => some (buffer, p)

end Stdio

/-! ## What the loops do -/

section

variable {base v fuel i n k p1 p2 : Nat} {b b' : Buffer} {cs : List UInt8}

/-- The characters of a value in a base. -/
def digitsText (base v : Nat) : List UInt8 := (Numeral.digits base v).map Stdio.digitChar

/-- The same, least significant first. -/
def lowText (base v : Nat) : List UInt8 := (Numeral.lowFirst base v).map Stdio.digitChar

theorem digitsText_eq (base v : Nat) : digitsText base v = (lowText base v).reverse := by
  rw [digitsText, Numeral.digits, List.map_reverse]
  rfl

theorem length_digitsText (base v : Nat) : (digitsText base v).length = (lowText base v).length := by
  rw [digitsText_eq, List.length_reverse]

theorem lowText_of_lt (h : v < base) : lowText base v = [Stdio.digitChar (v % base)] := by
  rw [lowText, Numeral.lowFirst_of_lt h, Nat.mod_eq_of_lt h]
  rfl

theorem lowText_of_le (hb : 1 < base) (h : base ≤ v) :
    lowText base v = Stdio.digitChar (v % base) :: lowText base (v / base) := by
  rw [lowText, Numeral.lowFirst_of_le hb h]
  rfl

/-- The two tables of digits agree. -/
theorem symbols_getD {d : Nat} (h : d < 16) : Lib.symbols.getD d 0 = Stdio.digitChar d := by
  revert d
  decide

/-- A quotient needs a round less. -/
theorem div_lt_pow_of_lt_pow_succ (h : v < base ^ (fuel + 1)) : v / base < base ^ fuel := by
  apply Nat.div_lt_of_lt_mul
  rwa [← Nat.pow_succ']

theorem Lib.divideLoop_zero (base fuel i : Nat) (b : Buffer) :
    Lib.divideLoop base fuel 0 i b = some (b, i) := by
  cases fuel with
  | zero => rfl
  | succ fuel => rfl

/-- **The kernel's division loop** stores the digits of what is left. -/
theorem Lib.divideLoop_eq (hb : 1 < base) (hb16 : base ≤ 16) (hv : v ≠ 0) (h : v < base ^ fuel) :
    Lib.divideLoop base fuel v i b =
      some (b.puts i (lowText base v), i + (lowText base v).length) := by
  induction fuel generalizing v i b with
  | zero =>
    rw [Nat.pow_zero] at h
    omega
  | succ fuel ih =>
    have hsymbol := symbols_getD (d := v % base) (Nat.lt_of_lt_of_le (Nat.mod_lt v (by omega)) hb16)
    rw [Lib.divideLoop, if_neg hv]
    simp only [hsymbol]
    by_cases hlt : v < base
    · rw [Nat.div_eq_of_lt hlt, Lib.divideLoop_zero, lowText_of_lt hlt]
      rfl
    · have hle : base ≤ v := by omega
      have hdiv : v / base ≠ 0 := (Nat.div_pos hle (by omega)).ne'
      rw [ih hdiv (div_lt_pow_of_lt_pow_succ h), lowText_of_le hb hle, List.length_cons]
      simp only [Buffer.puts, Nat.add_assoc, Nat.add_comm 1]

/-- **Userland's division loop** stores the same digits. -/
theorem Stdio.divideLoop_eq (hb : 1 < base) (hfuel : 0 < fuel) (h : v < base ^ fuel) :
    Stdio.divideLoop base fuel v i b =
      some (b.puts i (lowText base v), i + (lowText base v).length) := by
  induction fuel generalizing v i b with
  | zero => omega
  | succ fuel ih =>
    rw [Stdio.divideLoop]
    by_cases hlt : v < base
    · simp only [Nat.div_eq_of_lt hlt, ne_eq, not_true_eq_false, if_false, lowText_of_lt hlt]
      rfl
    · have hle : base ≤ v := by omega
      have hdiv : v / base ≠ 0 := (Nat.div_pos hle (by omega)).ne'
      have hrest := div_lt_pow_of_lt_pow_succ h
      have hfuel' : 0 < fuel := by
        by_contra hzero
        rw [show fuel = 0 by omega, Nat.pow_zero] at hrest
        exact hdiv (Nat.lt_one_iff.mp hrest)
      simp only [ne_eq, hdiv, not_false_eq_true, if_true]
      rw [ih hfuel' hrest, lowText_of_le hb hle, List.length_cons]
      simp only [Buffer.puts, Nat.add_assoc, Nat.add_comm 1]

/-- A reversed stretch holds the reversed list. -/
theorem holds_of_reversing {f g : Bytes.Memory} (h : Reversal.Reversing f cs.length k g)
    (hk : cs.length ≤ 2 * k + 1) (hcs : Bytes.Holds f 0 cs) : Bytes.Holds g 0 cs.reverse := by
  apply Bytes.holds_iff_getElem.mpr
  intro i hi
  rw [List.length_reverse] at hi
  have hcell := Bytes.holds_iff_getElem.mp hcs (cs.length - 1 - i) (by omega)
  rw [Nat.zero_add] at hcell ⊢
  rw [h.finish hk (by omega), List.getElem_reverse, hcell]

/-- From `b` to `b'` stores have been made below `n` only. -/
structure Buffer.Within (n : Nat) (b b' : Buffer) : Prop where
  old : ∀ x ∈ b.stores, x ∈ b'.stores
  new : ∀ x ∈ b'.stores, x < n ∨ x ∈ b.stores

theorem Buffer.Within.refl (n : Nat) (b : Buffer) : b.Within n b :=
  ⟨fun _ h => h, fun _ h => .inr h⟩

theorem Buffer.Within.swap (h : b.Within n b') {j l : Nat} (hj : j < n) (hl : l < n) :
    b.Within n (b'.swap j l) := by
  refine ⟨fun x hx => ?_, fun x hx => ?_⟩
  · exact List.mem_cons_of_mem _ (List.mem_cons_of_mem _ (h.old x hx))
  · rw [swap_stores, List.mem_cons, List.mem_cons] at hx
    rcases hx with rfl | rfl | hold
    · exact .inl hl
    · exact .inl hj
    · exact h.new x hold

/-- **The kernel's reversal.** -/
theorem Lib.reverseLoop_bytes (b : Buffer) (n : Nat) :
    Reversal.Reversing b.bytes n (n / 2) (Lib.reverseLoop b n).bytes := by
  have hbytes : (Lib.reverseLoop b n).bytes =
      (List.range (n / 2)).foldl (fun g j => Reversal.swap g j (n - j - 1)) b.bytes :=
    (List.foldl_hom Buffer.bytes fun _ _ => rfl).symm
  rw [hbytes]
  exact .fold b.bytes n (n / 2) (by omega)

theorem Lib.reverseLoop_within (b : Buffer) (n : Nat) : b.Within n (Lib.reverseLoop b n) := by
  suffices hall : ∀ k, 2 * k ≤ n →
      b.Within n ((List.range k).foldl (fun b j => b.swap j (n - j - 1)) b) from hall (n / 2) (by omega)
  intro k
  induction k with
  | zero =>
    intro _
    exact .refl n b
  | succ k ih =>
    intro hk
    rw [List.range_succ, List.foldl_append]
    exact (ih (by omega)).swap (by omega) (by omega)

/-- **Userland's reversal**: after `k` rounds the pointers are at `k` and `n - 1 - k`. -/
theorem Stdio.reverseLoop_spec {f : Bytes.Memory} {b0 : Buffer} (hn : 0 < n)
    (hfuel : n ≤ 2 * (k + fuel) + 1) (hk : 2 * k ≤ n) (h : Reversal.Reversing f n k b.bytes)
    (hstores : b0.Within n b) :
    ∃ b' k', Stdio.reverseLoop fuel k (n - 1 - k) b = some b' ∧ n ≤ 2 * k' + 1 ∧ 2 * k' ≤ n ∧
      Reversal.Reversing f n k' b'.bytes ∧ b0.Within n b' := by
  induction fuel generalizing k b with
  | zero =>
    refine ⟨b, k, ?_, by omega, hk, h, hstores⟩
    rw [Stdio.reverseLoop, if_neg (by omega)]
  | succ fuel ih =>
    rw [Stdio.reverseLoop]
    by_cases hmeet : k < n - 1 - k
    · have hstep := h.step (by omega)
      have hpair : n - k - 1 = n - 1 - k := by omega
      have hnext : n - 1 - (k + 1) = n - 1 - k - 1 := by omega
      rw [hpair] at hstep
      have hrest := ih (b := b.swap k (n - 1 - k)) (k := k + 1) (by omega) (by omega) hstep
        (hstores.swap (by omega) (by omega))
      rw [hnext] at hrest
      rw [if_pos hmeet]
      exact hrest
    · refine ⟨b, k, ?_, by omega, hk, h, hstores⟩
      rw [if_neg hmeet]

/-! ## What the functions do -/

theorem lowText_length_pos (base v : Nat) : 0 < (lowText base v).length := by
  rw [lowText, List.length_map]
  exact Numeral.length_lowFirst_pos base v

/-- 64 bits have at most 64 digits. -/
theorem lt_pow_of_bitVec (hb : 1 < base) (value : BitVec 64) : value.toNat < base ^ 64 :=
  Nat.lt_of_lt_of_le value.isLt (Nat.pow_le_pow_left hb 64)

theorem lowText_length_le (hb : 1 < base) (value : BitVec 64) :
    (lowText base value.toNat).length ≤ 64 := by
  rw [lowText, List.length_map]
  exact (Numeral.length_lowFirst_le_iff hb (by decide)).mpr (lt_pow_of_bitVec hb value)

/-- Digits that were stored from the lowest one on and then reversed are the text. -/
theorem holds_digitsText {f g : Bytes.Memory} (hlow : Bytes.Holds f 0 (lowText base v))
    (hrev : Reversal.Reversing f (lowText base v).length k g) (hk : (lowText base v).length ≤ 2 * k + 1) :
    Bytes.Holds g 0 (digitsText base v) := by
  rw [digitsText_eq]
  exact holds_of_reversing hrev hk hlow

theorem Buffer.holds_puts (b : Buffer) (cs : List UInt8) : Bytes.Holds (b.puts 0 cs).bytes 0 cs := by
  rw [puts_bytes]
  exact Bytes.holds_write _ _ _

theorem Buffer.puts_outside (b : Buffer) {cs : List UInt8} {x : Nat} (hx : cs.length ≤ x) :
    (b.puts 0 cs).bytes x = b.bytes x := by
  rw [puts_bytes]
  exact Bytes.write_outside _ _ (by omega)

/-- **`uint_to_base`** writes the digits of its value and returns their number. -/
theorem Lib.uintToBase_eq (value : BitVec 64) (b : Buffer) {base : BitVec 32} (hb : 2 ≤ base.toNat)
    (hb16 : base.toNat ≤ 16) : ∃ b',
      Lib.uintToBase value (some b) base = some (some b', (digitsText base.toNat value.toNat).length) ∧
      b.Written b' (digitsText base.toNat value.toNat) := by
  simp only [Lib.uintToBase]
  rw [if_neg (by omega)]
  by_cases hv : value.toNat = 0
  · rw [if_pos hv, hv, digitsText_eq, lowText_of_lt (by omega), Nat.zero_mod]
    refine ⟨_, rfl, ⟨?_, trivial⟩, ?_, ?_⟩
    · rw [Buffer.store_bytes, Function.update_self]
      decide
    · intro x hx
      exact Function.update_of_ne (show x ≠ 0 by simp at hx; omega) _ _
    · intro x
      simp
  · rw [if_neg hv, Lib.divideLoop_eq (by omega) hb16 hv (lt_pow_of_bitVec (by omega) value),
      length_digitsText, Nat.zero_add]
    set low := lowText base.toNat value.toNat with hlow
    have hrev := Lib.reverseLoop_bytes (b.puts 0 low) low.length
    have hstores := Lib.reverseLoop_within (b.puts 0 low) low.length
    refine ⟨_, rfl, ?_, ?_, ?_⟩
    · exact holds_digitsText (b.holds_puts low) hrev (show low.length ≤ _ by omega)
    · intro x hx
      rw [length_digitsText, ← hlow] at hx
      rw [hrev.outside (by omega) hx, b.puts_outside hx]
    · intro x
      rw [length_digitsText, ← hlow]
      constructor
      · intro hx
        rcases hstores.new x hx with hin | hold
        · exact .inl hin
        · exact (Buffer.mem_puts_stores.mp hold).imp_left fun h => by omega
      · intro hx
        exact hstores.old x (Buffer.mem_puts_stores.mpr (hx.imp_left fun h => by omega))

/-- **`uintToBase`** writes the same digits, and a NUL behind them. -/
theorem Stdio.uintToBase_eq (value : BitVec 64) (b : Buffer) {base : BitVec 32} (hb : 2 ≤ base.toNat) :
    ∃ b', Stdio.uintToBase value b base = some (b', (digitsText base.toNat value.toNat).length) ∧
      b.Written b' (digitsText base.toNat value.toNat ++ [0]) := by
  have hpos := lowText_length_pos base.toNat value.toNat
  have hle : (lowText base.toNat value.toNat).length ≤ 64 := lowText_length_le (by omega) value
  simp only [Stdio.uintToBase]
  rw [if_neg (by omega), Stdio.divideLoop_eq (by omega) (by decide) (lt_pow_of_bitVec (by omega) value),
    length_digitsText, Nat.zero_add]
  dsimp only
  -- the digits come out lowest first, with the NUL behind them, and are reversed in place
  set low := lowText base.toNat value.toNat with hlow
  set c := (b.puts 0 low).store low.length 0 with hc
  have hturns : low.length ≤ 2 * (0 + 64) + 1 := by omega
  obtain ⟨b', k, hrun, hk, hk', hrev, hstores⟩ := Stdio.reverseLoop_spec hpos (k := 0) hturns (by omega)
    (.start c.bytes low.length) (.refl low.length c)
  have hlowc : Bytes.Holds c.bytes 0 low := by
    apply (b.holds_puts low).congr
    intro x _ hx
    exact Function.update_of_ne (show x ≠ low.length by omega) _ _
  rw [Nat.sub_zero] at hrun
  rw [hrun]
  refine ⟨b', rfl, ?_, ?_, ?_⟩
  · refine Bytes.holds_append.mpr ⟨holds_digitsText hlowc hrev hk, ?_, trivial⟩
    rw [length_digitsText, ← hlow, Nat.zero_add, hrev.outside hk' (Nat.le_refl _)]
    exact Function.update_self _ _ _
  · intro x hx
    rw [List.length_append, length_digitsText, ← hlow, List.length_singleton] at hx
    rw [hrev.outside hk' (by omega), hc, Buffer.store_bytes,
      Function.update_of_ne (show x ≠ low.length by omega), b.puts_outside (by omega)]
  · intro x
    rw [List.length_append, length_digitsText, ← hlow, List.length_singleton]
    have hmid : x ∈ c.stores ↔ x = low.length ∨ x < low.length ∨ x ∈ b.stores := by
      rw [hc, Buffer.store_stores, List.mem_cons, Buffer.mem_puts_stores]
      simp
    constructor
    · intro hx
      rcases hstores.new x hx with hin | hold
      · exact .inl (by omega)
      · rcases hmid.mp hold with rfl | hin | hold
        · exact .inl (by omega)
        · exact .inl (by omega)
        · exact .inr hold
    · intro hx
      apply hstores.old x (hmid.mpr _)
      rcases hx with hin | hold
      · rcases Nat.lt_succ_iff_lt_or_eq.mp hin with hlt | heq
        · exact .inr (.inl hlt)
        · exact .inl heq
      · exact .inr (.inr hold)

/-! ## Numerals as characters -/

/-- The number that a digit's character stands for. -/
def digitValue (c : UInt8) : Nat := if c.toNat < 65 then c.toNat - 48 else c.toNat - 55

theorem digitValue_digitChar {d : Nat} (h : d < 16) : digitValue (Stdio.digitChar d) = d := by
  revert d
  decide

theorem digitChar_eq_zero_iff {d : Nat} (h : d < 16) : Stdio.digitChar d = '0'.toUInt8 ↔ d = 0 := by
  revert d
  decide

/-- `text` is the number `v` in a base: its digits, the most significant one first, without leading zeros. -/
structure IsNumeral (base v : Nat) (text : List UInt8) : Prop where
  digits : ∀ c ∈ text, ∃ d < base, c = Stdio.digitChar d
  value : Numeral.value base (text.map digitValue) = v
  zero : v = 0 → text = ['0'.toUInt8]
  head : v ≠ 0 → text.head? ≠ some '0'.toUInt8

theorem isNumeral_digitsText (hb : 1 < base) (hb16 : base ≤ 16) (v : Nat) :
    IsNumeral base v (digitsText base v) := by
  have hlt : ∀ d ∈ Numeral.digits base v, d < base := fun d hd => Numeral.lt_of_mem_digits hb hd
  refine ⟨?_, ?_, ?_, ?_⟩
  · intro c hc
    obtain ⟨d, hd, rfl⟩ := List.mem_map.mp hc
    exact ⟨d, hlt d hd, rfl⟩
  · rw [digitsText, List.map_map]
    have hback : ∀ d ∈ Numeral.digits base v, (digitValue ∘ Stdio.digitChar) d = id d := by
      intro d hd
      exact digitValue_digitChar (Nat.lt_of_lt_of_le (hlt d hd) hb16)
    rw [List.map_congr_left hback, List.map_id, Numeral.value_digits]
  · rintro rfl
    rw [digitsText_eq, lowText_of_lt (by omega), Nat.zero_mod]
    decide
  · intro hv hhead
    have hne := Numeral.digits_ne_nil base v
    rw [digitsText, List.head?_map, List.head?_eq_some_head hne, Option.map_some, Option.some.injEq] at hhead
    have hd := Nat.lt_of_lt_of_le (hlt _ (List.head_mem hne)) hb16
    exact Numeral.head_digits_ne_zero hv hne ((digitChar_eq_zero_iff hd).mp hhead)

end

/-- **Digit conversion.** The kernel's function writes the numeral of its value, of no more than 64 characters, and
    returns their number; userland's writes the same characters, and a NUL. -/
theorem uintToBase_numeral (value : BitVec 64) (base : BitVec 32) (hb : 2 ≤ base.toNat)
    (hb16 : base.toNat ≤ 16) (b c : Buffer) :
    ∃ b' c' text, IsNumeral base.toNat value.toNat text ∧ text.length ≤ 64 ∧
      Lib.uintToBase value (some b) base = some (some b', text.length) ∧
      Bytes.Holds b'.bytes 0 text ∧ (∀ x ∈ b'.stores, x < text.length ∨ x ∈ b.stores) ∧
      Stdio.uintToBase value c base = some (c', text.length) ∧ Bytes.Holds c'.bytes 0 (text ++ [0]) := by
  obtain ⟨b', hkernel, hb'⟩ := Lib.uintToBase_eq value b hb hb16
  obtain ⟨c', huser, hc'⟩ := Stdio.uintToBase_eq value c hb
  have hlen : (digitsText base.toNat value.toNat).length ≤ 64 := by
    rw [length_digitsText]
    exact lowText_length_le (by omega) value
  refine ⟨b', c', _, isNumeral_digitsText (by omega) hb16 _, hlen, hkernel, hb'.holds, ?_, huser, hc'.holds⟩
  intro x hx
  exact (hb'.stores x).mp hx

theorem uintToBase_numeral_hex : ∃ b' c' text,
    IsNumeral 16 48879 text ∧ text.length ≤ 64 ∧
      Lib.uintToBase 48879 (some {}) 16 = some (some b', text.length) ∧
      Bytes.Holds b'.bytes 0 text ∧ (∀ x ∈ b'.stores, x < text.length ∨ x ∈ ({} : Buffer).stores) ∧
      Stdio.uintToBase 48879 {} 16 = some (c', text.length) ∧ Bytes.Holds c'.bytes 0 (text ++ [0]) :=
  uintToBase_numeral 48879 16 (by decide) (by decide) {} {}

end TpSo
