import TpSo.Text.Digits

set_option autoImplicit false

/-! # `vfprintf`

The formatter of `stdio.c`, with `parseANSI` of `ansiColors.c` (it is compiled with `ANSI_4_BIT_COLOR_SUPPORT`).
A string is the list of its characters, none of them NUL. A cursor into it is the list from the
cursor on, so that `[]` is the cursor at the terminating NUL; to read behind that ends in `pastEnd`. To take an
argument that was not passed, or not with this type, is undefined and ends in `noArgument`. -/

namespace TpSo.Stdio

/-- The escape character. -/
def ESC : UInt8 := 27

/-- A call that prints or sets a color. -/
inductive Event
  | write (fd : Int) (bytes : List UInt8)
  | textColor (color : BitVec 32)
  | backgroundColor (color : BitVec 32)
  deriving DecidableEq

def Event.bytes : Event → List UInt8
  | .write _ bytes => bytes
  | .textColor _ | .backgroundColor _ => []

/-- The static `buffer` of `stdio.c`, and the calls made so far. -/
structure Out where
  buffer : Buffer := {}
  events : List Event := []

namespace Out

/-- `sys_write`. -/
def write (out : Out) (fd : Int) (bytes : List UInt8) : Out :=
  { out with events := out.events ++ [.write fd bytes] }

/-- The bytes written so far. -/
def text (out : Out) : List UInt8 := out.events.flatMap Event.bytes

@[simp] theorem write_buffer (out : Out) (fd : Int) (bytes : List UInt8) :
    (out.write fd bytes).buffer = out.buffer := rfl

@[simp] theorem write_text (out : Out) (fd : Int) (bytes : List UInt8) :
    (out.write fd bytes).text = out.text ++ bytes := by
  simp [text, write, Event.bytes]

end Out

/-- Why a call does not return: it needs more rounds than it was given, it reads behind the end of a string, or
    it takes an argument it has not got. -/
inductive Stop
  | fuel | pastEnd | noArgument
  deriving DecidableEq

/-- An argument in a `va_list`. -/
inductive VaArg
  | int (n : BitVec 32)
  | str (s : List UInt8)
  deriving DecidableEq

/-! ## Colors -/

/-- The colors that `setANSIProp` sets in turn; the case 90 falls through. -/
def ansiColors (prop : UInt8) : List (BitVec 32) :=
  if prop = 30 then [0x00000000]
  else if prop = 31 then [0x00DE382B]
  else if prop = 32 then [0x0039B54A]
  else if prop = 33 then [0x00FFC706]
  else if prop = 34 then [0x00006FB8]
  else if prop = 35 then [0x00762671]
  else if prop = 36 then [0x002CB5E9]
  else if prop = 37 then [0x00CCCCCC]
  else if prop = 90 then [0x00808080, 0x00FF0000]
  else if prop = 91 then [0x00FF0000]
  else if prop = 92 then [0x0000FF00]
  else if prop = 93 then [0x00FFFF00]
  else if prop = 94 then [0x000000FF]
  else if prop = 95 then [0x00FF00FF]
  else if prop = 96 then [0x0000FFFF]
  else if prop = 97 then [0x00FFFFFF]
  else []

/-- `setANSIProp`. -/
def setANSIProp (prop : UInt8) (out : Out) : Out :=
  let background := 40 ≤ prop ∧ prop ≤ 47 ∨ 100 ≤ prop ∧ prop ≤ 107
  let setFn := if background then Event.backgroundColor else Event.textColor
  let prop := if background then prop - 10 else prop
  let calls :=
    if prop = 0 then [.textColor 0x00FFFFFF, .backgroundColor 0x00000000]
    else (ansiColors prop).map setFn
  { out with events := out.events ++ calls }

/-- The loop of `parseANSI`. A NUL does not end it. -/
def attributes : (string : List UInt8) → (prop : UInt8) → Out → Except Stop (List UInt8 × Out)
  | [], _, _ => .error .pastEnd
  | c :: string, prop, out =>
    if c = ';'.toUInt8 then attributes string 0 (setANSIProp prop out)
    else if c = 'm'.toUInt8 then .ok (string, setANSIProp prop out)
    else attributes string (prop * 10 + (c - '0'.toUInt8)) out

/-- `parseANSI`, with the cursor it leaves in `*i`. -/
def parseANSI (string : List UInt8) (out : Out) : Except Stop (List UInt8 × Out) :=
  match string with
  | _ :: bracket :: rest =>
    if bracket ≠ '['.toUInt8 ∨ rest = [] then .ok (string, out) else attributes rest 0 out
  | _ => .ok (string, out)

/-! ## Conversions -/

/-- The bases of `%x`, `%d`, `%o` and `%b`. -/
def conversionBase (conversion : UInt8) : Option (BitVec 32) :=
  if conversion = 'x'.toUInt8 then some 16
  else if conversion = 'd'.toUInt8 then some 10
  else if conversion = 'o'.toUInt8 then some 8
  else if conversion = 'b'.toUInt8 then some 2
  else none

/-- `printBase`; `fprintf` prints a string to the same descriptor. -/
def printBase (fprintf : List UInt8 → Out → Except Stop Out) (num base : BitVec 32) (out : Out) :
    Except Stop Out :=
  match if num.toInt < 0 then fprintf ['-'.toUInt8] out else .ok out with
  | .error stop => .error stop
  | .ok out =>
    match uintToBase (num.signExtend 64) out.buffer base with
    | none => .error .fuel
    | some (buffer, _) => fprintf (buffer.string 65) { out with buffer := buffer }

/-- The inner `switch` of `vfprintf`, with the arguments it leaves. -/
def convert (fd : Int) (fprintf : List UInt8 → Out → Except Stop Out) (conversion : UInt8)
    (args : List VaArg) (out : Out) : Except Stop (List VaArg × Out) :=
  match conversionBase conversion with
  | some base =>
    match args with
    | .int n :: args =>
      match printBase fprintf n base out with
      | .error stop => .error stop
      | .ok out => .ok (args, out)
    | _ => .error .noArgument
  | none =>
    if conversion = 'c'.toUInt8 then
      match args with
      | .int n :: args => .ok (args, out.write fd [UInt8.ofBitVec (n.truncate 8)])
      | _ => .error .noArgument
    else if conversion = 's'.toUInt8 then
      match args with
      | .str s :: args =>
        match fprintf s out with
        | .error stop => .error stop
        | .ok out => .ok (args, out)
      | _ => .error .noArgument
    else if conversion = '%'.toUInt8 then .ok (args, out.write fd ['%'.toUInt8])
    else .ok (args, out)

/-- `vfprintf`, with `fuel` rounds for its loop; `%s` hands its argument to `fprintf`, and that to `vfprintf`,
    with no arguments. A `%` at the end is stepped over together with the NUL. -/
def vfprintf (fd : Int) : (fuel : Nat) → (format : List UInt8) → List VaArg → Out → Except Stop Out
  | 0, _, _, _ => .error .fuel
  | _ + 1, [], _, out => .ok out
  | fuel + 1, c :: rest, args, out =>
    if c = ESC then
      match parseANSI (c :: rest) (out.write fd []) with
      | .error stop => .error stop
      | .ok (format, out) => vfprintf fd fuel format args out
    else if c = '%'.toUInt8 then
      match rest with
      | [] => .error .pastEnd
      | conversion :: rest =>
        match convert fd (fun s out => vfprintf fd fuel s [] out) conversion args out with
        | .error stop => .error stop
        | .ok (args, out) => vfprintf fd fuel rest args out
    else vfprintf fd fuel rest args (out.write fd [c])

def FD_STDOUT : Int := 1

/-- `printf`. -/
def printf (fuel : Nat) (format : List UInt8) (args : List VaArg) (out : Out) : Except Stop Out :=
  vfprintf FD_STDOUT fuel format args out

/-! ## Printing what is no format -/

/-- `vfprintf` prints such a character as it is. -/
def Ordinary (c : UInt8) : Prop := c ≠ ESC ∧ c ≠ '%'.toUInt8

/-- Write characters one after the other. -/
def Out.writes (out : Out) (fd : Int) (s : List UInt8) : Out := s.foldl (fun out c => out.write fd [c]) out

@[simp] theorem Out.writes_buffer (out : Out) (fd : Int) (s : List UInt8) :
    (out.writes fd s).buffer = out.buffer := by
  induction s generalizing out with
  | nil => rfl
  | cons c s ih => exact ih (out.write fd [c])

@[simp] theorem Out.writes_text (out : Out) (fd : Int) (s : List UInt8) :
    (out.writes fd s).text = out.text ++ s := by
  induction s generalizing out with
  | nil => simp [writes]
  | cons c s ih =>
    have hrest := ih (out.write fd [c])
    rw [Out.write_text, List.append_assoc] at hrest
    exact hrest

section

variable {fd : Int} {fuel fuel' : Nat} {format s : List UInt8} {args args' : List VaArg} {out out' : Out}

/-! ## One round -/

theorem vfprintf_ordinary {c : UInt8} (h : Ordinary c) :
    vfprintf fd (fuel + 1) (c :: format) args out = vfprintf fd fuel format args (out.write fd [c]) := by
  simp only [vfprintf, if_neg h.1, if_neg h.2]

theorem vfprintf_escape :
    vfprintf fd (fuel + 1) (ESC :: format) args out =
      match parseANSI (ESC :: format) (out.write fd []) with
      | .error stop => .error stop
      | .ok (format, out) => vfprintf fd fuel format args out := rfl

theorem vfprintf_percent (conversion : UInt8) :
    vfprintf fd (fuel + 1) ('%'.toUInt8 :: conversion :: format) args out =
      match convert fd (fun s out => vfprintf fd fuel s [] out) conversion args out with
      | .error stop => .error stop
      | .ok (args, out) => vfprintf fd fuel format args out := rfl

/-- What a character of a format is: an escape, a `%` with or without a conversion, or ordinary. -/
theorem ordinary_cases (c : UInt8) : c = ESC ∨ c = '%'.toUInt8 ∨ Ordinary c := by
  by_cases hesc : c = ESC
  · exact .inl hesc
  · by_cases hpercent : c = '%'.toUInt8
    · exact .inr (.inl hpercent)
    · exact .inr (.inr ⟨hesc, hpercent⟩)

/-- A string of ordinary characters is printed as it is. -/
theorem vfprintf_plain (hs : ∀ c ∈ s, Ordinary c) (hfuel : s.length < fuel) :
    vfprintf fd fuel s args out = .ok (out.writes fd s) := by
  induction s generalizing fuel out with
  | nil =>
    cases fuel with
    | zero => exact absurd hfuel (Nat.lt_irrefl 0)
    | succ fuel => rfl
  | cons c s ih =>
    cases fuel with
    | zero => exact absurd hfuel (Nat.not_lt_zero _)
    | succ fuel =>
      rw [vfprintf_ordinary (hs c List.mem_cons_self)]
      exact ih (fun c hc => hs c (List.mem_cons_of_mem _ hc)) (Nat.lt_of_succ_lt_succ hfuel)

/-! ## Rounds -/

/-- What `f` prints, `g` prints as well. -/
def Extends (f g : List UInt8 → Out → Except Stop Out) : Prop :=
  ∀ s out out', f s out = .ok out' → g s out = .ok out'

theorem printBase_extends {f g : List UInt8 → Out → Except Stop Out} (h : Extends f g)
    {num base : BitVec 32} (hok : printBase f num base out = .ok out') :
    printBase g num base out = .ok out' := by
  unfold printBase at hok ⊢
  split at hok
  · cases hok
  · next out1 hsign =>
    have hsign' : (if num.toInt < 0 then g ['-'.toUInt8] out else .ok out) = .ok out1 := by
      split at hsign
      · next hneg =>
        rw [if_pos hneg]
        exact h _ _ _ hsign
      · next hneg =>
        rw [if_neg hneg]
        exact hsign
    rw [hsign']
    dsimp only
    split at hok
    · cases hok
    · exact h _ _ _ hok

theorem convert_extends {f g : List UInt8 → Out → Except Stop Out} (h : Extends f g) {conversion : UInt8}
    {r : List VaArg × Out} (hok : convert fd f conversion args out = .ok r) :
    convert fd g conversion args out = .ok r := by
  unfold convert at hok ⊢
  split at hok
  · split at hok
    · split at hok
      · cases hok
      · next hprint =>
        rw [printBase_extends h hprint]
        exact hok
    · cases hok
  · by_cases hchar : conversion = 'c'.toUInt8
    · rw [if_pos hchar] at hok ⊢
      exact hok
    · rw [if_neg hchar] at hok ⊢
      by_cases hstring : conversion = 's'.toUInt8
      · rw [if_pos hstring] at hok ⊢
        split at hok
        · split at hok
          · cases hok
          · next hprint =>
            rw [h _ _ _ hprint]
            exact hok
        · cases hok
      · rw [if_neg hstring] at hok ⊢
        exact hok

/-- A call that returns does so with more rounds as well. -/
theorem vfprintf_mono (h : vfprintf fd fuel format args out = .ok out') (hle : fuel ≤ fuel') :
    vfprintf fd fuel' format args out = .ok out' := by
  induction fuel generalizing fuel' format args out out' with
  | zero => cases h
  | succ fuel ih =>
    obtain ⟨more, rfl⟩ : ∃ more, fuel' = more + 1 := ⟨fuel' - 1, by omega⟩
    have hle' : fuel ≤ more := by omega
    cases format with
    | nil => exact h
    | cons c rest =>
      rcases ordinary_cases c with rfl | rfl | hc
      · rw [vfprintf_escape] at h ⊢
        split at h
        · cases h
        · exact ih h hle'
      · cases rest with
        | nil => cases h
        | cons conversion rest =>
          rw [vfprintf_percent] at h ⊢
          split at h
          · cases h
          · next args1 out1 hconvert =>
            have hext : Extends (fun s out => vfprintf fd fuel s [] out)
                (fun s out => vfprintf fd more s [] out) := fun s out out' hs => ih hs hle'
            rw [convert_extends hext hconvert]
            exact ih h hle'
      · rw [vfprintf_ordinary hc] at h ⊢
        exact ih h hle'

/-! ## Numbers -/

/-- The string in a buffer is what lies in front of the NUL. -/
theorem string_of_holds {b : Buffer} {limit : Nat} (h : Bytes.Holds b.bytes 0 (s ++ [0]))
    (hne : ∀ c ∈ s, c ≠ 0) (hlimit : s.length < limit) : b.string limit = s := by
  obtain ⟨more, rfl⟩ : ∃ more, limit = s.length + 1 + more := ⟨limit - (s.length + 1), by omega⟩
  have hfront : (List.range (s.length + 1)).map b.bytes = s ++ [0] := by
    apply List.ext_getElem
    · simp
    · intro i hi hi'
      have hcell := Bytes.holds_iff_getElem.mp h i hi'
      rw [Nat.zero_add] at hcell
      simp only [List.getElem_map, List.getElem_range]
      exact hcell
  rw [Buffer.string, List.range_add, List.map_append, hfront, List.append_assoc]
  rw [List.takeWhile_append_of_pos (by simpa using hne)]
  simp

theorem digitChar_ordinary {d : Nat} (h : d < 16) : Ordinary (digitChar d) ∧ digitChar d ≠ 0 := by
  unfold Ordinary
  revert d
  decide

theorem digitsText_ordinary {base : Nat} (hb : 1 < base) (hb16 : base ≤ 16) {v : Nat} {c : UInt8}
    (hc : c ∈ digitsText base v) : Ordinary c ∧ c ≠ 0 := by
  obtain ⟨d, hd, rfl⟩ := List.mem_map.mp hc
  exact digitChar_ordinary (Nat.lt_of_lt_of_le (Numeral.lt_of_mem_digits hb hd) hb16)

/-- What `printBase` prints: a sign, and the digits of the number's 64-bit extension. -/
def printedText (num base : BitVec 32) : List UInt8 :=
  (if num.toInt < 0 then ['-'.toUInt8] else []) ++ digitsText base.toNat (num.signExtend 64).toNat

/-- **`printBase`**: what it prints, and what it leaves in the static buffer. -/
theorem printBase_eq {num base : BitVec 32} (hb : 2 ≤ base.toNat) (hb16 : base.toNat ≤ 16)
    (hfuel : 64 < fuel) : ∃ out',
      printBase (fun s out => vfprintf fd fuel s [] out) num base out = .ok out' ∧
      out'.text = out.text ++ printedText num base ∧
      out.buffer.Written out'.buffer (digitsText base.toNat (num.signExtend 64).toNat ++ [0]) := by
  have hdigits : ∀ c ∈ digitsText base.toNat (num.signExtend 64).toNat, Ordinary c ∧ c ≠ 0 :=
    fun c hc => digitsText_ordinary (by omega) hb16 hc
  have hlen : (digitsText base.toNat (num.signExtend 64).toNat).length ≤ 64 := by
    rw [length_digitsText]
    exact lowText_length_le (by omega) _
  obtain ⟨out1, hsign, htext, hbuffer⟩ : ∃ out1,
      (if num.toInt < 0 then vfprintf fd fuel ['-'.toUInt8] [] out else .ok out) = .ok out1 ∧
      out1.text = out.text ++ (if num.toInt < 0 then ['-'.toUInt8] else []) ∧ out1.buffer = out.buffer := by
    by_cases hneg : num.toInt < 0
    · simp only [if_pos hneg]
      refine ⟨_, vfprintf_plain ?_ (show 1 < fuel by omega), by simp, by simp⟩
      intro c hc
      rw [List.mem_singleton.mp hc]
      unfold Ordinary
      decide
    · simp only [if_neg hneg]
      exact ⟨out, rfl, by simp, rfl⟩
  obtain ⟨b, huint, hwritten⟩ := uintToBase_eq (num.signExtend 64) out1.buffer hb
  have hstring : b.string 65 = digitsText base.toNat (num.signExtend 64).toNat :=
    string_of_holds hwritten.holds (fun c hc => (hdigits c hc).2) (by omega)
  refine ⟨({ out1 with buffer := b } : Out).writes fd (digitsText base.toNat (num.signExtend 64).toNat),
    ?_, ?_, ?_⟩
  · simp only [printBase, hsign, huint, hstring]
    exact vfprintf_plain (fun c hc => (hdigits c hc).1) (by omega)
  · rw [Out.writes_text, printedText, ← List.append_assoc, ← htext]
    rfl
  · rw [Out.writes_buffer, ← hbuffer]
    exact hwritten

/-- Whatever number of rounds it is given, `printBase` does the same. -/
theorem printBase_of_ok {num base : BitVec 32} (hb : 2 ≤ base.toNat) (hb16 : base.toNat ≤ 16)
    (h : printBase (fun s out => vfprintf fd fuel s [] out) num base out = .ok out') :
    out'.text = out.text ++ printedText num base ∧
    out.buffer.Written out'.buffer (digitsText base.toNat (num.signExtend 64).toNat ++ [0]) := by
  obtain ⟨out1, hprint, hspec⟩ := @printBase_eq fd (max 65 fuel) out num base hb hb16 (by omega)
  have hmore : printBase (fun s out => vfprintf fd (max 65 fuel) s [] out) num base out = .ok out' :=
    printBase_extends (fun s out out' hs => vfprintf_mono hs (Nat.le_max_right _ _)) h
  rw [hprint] at hmore
  cases hmore
  exact hspec

end

end TpSo.Stdio
