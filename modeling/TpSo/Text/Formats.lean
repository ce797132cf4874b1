import TpSo.Text.Format

set_option autoImplicit false

/-! # Which formats `vfprintf` gets through

`WellFormed` is a grammar of formats, read together with their arguments. Outside of it `vfprintf` stops at an escape
that does not open a bracket, and runs past the end in a sequence without its `m` and at a last `%`. The string
that `%s` prints is a format too, one without arguments. -/

namespace TpSo.Stdio

/-- The formats that find their arguments in a list; `StringOk` is asked of each string printed by `%s`. -/
inductive WellFormed (StringOk : List UInt8 → Prop) : List UInt8 → List VaArg → Prop
  | nil (args : List VaArg) : WellFormed StringOk [] args
  | ordinary {c : UInt8} {format : List UInt8} {args : List VaArg} :
      Ordinary c → WellFormed StringOk format args → WellFormed StringOk (c :: format) args
  | escape {attrs format : List UInt8} {args : List VaArg} :
      'm'.toUInt8 ∉ attrs → WellFormed StringOk format args →
        WellFormed StringOk (ESC :: '['.toUInt8 :: (attrs ++ 'm'.toUInt8 :: format)) args
  | number {conversion : UInt8} {base n : BitVec 32} {format : List UInt8} {args : List VaArg} :
      conversionBase conversion = some base → WellFormed StringOk format args →
        WellFormed StringOk ('%'.toUInt8 :: conversion :: format) (.int n :: args)
  | char {n : BitVec 32} {format : List UInt8} {args : List VaArg} :
      WellFormed StringOk format args →
        WellFormed StringOk ('%'.toUInt8 :: 'c'.toUInt8 :: format) (.int n :: args)
  | string {s format : List UInt8} {args : List VaArg} :
      StringOk s → WellFormed StringOk format args →
        WellFormed StringOk ('%'.toUInt8 :: 's'.toUInt8 :: format) (.str s :: args)
  | other {conversion : UInt8} {format : List UInt8} {args : List VaArg} :
      conversionBase conversion = none → conversion ≠ 'c'.toUInt8 → conversion ≠ 's'.toUInt8 →
        WellFormed StringOk format args → WellFormed StringOk ('%'.toUInt8 :: conversion :: format) args

/-- A format that takes no arguments. -/
def Plain (s : List UInt8) : Prop := WellFormed (fun _ => False) s []

/-- The call comes to its end without reading behind the end of a string. -/
def Returns (fd : Int) (format : List UInt8) (args : List VaArg) (out : Out) : Prop :=
  ∃ fuel out', vfprintf fd fuel format args out = .ok out'

section

variable {fd : Int} {fuel : Nat} {format s attrs : List UInt8} {args : List VaArg} {out out' : Out}
  {StringOk StringOk' : List UInt8 → Prop}

/-! ## Escape sequences -/

theorem attributes_ok (hm : 'm'.toUInt8 ∉ attrs) (prop : UInt8) (out : Out) :
    ∃ out', attributes (attrs ++ 'm'.toUInt8 :: format) prop out = .ok (format, out') := by
  induction attrs generalizing prop out with
  | nil => exact ⟨_, rfl⟩
  | cons c attrs ih =>
    rw [List.mem_cons, not_or] at hm
    rw [List.cons_append, attributes]
    split
    · exact ih hm.2 _ _
    · rw [if_neg (Ne.symm hm.1)]
      exact ih hm.2 _ _

/-- The loop ends at the first `m` only. -/
theorem attributes_of_ok {prop : UInt8} {rest : List UInt8} (h : attributes s prop out = .ok (rest, out')) :
    ∃ attrs, s = attrs ++ 'm'.toUInt8 :: rest ∧ 'm'.toUInt8 ∉ attrs := by
  induction s generalizing prop out with
  | nil => cases h
  | cons c s ih =>
    rw [attributes] at h
    split at h
    · next hsemi =>
      obtain ⟨attrs, rfl, hm⟩ := ih h
      refine ⟨c :: attrs, rfl, ?_⟩
      rw [List.mem_cons, not_or, hsemi]
      exact ⟨by decide, hm⟩
    · split at h
      · next hend =>
        cases h
        exact ⟨[], by rw [hend]; rfl, List.not_mem_nil⟩
      · next hother =>
        obtain ⟨attrs, rfl, hm⟩ := ih h
        refine ⟨c :: attrs, rfl, ?_⟩
        rw [List.mem_cons, not_or]
        exact ⟨Ne.symm hother, hm⟩

/-- `parseANSI` leaves the cursor where it is, or at the end of a whole sequence. -/
theorem parseANSI_of_ok {rest : List UInt8} (h : parseANSI (ESC :: format) out = .ok (rest, out')) :
    rest = ESC :: format ∨
      ∃ attrs, format = '['.toUInt8 :: (attrs ++ 'm'.toUInt8 :: rest) ∧ 'm'.toUInt8 ∉ attrs := by
  cases format with
  | nil =>
    cases h
    exact .inl rfl
  | cons bracket format =>
    rw [parseANSI] at h
    split at h
    · cases h
      exact .inl rfl
    · next hopen =>
      obtain ⟨hbracket, -⟩ := not_or.mp hopen
      obtain ⟨attrs, rfl, hm⟩ := attributes_of_ok h
      exact .inr ⟨attrs, by rw [not_not.mp hbracket], hm⟩

theorem parseANSI_sequence (hm : 'm'.toUInt8 ∉ attrs) (out : Out) :
    ∃ out', parseANSI (ESC :: '['.toUInt8 :: (attrs ++ 'm'.toUInt8 :: format)) out = .ok (format, out') := by
  rw [parseANSI, if_neg (by simp)]
  exact attributes_ok hm 0 out

/-- **An escape that opens no bracket**: `parseANSI` does not move the cursor, and `vfprintf` comes back to it
    forever. -/
theorem vfprintf_lone_escape (h : format.head? ≠ some '['.toUInt8) (fuel : Nat) (out : Out) :
    vfprintf fd fuel (ESC :: format) args out = .error .fuel := by
  induction fuel generalizing out with
  | zero => rfl
  | succ fuel ih =>
    have hstays : parseANSI (ESC :: format) (out.write fd []) = .ok (ESC :: format, out.write fd []) := by
      cases format with
      | nil => rfl
      | cons bracket format =>
        have hbracket : bracket ≠ '['.toUInt8 := fun heq => h (by rw [heq]; rfl)
        rw [parseANSI, if_pos (.inl hbracket)]
    rw [vfprintf_escape, hstays]
    exact ih _

/-! ## Well-formed formats are printed -/

theorem convert_number {f : List UInt8 → Out → Except Stop Out} {conversion : UInt8} {base n : BitVec 32}
    (hbase : conversionBase conversion = some base) (hprint : printBase f n base out = .ok out') :
    convert fd f conversion (.int n :: args) out = .ok (args, out') := by
  simp only [convert, hbase, hprint]

theorem convert_string (f : List UInt8 → Out → Except Stop Out) :
    convert fd f 's'.toUInt8 (.str s :: args) out =
      match f s out with
      | .error stop => .error stop
      | .ok out => .ok (args, out) := rfl

theorem convert_other {f : List UInt8 → Out → Except Stop Out} {conversion : UInt8}
    (hbase : conversionBase conversion = none) (hchar : conversion ≠ 'c'.toUInt8)
    (hstring : conversion ≠ 's'.toUInt8) :
    convert fd f conversion args out =
      .ok (args, if conversion = '%'.toUInt8 then out.write fd ['%'.toUInt8] else out) := by
  simp only [convert, hbase, if_neg hchar, if_neg hstring]
  split
  · rfl
  · rfl

theorem conversionBase_bounds {conversion : UInt8} {base : BitVec 32}
    (h : conversionBase conversion = some base) : 2 ≤ base.toNat ∧ base.toNat ≤ 16 := by
  unfold conversionBase at h
  split_ifs at h <;> cases h <;> decide

theorem printBase_returns {base : BitVec 32} (h : 2 ≤ base.toNat ∧ base.toNat ≤ 16) (n : BitVec 32)
    (out : Out) : ∃ out', ∀ fuel, 65 ≤ fuel →
      printBase (fun s out => vfprintf fd fuel s [] out) n base out = .ok out' := by
  obtain ⟨out', hprint, -⟩ := @printBase_eq fd 65 out n base h.1 h.2 (by decide)
  refine ⟨out', fun fuel hfuel => ?_⟩
  exact printBase_extends (fun s out out' hs => vfprintf_mono hs hfuel) hprint

/-- If every string that `%s` prints returns, so does the whole format. -/
theorem WellFormed.returns (h : WellFormed StringOk format args)
    (hstrings : ∀ s, StringOk s → ∀ out, Returns fd s [] out) (out : Out) : Returns fd format args out := by
  induction h generalizing out with
  | nil args => exact ⟨1, out, rfl⟩
  | ordinary hc _ ih =>
    obtain ⟨fuel, out', hrest⟩ := ih (out.write fd [_])
    exact ⟨fuel + 1, out', by rw [vfprintf_ordinary hc, hrest]⟩
  | escape hm _ ih =>
    obtain ⟨out1, hparse⟩ := parseANSI_sequence hm (out.write fd [])
    obtain ⟨fuel, out', hrest⟩ := ih out1
    exact ⟨fuel + 1, out', by rw [vfprintf_escape, hparse]; exact hrest⟩
  | @number conversion base n format args hbase _ ih =>
    obtain ⟨out1, hprint⟩ := printBase_returns (conversionBase_bounds hbase) n out
    obtain ⟨fuel, out', hrest⟩ := ih out1
    refine ⟨max 65 fuel + 1, out', ?_⟩
    rw [vfprintf_percent, convert_number hbase (hprint _ (Nat.le_max_left _ _))]
    exact vfprintf_mono hrest (Nat.le_max_right _ _)
  | char _ ih =>
    obtain ⟨fuel, out', hrest⟩ := ih (out.write fd [_])
    exact ⟨fuel + 1, out', by rw [vfprintf_percent]; exact hrest⟩
  | @string s format args hs _ ih =>
    obtain ⟨fuel1, out1, hprint⟩ := hstrings s hs out
    obtain ⟨fuel2, out', hrest⟩ := ih out1
    refine ⟨max fuel1 fuel2 + 1, out', ?_⟩
    rw [vfprintf_percent, convert_string, vfprintf_mono hprint (Nat.le_max_left _ _)]
    exact vfprintf_mono hrest (Nat.le_max_right _ _)
  | @other conversion format args hbase hchar hstring _ ih =>
    obtain ⟨fuel, out', hrest⟩ :=
      ih (if conversion = '%'.toUInt8 then out.write fd ['%'.toUInt8] else out)
    exact ⟨fuel + 1, out', by rw [vfprintf_percent, convert_other hbase hchar hstring]; exact hrest⟩

/-! ## What is printed was well-formed -/

/-- A conversion that returns found its argument, if it takes one. -/
theorem convert_of_ok {f : List UInt8 → Out → Except Stop Out} {conversion : UInt8} {rest : List VaArg}
    (h : convert fd f conversion args out = .ok (rest, out'))
    (hf : ∀ s out out', f s out = .ok out' → StringOk s) (hrest : WellFormed StringOk format rest) :
    WellFormed StringOk ('%'.toUInt8 :: conversion :: format) args := by
  unfold convert at h
  split at h
  · next base hbase =>
    split at h
    · split at h
      · cases h
      · cases h
        exact .number hbase hrest
    · cases h
  · next hbase =>
    by_cases hchar : conversion = 'c'.toUInt8
    · rw [if_pos hchar] at h
      split at h
      · cases h
        rw [hchar]
        exact .char hrest
      · cases h
    · rw [if_neg hchar] at h
      by_cases hstring : conversion = 's'.toUInt8
      · rw [if_pos hstring] at h
        split at h
        · split at h
          · cases h
          · next hprint =>
            cases h
            rw [hstring]
            exact .string (hf _ _ _ hprint) hrest
        · cases h
      · rw [if_neg hstring] at h
        have hsame : rest = args := by
          split at h <;> cases h <;> rfl
        rw [← hsame]
        exact .other hbase hchar hstring hrest

theorem WellFormed.mono (h : WellFormed StringOk format args) (hmono : ∀ s, StringOk s → StringOk' s) :
    WellFormed StringOk' format args := by
  induction h with
  | nil args => exact .nil args
  | ordinary hc _ ih => exact .ordinary hc ih
  | escape hm _ ih => exact .escape hm ih
  | number hbase _ ih => exact .number hbase ih
  | char _ ih => exact .char ih
  | string hs _ ih => exact .string (hmono _ hs) ih
  | other hbase hchar hstring _ ih => exact .other hbase hchar hstring ih

/-- Without arguments no string is printed. -/
theorem WellFormed.plain (h : WellFormed StringOk format args) (hargs : args = []) : Plain format := by
  induction h with
  | nil args => exact .nil []
  | ordinary hc _ ih => exact .ordinary hc (ih hargs)
  | escape hm _ ih => exact .escape hm (ih hargs)
  | number _ _ _ => cases hargs
  | char _ _ => cases hargs
  | string _ _ _ => cases hargs
  | other hbase hchar hstring _ ih => exact .other hbase hchar hstring (ih hargs)

/-- A call that returns was given a well-formed format. -/
theorem wellFormed_of_ok (h : vfprintf fd fuel format args out = .ok out') :
    WellFormed (fun s => ∃ fuel out out', vfprintf fd fuel s [] out = .ok out') format args := by
  induction fuel generalizing format args out out' with
  | zero => cases h
  | succ fuel ih =>
    cases format with
    | nil => exact .nil args
    | cons c rest =>
      rcases ordinary_cases c with rfl | rfl | hc
      · rw [vfprintf_escape] at h
        split at h
        · cases h
        · next format out1 hparse =>
          rcases parseANSI_of_ok hparse with rfl | ⟨attrs, rfl, hm⟩
          · exact ih h
          · exact .escape hm (ih h)
      · cases rest with
        | nil => cases h
        | cons conversion rest =>
          rw [vfprintf_percent] at h
          split at h
          · cases h
          · next args1 out1 hconvert =>
            exact convert_of_ok hconvert (fun s out out' hs => ⟨fuel, out, out', hs⟩) (ih h)
      · rw [vfprintf_ordinary hc] at h
        exact .ordinary hc (ih h)

theorem Plain.returns (h : Plain s) (out : Out) : Returns fd s [] out :=
  WellFormed.returns h (fun _ hfalse => hfalse.elim) out

end

/-- **Totality.** `vfprintf` comes to its end, and stays in front of the NUL, exactly on the well-formed
    formats. -/
theorem vfprintf_returns_iff (fd : Int) (format : List UInt8) (args : List VaArg) (out : Out) :
    Returns fd format args out ↔ WellFormed Plain format args := by
  constructor
  · rintro ⟨fuel, out', h⟩
    apply (wellFormed_of_ok h).mono
    rintro s ⟨fuel, out, out', hs⟩
    exact (wellFormed_of_ok hs).plain rfl
  · intro h
    exact h.returns (fun s hs out => hs.returns out) out

/-- `printf` of a lone escape character never ends. -/
theorem vfprintf_not_total :
    ¬ ∀ (format : List UInt8) (out : Out), Returns FD_STDOUT format [] out := by
  intro htotal
  obtain ⟨fuel, out', h⟩ := htotal [ESC] {}
  rw [vfprintf_lone_escape (by decide)] at h
  cases h

-- A sequence without its `m`, and a last `%`, are read past their end.
example : vfprintf FD_STDOUT 3 [ESC, '['.toUInt8, '3'.toUInt8, '1'.toUInt8] [] {} = .error .pastEnd := rfl
example : vfprintf FD_STDOUT 3 ['5'.toUInt8, '%'.toUInt8] [] {} = .error .pastEnd := rfl

end TpSo.Stdio
