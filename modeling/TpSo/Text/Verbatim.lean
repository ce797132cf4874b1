import TpSo.Text.Formats

set_option autoImplicit false

/-! # Printing strings verbatim

A format of literal characters, `%c`, `%s` and `%%`, together with the arguments it takes, is a list of pieces. A
string goes through `vfprintf` once more as a format of its own: a `%` in it is never printed as it stands, and
shortens what is written. -/

namespace TpSo.Stdio

/-- A literal character, or a conversion with its argument. -/
inductive Piece
  | literal (c : UInt8) (h : c ≠ 0 ∧ Ordinary c)
  | char (n : BitVec 32)
  | string (s : List UInt8) (h : ∀ c ∈ s, c ≠ 0 ∧ c ≠ ESC)
  | percent

namespace Piece

/-- The piece in the format. -/
def format : Piece → List UInt8
  | .literal c _ => [c]
  | .char _ => ['%'.toUInt8, 'c'.toUInt8]
  | .string _ _ => ['%'.toUInt8, 's'.toUInt8]
  | .percent => ['%'.toUInt8, '%'.toUInt8]

/-- The arguments it takes. -/
def args : Piece → List VaArg
  | .literal _ _ => []
  | .char n => [.int n]
  | .string s _ => [.str s]
  | .percent => []

/-- What it stands for. -/
def verbatim : Piece → List UInt8
  | .literal c _ => [c]
  | .char n => [UInt8.ofBitVec (n.truncate 8)]
  | .string s _ => s
  | .percent => ['%'.toUInt8]

/-- A string with a `%` in it. -/
def HasPercent : Piece → Prop
  | .string s _ => '%'.toUInt8 ∈ s
  | .literal _ _ | .char _ | .percent => False

end Piece

section

variable {fd : Int} {fuel : Nat} {s : List UInt8} {args : List VaArg} {out out' : Out}

/-! ## A string as a format -/

theorem convert_nil_of_ok {f : List UInt8 → Out → Except Stop Out} {conversion : UInt8} {rest : List VaArg}
    (h : convert fd f conversion [] out = .ok (rest, out')) :
    rest = [] ∧ out'.text.length ≤ out.text.length + 1 := by
  unfold convert at h
  split at h
  · cases h
  · by_cases hchar : conversion = 'c'.toUInt8
    · rw [if_pos hchar] at h
      cases h
    · rw [if_neg hchar] at h
      by_cases hstring : conversion = 's'.toUInt8
      · rw [if_pos hstring] at h
        cases h
      · rw [if_neg hstring] at h
        split at h
        · cases h
          exact ⟨rfl, by simp⟩
        · cases h
          exact ⟨rfl, Nat.le_succ _⟩

/-- Printed as a format, a string gets no longer, and shorter if there is a `%` in it. -/
theorem vfprintf_length (hs : ESC ∉ s) (h : vfprintf fd fuel s [] out = .ok out') :
    out'.text.length ≤ out.text.length + s.length ∧
    ('%'.toUInt8 ∈ s → out'.text.length < out.text.length + s.length) := by
  induction fuel generalizing s out with
  | zero => cases h
  | succ fuel ih =>
    cases s with
    | nil =>
      cases h
      exact ⟨Nat.le_refl _, fun hmem => absurd hmem List.not_mem_nil⟩
    | cons c s =>
      rw [List.mem_cons, not_or] at hs
      rcases ordinary_cases c with rfl | rfl | hc
      · exact absurd rfl hs.1
      · cases s with
        | nil => cases h
        | cons conversion s =>
          have hs' : ESC ∉ s := fun hmem => hs.2 (List.mem_cons_of_mem _ hmem)
          rw [vfprintf_percent] at h
          split at h
          · cases h
          · next args1 out1 hconvert =>
            obtain ⟨rfl, hstep⟩ := convert_nil_of_ok hconvert
            have hrest := (ih hs' h).1
            rw [List.length_cons, List.length_cons]
            exact ⟨by omega, fun _ => by omega⟩
      · rw [vfprintf_ordinary hc] at h
        obtain ⟨hle, hlt⟩ := ih hs.2 h
        rw [Out.write_text, List.length_append, List.length_singleton] at hle hlt
        rw [List.length_cons]
        refine ⟨by omega, fun hmem => ?_⟩
        have hrest := hlt ((List.mem_cons.mp hmem).resolve_left hc.2.symm)
        omega

/-! ## A format of pieces -/

theorem vfprintf_char (n : BitVec 32) {format : List UInt8} :
    vfprintf fd (fuel + 1) ('%'.toUInt8 :: 'c'.toUInt8 :: format) (.int n :: args) out =
      vfprintf fd fuel format args (out.write fd [UInt8.ofBitVec (n.truncate 8)]) := rfl

theorem vfprintf_percent_percent {format : List UInt8} :
    vfprintf fd (fuel + 1) ('%'.toUInt8 :: '%'.toUInt8 :: format) args out =
      vfprintf fd fuel format args (out.write fd ['%'.toUInt8]) := rfl

/-- A string is printed by a call of its own. -/
theorem vfprintf_string_of_ok {format : List UInt8}
    (h : vfprintf fd (fuel + 1) ('%'.toUInt8 :: 's'.toUInt8 :: format) (.str s :: args) out = .ok out') :
    ∃ out1, vfprintf fd fuel s [] out = .ok out1 ∧ vfprintf fd fuel format args out1 = .ok out' := by
  rw [vfprintf_percent, convert_string] at h
  cases hs : vfprintf fd fuel s [] out with
  | error stop =>
    rw [hs] at h
    cases h
  | ok out1 =>
    rw [hs] at h
    exact ⟨out1, rfl, h⟩

/-- **One piece**: it writes no more than it stands for, and less if it has a `%`. -/
theorem piece_of_ok {p : Piece} {format : List UInt8}
    (h : vfprintf fd (fuel + 1) (p.format ++ format) (p.args ++ args) out = .ok out') :
    ∃ out1, vfprintf fd fuel format args out1 = .ok out' ∧
      out1.text.length ≤ out.text.length + p.verbatim.length ∧
      (p.HasPercent → out1.text.length < out.text.length + p.verbatim.length) := by
  cases p with
  | literal c hc =>
    refine ⟨out.write fd [c], (vfprintf_ordinary hc.2).symm.trans h, ?_, fun hfalse => hfalse.elim⟩
    simp [Piece.verbatim]
  | char n =>
    refine ⟨_, (vfprintf_char n).symm.trans h, ?_, fun hfalse => hfalse.elim⟩
    simp [Piece.verbatim]
  | percent =>
    refine ⟨_, vfprintf_percent_percent.symm.trans h, ?_, fun hfalse => hfalse.elim⟩
    simp [Piece.verbatim]
  | string s hs =>
    obtain ⟨out1, hprint, hrest⟩ := vfprintf_string_of_ok h
    obtain ⟨hle, hlt⟩ := vfprintf_length (fun hesc => (hs ESC hesc).2 rfl) hprint
    exact ⟨out1, hrest, hle, hlt⟩

/-- A list of pieces. -/
theorem pieces_of_ok {ps : List Piece}
    (h : vfprintf fd fuel (ps.flatMap Piece.format) (ps.flatMap Piece.args) out = .ok out') :
    out'.text.length ≤ out.text.length + (ps.flatMap Piece.verbatim).length ∧
    ((∃ p ∈ ps, p.HasPercent) →
      out'.text.length < out.text.length + (ps.flatMap Piece.verbatim).length) := by
  induction ps generalizing fuel out with
  | nil =>
    cases fuel with
    | zero => cases h
    | succ fuel =>
      cases h
      refine ⟨Nat.le_refl _, ?_⟩
      rintro ⟨p, hp, -⟩
      cases hp
  | cons p ps ih =>
    cases fuel with
    | zero => cases h
    | succ fuel =>
      rw [List.flatMap_cons, List.flatMap_cons] at h
      obtain ⟨out1, hrest, hle, hlt⟩ := piece_of_ok h
      obtain ⟨hle', hlt'⟩ := ih hrest
      rw [List.flatMap_cons, List.length_append]
      refine ⟨by omega, ?_⟩
      rintro ⟨q, hq, hpercent⟩
      rcases List.mem_cons.mp hq with rfl | hq
      · have hhere := hlt hpercent
        omega
      · have hlater := hlt' ⟨q, hq, hpercent⟩
        omega

/-- A piece without a `%` is printed as it is, in as many rounds as it has characters. -/
theorem piece_ok {p : Piece} (h : ¬ p.HasPercent) {format : List UInt8}
    (hfuel : p.verbatim.length < fuel) (out : Out) :
    ∃ out1, out1.text = out.text ++ p.verbatim ∧
      vfprintf fd (fuel + 1) (p.format ++ format) (p.args ++ args) out = vfprintf fd fuel format args out1 := by
  cases p with
  | literal c hc => exact ⟨out.write fd [c], by simp [Piece.verbatim], vfprintf_ordinary hc.2⟩
  | char n => exact ⟨_, by simp [Piece.verbatim], vfprintf_char n⟩
  | percent => exact ⟨_, by simp [Piece.verbatim], vfprintf_percent_percent⟩
  | string s hs =>
    have hplain : ∀ c ∈ s, Ordinary c := by
      intro c hc
      refine ⟨(hs c hc).2, fun heq => h ?_⟩
      show '%'.toUInt8 ∈ s
      rw [← heq]
      exact hc
    have hprint : vfprintf fd fuel s [] out = .ok (out.writes fd s) := vfprintf_plain hplain hfuel
    refine ⟨out.writes fd s, by simp [Piece.verbatim], ?_⟩
    show vfprintf fd (fuel + 1) ('%'.toUInt8 :: 's'.toUInt8 :: format) (.str s :: args) out = _
    rw [vfprintf_percent, convert_string, hprint]

theorem pieces_ok {ps : List Piece} (h : ∀ p ∈ ps, ¬ p.HasPercent)
    (hfuel : ps.length + (ps.flatMap Piece.verbatim).length < fuel) (out : Out) :
    ∃ out', vfprintf fd fuel (ps.flatMap Piece.format) (ps.flatMap Piece.args) out = .ok out' ∧
      out'.text = out.text ++ ps.flatMap Piece.verbatim := by
  induction ps generalizing fuel out with
  | nil =>
    cases fuel with
    | zero => exact absurd hfuel (Nat.not_lt_zero _)
    | succ fuel => exact ⟨out, rfl, by simp⟩
  | cons p ps ih =>
    cases fuel with
    | zero => exact absurd hfuel (Nat.not_lt_zero _)
    | succ fuel =>
      simp only [List.flatMap_cons, List.length_append, List.length_cons] at hfuel ⊢
      have hpiece : p.verbatim.length < fuel := by omega
      have hothers : ps.length + (ps.flatMap Piece.verbatim).length < fuel := by omega
      obtain ⟨out1, htext, hstep⟩ := @piece_ok fd fuel (ps.flatMap Piece.args) p
        (h p List.mem_cons_self) (ps.flatMap Piece.format) hpiece out
      obtain ⟨out', hrest, htext'⟩ := ih (fun q hq => h q (List.mem_cons_of_mem _ hq)) hothers out1
      exact ⟨out', hstep.trans hrest, by rw [htext', htext, List.append_assoc]⟩

end

/-- The call writes the format with each conversion replaced by its argument. -/
def PrintsVerbatim (fd : Int) (ps : List Piece) (out : Out) : Prop :=
  ∃ fuel out', vfprintf fd fuel (ps.flatMap Piece.format) (ps.flatMap Piece.args) out = .ok out' ∧
    out'.text = out.text ++ ps.flatMap Piece.verbatim

/-- **Conversions.** A format is printed as it should be exactly if no string that it prints has a `%` in it. -/
theorem vfprintf_verbatim_iff (fd : Int) (ps : List Piece) (out : Out) :
    PrintsVerbatim fd ps out ↔ ∀ p ∈ ps, ¬ p.HasPercent := by
  constructor
  · rintro ⟨fuel, out', h, htext⟩ p hp hpercent
    have hlt := (pieces_of_ok h).2 ⟨p, hp, hpercent⟩
    rw [htext, List.length_append] at hlt
    exact absurd hlt (Nat.lt_irrefl _)
  · intro h
    obtain ⟨out', hrun, htext⟩ := pieces_ok h (Nat.lt_succ_self _) out
    exact ⟨_, out', hrun, htext⟩

/-- The string `%%` comes out as `%`. -/
theorem printf_not_verbatim : ¬ ∀ (ps : List Piece) (out : Out), PrintsVerbatim FD_STDOUT ps out := by
  intro hall
  have hpercent : '%'.toUInt8 ≠ 0 ∧ '%'.toUInt8 ≠ ESC := by decide
  obtain ⟨fuel, out', h, htext⟩ := hall [.string ['%'.toUInt8, '%'.toUInt8] (by simp [hpercent])] {}
  have hlt := (pieces_of_ok h).2 ⟨_, List.mem_cons_self, List.mem_cons_self⟩
  rw [htext, List.length_append] at hlt
  exact absurd hlt (Nat.lt_irrefl _)

-- What it prints instead.
example : (printf 4 ['%'.toUInt8, 's'.toUInt8] [.str ['%'.toUInt8, '%'.toUInt8]] {}).map Out.text =
    .ok ['%'.toUInt8] := rfl

end TpSo.Stdio
