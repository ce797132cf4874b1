import Mathlib.Algebra.Order.Group.Unbundled.Int
import Mathlib.Logic.Function.Iterate
import TpSo.Terminal.OnScreen

set_option autoImplicit false

/-! # The tabulator

The loop of a tabulator draws blanks until the cursor is at a multiple of four cells. From a column that
is not a multiple of the cell, as a change of the font size leaves it, there is no such place on the
present line: the loop goes on to the next one, where it begins at the margin. -/

namespace TpSo.Terminal

variable {font : Int → BitVec 8} {w : Window} {t t' : Fonts}

/-- The first multiple of four cells behind the cursor. -/
def Fonts.tabStop (t : Fonts) : Int :=
  (t.xBufferPosition / (TAB_SIZE * t.glyphWidth : Nat) + 1) * (TAB_SIZE * t.glyphWidth : Nat)

@[simp] theorem putGlyph_glyphWidth (ascii : BitVec 8) (t : Fonts) :
    (putGlyph font w ascii t).glyphWidth = t.glyphWidth := by
  simp only [Fonts.glyphWidth, putGlyph_fontSize]

/-- A glyph that the line has room for is drawn at the cursor, and the cursor moves behind it. -/
theorem putGlyph_fits (h : t.xBufferPosition + t.glyphWidth ≤ w.width) (ascii : BitVec 8) :
    (putGlyph font w ascii t).xBufferPosition = t.xBufferPosition + t.glyphWidth ∧
      (putGlyph font w ascii t).yBufferPosition = t.yBufferPosition := by
  have hfits : ¬ t.xBufferPosition + t.glyphWidth > w.width := by omega
  refine ⟨by rw [putGlyph_x, drawColumn, if_neg hfits], ?_⟩
  obtain ⟨ps, hps⟩ := renderAscii_eq (wrapped w t) ascii
    (toUInt64 (wrapped w t).xBufferPosition) (toUInt64 (wrapped w t).yBufferPosition)
  rw [putGlyph_eq, hps]
  simp only [wrapped, if_neg hfits]

/-- All that the loop does is to draw blanks. -/
theorem spacesToTab_blanks {fuel : Nat} (h : spacesToTab font w fuel t = some t') :
    ∃ n, t' = (putGlyph font w 32)^[n] t := by
  induction fuel generalizing t with
  | zero => cases h
  | succ fuel ih =>
    rw [spacesToTab] at h
    split at h
    · obtain ⟨n, hn⟩ := ih h
      exact ⟨n + 1, hn⟩
    · cases h
      exact ⟨1, rfl⟩

/-- With `n` cells to go the loop draws `n` blanks, on the present line. -/
theorem spacesToTab_cells {n : Nat} (hpos : 0 < n) (hle : n ≤ TAB_SIZE) (fuel : Nat)
    (hstop : ((TAB_SIZE * t.glyphWidth : Nat) : Int) ∣ t.xBufferPosition + (n * t.glyphWidth : Nat))
    (hroom : t.xBufferPosition + (n * t.glyphWidth : Nat) ≤ w.width) :
    spacesToTab font w (fuel + n) t = some ((putGlyph font w 32)^[n] t) ∧
      ((putGlyph font w 32)^[n] t).xBufferPosition = t.xBufferPosition + (n * t.glyphWidth : Nat) ∧
      ((putGlyph font w 32)^[n] t).yBufferPosition = t.yBufferPosition := by
  induction n generalizing t with
  | zero => omega
  | succ n ih =>
    have hglyph := t.glyphWidth_bounds
    rw [Nat.succ_mul] at hstop hroom ⊢
    obtain ⟨hx, hy⟩ : (putGlyph font w 32 t).xBufferPosition = t.xBufferPosition + t.glyphWidth ∧
        (putGlyph font w 32 t).yBufferPosition = t.yBufferPosition := putGlyph_fits (by omega) 32
    have harrange : t.xBufferPosition + (n * t.glyphWidth + t.glyphWidth : Nat) =
        (putGlyph font w 32 t).xBufferPosition + (n * t.glyphWidth : Nat) := by
      rw [hx]
      omega
    rw [harrange] at hstop hroom ⊢
    rw [← Nat.add_assoc, spacesToTab, Function.iterate_succ_apply]
    simp only [putGlyph_glyphWidth]
    rcases Nat.eq_zero_or_pos n with rfl | hn
    · rw [Nat.zero_mul, Int.natCast_zero, Int.add_zero] at hstop ⊢
      rw [Int.tmod_eq_zero_of_dvd hstop, if_neg (by simp)]
      exact ⟨rfl, rfl, hy⟩
    · -- less than four cells are left, so the loop cannot stop here
      have hoff : (putGlyph font w 32 t).xBufferPosition.tmod (TAB_SIZE * t.glyphWidth : Nat) ≠ 0 := by
        intro hzero
        have hcells := (Int.dvd_add_right (Int.dvd_of_tmod_eq_zero hzero)).mp hstop
        have hshort : n * t.glyphWidth < TAB_SIZE * t.glyphWidth :=
          Nat.mul_lt_mul_of_pos_right (by omega) (by omega)
        have hleft : 0 < n * t.glyphWidth := Nat.mul_pos hn (by omega)
        exact absurd (Nat.le_of_dvd hleft (Int.natCast_dvd_natCast.mp hcells)) (by omega)
      have hrest := ih (t := putGlyph font w 32 t) hn (by omega)
      rw [putGlyph_glyphWidth, hy] at hrest
      rw [if_pos hoff]
      exact hrest hstop hroom

/-- The number of cells up to the next tab stop. -/
theorem tabStop_eq {k : Nat} (hx : t.xBufferPosition = (k * t.glyphWidth : Nat)) :
    t.tabStop = t.xBufferPosition + ((TAB_SIZE - k % TAB_SIZE) * t.glyphWidth : Nat) := by
  have hglyph := t.glyphWidth_bounds
  have hdiv : t.xBufferPosition / (TAB_SIZE * t.glyphWidth : Nat) = (k / TAB_SIZE : Nat) := by
    rw [hx, ← Int.natCast_ediv, Nat.mul_div_mul_right _ _ (by omega)]
  have hcells : (k / TAB_SIZE + 1) * TAB_SIZE = k + (TAB_SIZE - k % TAB_SIZE) := by
    simp only [TAB_SIZE]
    omega
  rw [Fonts.tabStop, hdiv, hx]
  norm_cast
  rw [← Nat.mul_assoc, hcells, Nat.add_mul]

theorem putChar_tab (t : Fonts) :
    putChar font w TABULATOR_CHAR t = spacesToTab font w (w.width + TAB_SIZE + 1) t := rfl

/-- **The tabulator** comes to an end, from any column. On a line of whole cells it draws one to four
    blanks, up to the next tab stop, if that is still on the line. -/
theorem tab_expansion (font : Int → BitVec 8) (w : Window)
    (hw : TAB_SIZE * DEFAULT_GLYPH_SIZE_X * 10 ≤ w.width) (t : Fonts) (hx : 0 ≤ t.xBufferPosition) :
    (∃ n, putChar font w TABULATOR_CHAR t = some ((putGlyph font w 32)^[n] t)) ∧
    ((t.glyphWidth : Int) ∣ t.xBufferPosition → t.tabStop ≤ w.width →
      ∃ n, 1 ≤ n ∧ n ≤ 4 ∧ putChar font w TABULATOR_CHAR t = some ((putGlyph font w 32)^[n] t) ∧
        ((putGlyph font w 32)^[n] t).xBufferPosition = t.tabStop ∧
        ((putGlyph font w 32)^[n] t).yBufferPosition = t.yBufferPosition) := by
  have hwidth : 320 ≤ w.width := hw
  rw [putChar_tab]
  constructor
  · have hends : (spacesToTab font w (w.width + TAB_SIZE + 1) t).isSome :=
      spacesToTab_isSome hwidth hx (by omega) (by omega)
    obtain ⟨t', ht'⟩ := Option.isSome_iff_exists.mp hends
    obtain ⟨n, rfl⟩ := spacesToTab_blanks ht'
    exact ⟨n, ht'⟩
  · intro hdvd hroom
    obtain ⟨k, hk⟩ : ∃ k : Nat, t.xBufferPosition = (k * t.glyphWidth : Nat) := by
      obtain ⟨k, hk⟩ := Int.eq_ofNat_of_zero_le hx
      rw [hk] at hdvd ⊢
      obtain ⟨m, hm⟩ := Int.natCast_dvd_natCast.mp hdvd
      exact ⟨m, by rw [hm, Nat.mul_comm]⟩
    have hstop := tabStop_eq hk
    have hcells : 0 < TAB_SIZE - k % TAB_SIZE ∧ TAB_SIZE - k % TAB_SIZE ≤ TAB_SIZE := by
      simp only [TAB_SIZE]
      omega
    generalize TAB_SIZE - k % TAB_SIZE = n at hstop hcells
    have hon : ((TAB_SIZE * t.glyphWidth : Nat) : Int) ∣ t.xBufferPosition + (n * t.glyphWidth : Nat) := by
      rw [← hstop]
      exact Int.dvd_mul_left ..
    have hfits : t.xBufferPosition + (n * t.glyphWidth : Nat) ≤ w.width := by
      rw [← hstop]
      exact hroom
    obtain ⟨hspaces, hend, hline⟩ :=
      spacesToTab_cells hcells.1 hcells.2 (w.width + TAB_SIZE + 1 - n) hon hfits
    rw [Nat.sub_add_cancel (by omega)] at hspaces
    exact ⟨_, hcells.1, hcells.2, hspaces, hend.trans hstop.symm, hline⟩

/-- From the third cell of a line one blank goes to the tab stop. -/
theorem tab_expansion_third : ∃ n, 1 ≤ n ∧ n ≤ 4 ∧
    putChar (fun _ => 0) smallWindow TABULATOR_CHAR { Fonts.boot with xBufferPosition := 24 } =
      some ((putGlyph (fun _ => 0) smallWindow 32)^[n] { Fonts.boot with xBufferPosition := 24 }) ∧
    ((putGlyph (fun _ => 0) smallWindow 32)^[n]
      { Fonts.boot with xBufferPosition := 24 }).xBufferPosition = 32 := by
  obtain ⟨n, hpos, hle, hchar, hstop, -⟩ := (tab_expansion (fun _ => 0) smallWindow (by decide)
    { Fonts.boot with xBufferPosition := 24 } (by decide)).2 (by decide) (by decide)
  exact ⟨n, hpos, hle, hchar, hstop⟩

end TpSo.Terminal
