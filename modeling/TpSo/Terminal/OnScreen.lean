import Mathlib.Tactic.SplitIfs
import TpSo.Library.Run
import TpSo.Terminal.Fonts

set_option autoImplicit false

/-! # Drawing on the screen

`Placed` says that the next glyph, or the first one of the next line, fits into the window. Every call keeps it
but two: `setFontSize` does not scroll as `increaseFontSize` does, and `retractPosition` steps back by a
glyph of the present size, over one that was drawn in another. -/

namespace TpSo.Terminal

variable {font : Int → BitVec 8} {w : Window} {t t' : Fonts}

/-- The glyph at the cursor ends above the bottom of the window, and so does the present line. -/
structure Placed (w : Window) (t : Fonts) : Prop where
  x_nonneg : 0 ≤ t.xBufferPosition
  y_nonneg : 0 ≤ t.yBufferPosition
  glyph_le : t.yBufferPosition + t.glyphHeight ≤ w.height
  line_le : t.yBufferPosition + t.maxGlyphSizeYOnLine ≤ w.height

/-- Every pixel drawn is one of the window's. -/
def OnScreen (w : Window) (t : Fonts) : Prop := ∀ p ∈ t.pixels, p.x < w.width ∧ p.y < w.height

theorem Fonts.glyphWidth_bounds (t : Fonts) : 8 ≤ t.glyphWidth ∧ t.glyphWidth ≤ 80 := by
  have hpos := t.fontSize_pos
  have hle := t.fontSize_le
  simp only [Fonts.glyphWidth, DEFAULT_GLYPH_SIZE_X]
  omega

theorem Fonts.glyphHeight_eq (t : Fonts) : t.glyphHeight = t.glyphWidth := rfl

theorem toUInt64_of_nonneg {i : Int} (h0 : 0 ≤ i) (h : i < 2 ^ 64) : (toUInt64 i : Int) = i := by
  simp only [toUInt64]
  omega

/-! ## Drawing -/

@[simp] theorem renderFromBitmap_x (bitmap : Int) (x y : Nat) :
    (renderFromBitmap font t bitmap x y).xBufferPosition = t.xBufferPosition := rfl

/-- A glyph that fits at `x`, `y` is drawn on the screen. -/
theorem renderAscii_onScreen (h : OnScreen w t) {ascii : BitVec 8} {x y : Nat}
    (hx : x + t.glyphWidth ≤ w.width) (hy : y + t.glyphHeight ≤ w.height) :
    OnScreen w (renderAscii font t ascii x y) := by
  have hwidth := w.width_lt
  have hheight := w.height_lt
  rw [renderAscii]
  split
  · intro p hp
    simp only [renderFromBitmap, List.mem_append, List.mem_reverse, List.mem_flatMap, List.mem_map,
      List.mem_range] at hp
    rcases hp with ⟨dx, hdx, dy, hdy, rfl⟩ | hold
    · have hxs : Int.bmod (x + dx : Nat) (2 ^ 32) = (x + dx : Nat) :=
        Int.bmod_eq_of_le (by omega) (by omega)
      simp only [hxs, toUInt64]
      omega
    · exact h p hold
  · exact h

/-- Drawing a glyph changes nothing but the list of pixels. -/
theorem renderAscii_eq (t : Fonts) (ascii : BitVec 8) (x y : Nat) :
    ∃ ps, renderAscii font t ascii x y = { t with pixels := ps } := by
  rw [renderAscii]
  split
  · exact ⟨_, rfl⟩
  · exact ⟨_, rfl⟩

/-- The variables after a glyph is drawn and the cursor is at `x`. -/
theorem Placed.drawn (h : Placed w t) {ascii : BitVec 8} {x y : Nat} {column : Int}
    (hcolumn : 0 ≤ column) :
    Placed w { renderAscii font t ascii x y with xBufferPosition := column } := by
  obtain ⟨ps, hps⟩ := renderAscii_eq t ascii x y
  rw [hps]
  exact ⟨hcolumn, h.y_nonneg, h.glyph_le, h.line_le⟩

/-! ## The cursor -/

@[simp] theorem scrollBufferPositionIfNeeded_x (t : Fonts) :
    (scrollBufferPositionIfNeeded w t).xBufferPosition = t.xBufferPosition := by
  unfold scrollBufferPositionIfNeeded
  split <;> rfl

@[simp] theorem scrollBufferPositionIfNeeded_pixels (t : Fonts) :
    (scrollBufferPositionIfNeeded w t).pixels = t.pixels := by
  unfold scrollBufferPositionIfNeeded
  split <;> rfl

@[simp] theorem scrollBufferPositionIfNeeded_fontSize (t : Fonts) :
    (scrollBufferPositionIfNeeded w t).fontSize = t.fontSize := by
  unfold scrollBufferPositionIfNeeded
  split <;> rfl

@[simp] theorem newLine_x (t : Fonts) : (newLine w t).xBufferPosition = 0 := by simp [newLine]

@[simp] theorem newLine_pixels (t : Fonts) : (newLine w t).pixels = t.pixels := by simp [newLine]

@[simp] theorem newLine_fontSize (t : Fonts) : (newLine w t).fontSize = t.fontSize := by
  simp [newLine]

/-- Scrolling once is enough for a glyph that starts in the window. -/
theorem Placed.of_scroll (hh : 320 ≤ w.height) (hx : 0 ≤ t.xBufferPosition)
    (hy0 : 0 ≤ t.yBufferPosition) (hy : t.yBufferPosition ≤ w.height)
    (hline : t.yBufferPosition + t.maxGlyphSizeYOnLine ≤ w.height ∨
      t.maxGlyphSizeYOnLine = t.glyphHeight) :
    Placed w (scrollBufferPositionIfNeeded w t) := by
  have hbounds := t.glyphHeight_le
  unfold scrollBufferPositionIfNeeded
  split
  · next hscroll =>
    refine ⟨hx, ?_, ?_, ?_⟩
    · show 0 ≤ t.yBufferPosition - t.glyphHeight
      omega
    · show t.yBufferPosition - t.glyphHeight + t.glyphHeight ≤ w.height
      omega
    · show t.yBufferPosition - t.glyphHeight + t.maxGlyphSizeYOnLine ≤ w.height
      omega
  · next hscroll => exact ⟨hx, hy0, by omega, by omega⟩

theorem Placed.newLine (hh : 320 ≤ w.height) (h : Placed w t) : Placed w (newLine w t) := by
  have hy0 := h.y_nonneg
  apply Placed.of_scroll hh
  · exact le_rfl
  · show 0 ≤ t.yBufferPosition + t.maxGlyphSizeYOnLine
    omega
  · exact h.line_le
  · exact .inr rfl

/-- The column that `putGlyph` draws in. -/
def drawColumn (w : Window) (t : Fonts) : Int :=
  if t.xBufferPosition + t.glyphWidth > w.width then 0 else t.xBufferPosition

theorem drawColumn_bounds (hw : 320 ≤ w.width) (h : 0 ≤ t.xBufferPosition) :
    0 ≤ drawColumn w t ∧ drawColumn w t + t.glyphWidth ≤ w.width := by
  have hbounds := t.glyphWidth_bounds
  unfold drawColumn
  split <;> omega

/-- The variables when `putGlyph` comes to draw. -/
def wrapped (w : Window) (t : Fonts) : Fonts :=
  if t.xBufferPosition + t.glyphWidth > w.width then newLine w { t with dirtyLine := true }
  else { t with dirtyLine := true }

theorem wrapped_x (t : Fonts) : (wrapped w t).xBufferPosition = drawColumn w t := by
  unfold wrapped drawColumn
  split
  · simp
  · rfl

theorem wrapped_fontSize (t : Fonts) : (wrapped w t).fontSize = t.fontSize := by
  unfold wrapped
  split
  · simp
  · rfl

theorem wrapped_pixels (t : Fonts) : (wrapped w t).pixels = t.pixels := by
  unfold wrapped
  split
  · simp
  · rfl

theorem Placed.wrapped (hh : 320 ≤ w.height) (h : Placed w t) : Placed w (wrapped w t) := by
  have hdirty : Placed w { t with dirtyLine := true } :=
    ⟨h.x_nonneg, h.y_nonneg, h.glyph_le, h.line_le⟩
  unfold Terminal.wrapped
  split
  · exact hdirty.newLine hh
  · exact hdirty

/-- The glyph is drawn at the cursor of `wrapped`, which then moves past it. -/
theorem putGlyph_eq (ascii : BitVec 8) (t : Fonts) :
    putGlyph font w ascii t =
      { renderAscii font (wrapped w t) ascii (toUInt64 (wrapped w t).xBufferPosition)
          (toUInt64 (wrapped w t).yBufferPosition) with
        xBufferPosition := drawColumn w t + t.glyphWidth } := by
  obtain ⟨ps, hps⟩ := renderAscii_eq (wrapped w t) ascii
    (toUInt64 (wrapped w t).xBufferPosition) (toUInt64 (wrapped w t).yBufferPosition)
  have hunfold : putGlyph font w ascii t =
      { renderAscii font (wrapped w t) ascii (toUInt64 (wrapped w t).xBufferPosition)
          (toUInt64 (wrapped w t).yBufferPosition) with
        xBufferPosition := (renderAscii font (wrapped w t) ascii
            (toUInt64 (wrapped w t).xBufferPosition)
            (toUInt64 (wrapped w t).yBufferPosition)).xBufferPosition +
          (renderAscii font (wrapped w t) ascii (toUInt64 (wrapped w t).xBufferPosition)
            (toUInt64 (wrapped w t).yBufferPosition)).glyphWidth } := rfl
  rw [hunfold, hps]
  simp only [Fonts.glyphWidth, wrapped_x, wrapped_fontSize]

@[simp] theorem putGlyph_x (ascii : BitVec 8) (t : Fonts) :
    (putGlyph font w ascii t).xBufferPosition = drawColumn w t + t.glyphWidth := by
  rw [putGlyph_eq]

@[simp] theorem putGlyph_fontSize (ascii : BitVec 8) (t : Fonts) :
    (putGlyph font w ascii t).fontSize = t.fontSize := by
  obtain ⟨ps, hps⟩ := renderAscii_eq (wrapped w t) ascii
    (toUInt64 (wrapped w t).xBufferPosition) (toUInt64 (wrapped w t).yBufferPosition)
  rw [putGlyph_eq, hps]
  exact wrapped_fontSize t

theorem Placed.putGlyph (hw : 320 ≤ w.width) (hh : 320 ≤ w.height) (h : Placed w t)
    (ascii : BitVec 8) : Placed w (putGlyph font w ascii t) := by
  have hbounds := drawColumn_bounds hw h.x_nonneg
  rw [putGlyph_eq]
  exact (h.wrapped hh).drawn (by omega)

/-- **Drawing.** A glyph put at a cursor that is placed is drawn on the screen. -/
theorem OnScreen.putGlyph (hw : 320 ≤ w.width) (hh : 320 ≤ w.height) (h : Placed w t)
    (hs : OnScreen w t) (ascii : BitVec 8) : OnScreen w (putGlyph font w ascii t) := by
  have hbounds := drawColumn_bounds hw h.x_nonneg
  have hwrapped := h.wrapped hh
  have hwidth := w.width_lt
  have hheight := w.height_lt
  have hglyph : (wrapped w t).glyphWidth = t.glyphWidth := by
    simp only [Fonts.glyphWidth, wrapped_fontSize]
  have hx := toUInt64_of_nonneg hwrapped.x_nonneg (by rw [wrapped_x]; omega)
  have hy0 := hwrapped.y_nonneg
  have hy1 := hwrapped.glyph_le
  have hy := toUInt64_of_nonneg hy0 (by omega)
  have hold : OnScreen w (wrapped w t) := by
    intro p hp
    exact hs p (wrapped_pixels t ▸ hp)
  rw [putGlyph_eq]
  refine renderAscii_onScreen hold ?_ ?_
  · rw [wrapped_x] at hx ⊢
    omega
  · omega

/-! ## Stepping back -/

@[simp] theorem retractPosition_fontSize (t : Fonts) :
    (retractPosition w t).fontSize = t.fontSize := by
  unfold retractPosition
  split_ifs <;> rfl

@[simp] theorem retractPosition_pixels (t : Fonts) : (retractPosition w t).pixels = t.pixels := by
  unfold retractPosition
  split_ifs <;> rfl

theorem retractPosition_x (h : t.xBufferPosition ≠ 0) :
    (retractPosition w t).xBufferPosition = t.xBufferPosition - t.glyphWidth := by
  rw [retractPosition, if_neg h]

/-- The cursor is at the start of a line, or a whole glyph behind it. -/
def CanRetract (t : Fonts) : Prop := t.xBufferPosition = 0 ∨ (t.glyphWidth : Int) ≤ t.xBufferPosition

theorem Placed.retractPosition (hw : 320 ≤ w.width) (h : Placed w t) (hx : CanRetract t) :
    Placed w (retractPosition w t) := by
  have hbounds := t.glyphWidth_bounds
  obtain ⟨h1, h2, h3, h4⟩ := h
  unfold Terminal.retractPosition
  split
  · split
    · refine ⟨h1, le_rfl, ?_, ?_⟩
      · show (0 : Int) + t.glyphHeight ≤ w.height
        omega
      · show (0 : Int) + t.maxGlyphSizeYOnLine ≤ w.height
        omega
    · next hy =>
      have hmod := Nat.mod_lt w.width (show 0 < t.glyphWidth by omega)
      refine ⟨?_, ?_, ?_, ?_⟩
      · show (0 : Int) ≤ (w.width - w.width % t.glyphWidth : Nat) - (t.glyphWidth : Int)
        omega
      · show (0 : Int) ≤ t.yBufferPosition - t.glyphHeight
        omega
      · show t.yBufferPosition - t.glyphHeight + t.glyphHeight ≤ w.height
        omega
      · show t.yBufferPosition - t.glyphHeight + t.maxGlyphSizeYOnLine ≤ w.height
        omega
  · next hx0 =>
    refine ⟨?_, h2, h3, h4⟩
    show (0 : Int) ≤ t.xBufferPosition - t.glyphWidth
    have hcases := hx.resolve_left hx0
    omega

/-! ## Calls that keep the terminal in order -/

/-- The cursor is placed, and what was drawn is on the screen. -/
structure Tidy (w : Window) (t : Fonts) : Prop where
  placed : Placed w t
  onScreen : OnScreen w t

theorem Tidy.putGlyph (hw : 320 ≤ w.width) (hh : 320 ≤ w.height) (h : Tidy w t) (ascii : BitVec 8) :
    Tidy w (putGlyph font w ascii t) :=
  ⟨h.placed.putGlyph hw hh ascii, h.onScreen.putGlyph hw hh h.placed ascii⟩

theorem Tidy.newLine (hh : 320 ≤ w.height) (h : Tidy w t) : Tidy w (newLine w t) := by
  refine ⟨h.placed.newLine hh, ?_⟩
  intro p hp
  exact h.onScreen p (newLine_pixels (w := w) t ▸ hp)

theorem Tidy.retractPosition (hw : 320 ≤ w.width) (h : Tidy w t) (hx : CanRetract t) :
    Tidy w (retractPosition w t) := by
  refine ⟨h.placed.retractPosition hw hx, ?_⟩
  intro p hp
  exact h.onScreen p (retractPosition_pixels (w := w) t ▸ hp)

theorem Tidy.clear (hh : 320 ≤ w.height) (h : OnScreen w t) : Tidy w (clear t) := by
  have hglyph := t.glyphHeight_le
  have hline := t.line_le
  refine ⟨⟨le_rfl, le_rfl, ?_, ?_⟩, h⟩
  · show (0 : Int) + t.glyphHeight ≤ w.height
    omega
  · show (0 : Int) + t.maxGlyphSizeYOnLine ≤ w.height
    omega

/-- After a glyph has been put, there is one to step back over. -/
theorem canRetract_putGlyph (hw : 320 ≤ w.width) (h : 0 ≤ t.xBufferPosition) (ascii : BitVec 8) :
    CanRetract (putGlyph font w ascii t) := by
  right
  have hbounds := drawColumn_bounds hw h
  simp only [putGlyph_x, Fonts.glyphWidth, putGlyph_fontSize] at hbounds ⊢
  omega

/-- Putting a glyph and stepping back leaves the cursor where the glyph is. -/
theorem retract_putGlyph_x (hw : 320 ≤ w.width) (h : 0 ≤ t.xBufferPosition) (ascii : BitVec 8) :
    (retractPosition w (putGlyph font w ascii t)).xBufferPosition = drawColumn w t := by
  have hbounds := drawColumn_bounds hw h
  have hglyph := t.glyphWidth_bounds
  rw [retractPosition_x (by rw [putGlyph_x]; omega), putGlyph_x]
  simp only [Fonts.glyphWidth, putGlyph_fontSize]
  omega

/-- The cursor's own glyph: `showCursor` and `hideCursor`. -/
theorem Tidy.cursor (hw : 320 ≤ w.width) (hh : 320 ≤ w.height) (h : Tidy w t) (ascii : BitVec 8) :
    Tidy w (Terminal.retractPosition w (Terminal.putGlyph font w ascii t)) :=
  (h.putGlyph hw hh ascii).retractPosition hw (canRetract_putGlyph hw h.placed.x_nonneg ascii)

theorem canRetract_hideCursor (hw : 320 ≤ w.width) (h : 0 ≤ t.xBufferPosition)
    (hx : CanRetract t) : CanRetract (hideCursor font w t) := by
  have hcolumn : drawColumn w t = 0 ∨ drawColumn w t = t.xBufferPosition := by
    unfold drawColumn
    split
    · exact .inl rfl
    · exact .inr rfl
  rw [CanRetract, hideCursor, retract_putGlyph_x hw h]
  simp only [Fonts.glyphWidth, retractPosition_fontSize, putGlyph_fontSize]
  rcases hcolumn with hzero | hsame
  · exact .inl hzero
  · rw [hsame]
    exact hx

theorem Tidy.clearPreviousCharacter (hw : 320 ≤ w.width) (hh : 320 ≤ w.height) (h : Tidy w t)
    (hx : CanRetract t) : Tidy w (clearPreviousCharacter font w t) :=
  ((h.cursor hw hh 32).retractPosition hw (canRetract_hideCursor hw h.placed.x_nonneg hx)).cursor
    hw hh 124

/-! ## Carriage returns and tabulators -/

/-- From a whole number of glyphs the loop steps back to the start of the line. -/
theorem retractToStart_tidy (hw : 320 ≤ w.width) {fuel : Nat} (h : Tidy w t)
    (hdvd : (t.glyphWidth : Int) ∣ t.xBufferPosition) (hfuel : t.xBufferPosition < fuel) :
    ∃ t', retractToStart w fuel t = some t' ∧ Tidy w t' := by
  induction fuel generalizing t with
  | zero =>
    have hx := h.placed.x_nonneg
    omega
  | succ fuel ih =>
    rw [retractToStart]
    split
    · next hpos =>
      have hle := Int.le_of_dvd hpos hdvd
      have hglyph := t.glyphWidth_bounds
      have hback := retractPosition_x (w := w) (t := t) (by omega)
      have hsame : (Terminal.retractPosition w t).glyphWidth = t.glyphWidth := by
        simp only [Fonts.glyphWidth, retractPosition_fontSize]
      apply ih (h.retractPosition hw (.inr hle))
      · rw [hsame, hback]
        exact Int.dvd_sub hdvd (Int.dvd_refl _)
      · rw [hback]
        omega
    · exact ⟨t, rfl, h⟩

/-- On a line that starts at its margin a tab stop is at most four glyphs away. -/
theorem spacesToTab_from_margin (hw : 320 ≤ w.width) {fuel k : Nat} (hk : k < TAB_SIZE)
    (hx : t.xBufferPosition = (k * t.glyphWidth : Nat)) (hfuel : TAB_SIZE ≤ fuel + k) :
    (spacesToTab font w fuel t).isSome := by
  induction fuel generalizing t k with
  | zero => omega
  | succ fuel ih =>
    simp only [TAB_SIZE] at hk hfuel ih
    have hglyph := t.glyphWidth_bounds
    have hsame : (Terminal.putGlyph font w 32 t).glyphWidth = t.glyphWidth := by
      simp only [Fonts.glyphWidth, putGlyph_fontSize]
    have hle : k * t.glyphWidth ≤ 3 * t.glyphWidth := Nat.mul_le_mul_right _ (by omega)
    have hnext : (Terminal.putGlyph font w 32 t).xBufferPosition =
        ((k + 1) * t.glyphWidth : Nat) := by
      rw [putGlyph_x, drawColumn, if_neg (by omega), hx, Nat.add_mul]
      omega
    rw [spacesToTab]
    split
    · next hoff =>
      by_cases hlast : k = 3
      · rw [hnext, hsame, hlast] at hoff
        exact absurd Int.tmod_self hoff
      · exact ih (k := k + 1) (by omega) (by rw [hnext, hsame]) (by omega)
    · rfl

/-- The loop of a tabulator ends: it meets a tab stop, or wraps and meets one on the next line. -/
theorem spacesToTab_isSome (hw : 320 ≤ w.width) {fuel : Nat} (h : 0 ≤ t.xBufferPosition)
    (hfuel : (w.width : Int) + TAB_SIZE < t.xBufferPosition + fuel) (hfuel' : TAB_SIZE < fuel) :
    (spacesToTab font w fuel t).isSome := by
  induction fuel generalizing t with
  | zero => omega
  | succ fuel ih =>
    simp only [TAB_SIZE] at hfuel hfuel' ih
    have hglyph := t.glyphWidth_bounds
    have hsame : (Terminal.putGlyph font w 32 t).glyphWidth = t.glyphWidth := by
      simp only [Fonts.glyphWidth, putGlyph_fontSize]
    have hnext : (Terminal.putGlyph font w 32 t).xBufferPosition = drawColumn w t + t.glyphWidth :=
      putGlyph_x 32 t
    rw [spacesToTab]
    split
    · unfold drawColumn at hnext
      split at hnext
      · apply spacesToTab_from_margin hw (k := 1) (by decide)
        · rw [hnext, hsame]
          omega
        · simp only [TAB_SIZE]
          omega
      · apply ih
        · omega
        · omega
        · omega
    · rfl

theorem spacesToTab_tidy (hw : 320 ≤ w.width) (hh : 320 ≤ w.height) {fuel : Nat} (h : Tidy w t)
    (hs : spacesToTab font w fuel t = some t') : Tidy w t' := by
  induction fuel generalizing t with
  | zero => cases hs
  | succ fuel ih =>
    rw [spacesToTab] at hs
    split at hs
    · exact ih (h.putGlyph hw hh 32) hs
    · cases hs
      exact h.putGlyph hw hh 32

/-! ## Font sizes -/

/-- `increaseFontSize` scrolls when the larger glyph does not fit. -/
theorem Tidy.increaseFontSize (hh : 320 ≤ w.height) (h : Tidy w t) :
    Tidy w (increaseFontSize w t) := by
  obtain ⟨⟨hx, hy0, hglyph, hline⟩, hdrawn⟩ := h
  refine ⟨?_, ?_⟩
  · unfold Terminal.increaseFontSize
    apply Placed.of_scroll hh
    · exact hx
    · exact hy0
    · show t.yBufferPosition ≤ w.height
      omega
    · show t.yBufferPosition + (lineHeight t _ : Nat) ≤ w.height ∨ lineHeight t _ = _
      unfold lineHeight
      split
      · -- the line stays as high as it was, or becomes as high as the new glyph
        rcases Nat.le_total t.maxGlyphSizeYOnLine (DEFAULT_GLYPH_SIZE_Y *
          if t.fontSize > 9 then t.fontSize else t.fontSize + 1) with hgrows | hstays
        · exact .inr (Nat.max_eq_right hgrows)
        · rw [Nat.max_eq_left hstays]
          exact .inl hline
      · exact .inr rfl
  · intro p hp
    rw [Terminal.increaseFontSize, scrollBufferPositionIfNeeded_pixels] at hp
    exact hdrawn p hp

/-- A resize keeps the cursor placed exactly where the new glyph fits above the bottom. -/
theorem placed_resize_iff (h : Placed w t) {fontSize : Nat} (hpos : 1 ≤ fontSize)
    (hle : fontSize ≤ 10) :
    Placed w (t.resize fontSize hpos hle) ↔
      t.yBufferPosition + (DEFAULT_GLYPH_SIZE_Y * fontSize : Nat) ≤ w.height := by
  constructor
  · exact fun h' => h'.glyph_le
  · intro hfits
    refine ⟨h.x_nonneg, h.y_nonneg, hfits, ?_⟩
    have hline := h.line_le
    show t.yBufferPosition + (lineHeight t fontSize : Nat) ≤ w.height
    unfold lineHeight
    split <;> omega

theorem Tidy.decreaseFontSize (h : Tidy w t) : Tidy w (decreaseFontSize t) := by
  have hglyph := h.placed.glyph_le
  refine ⟨(placed_resize_iff h.placed _ _).mpr ?_, h.onScreen⟩
  simp only [Fonts.glyphHeight, DEFAULT_GLYPH_SIZE_Y] at hglyph ⊢
  split <;> omega

/-! ## Histories of calls -/

/-- What the two calls that move the cursor carelessly would need: a font size is set where its
    glyph fits above the bottom of the window, and the cursor steps back over whole glyphs only. -/
def Fits (w : Window) (t : Fonts) : Call → Prop
  | .setFontSize size =>
    t.yBufferPosition + (DEFAULT_GLYPH_SIZE_Y * clampSize size : Nat) ≤ w.height
  | .retractPosition => CanRetract t
  | .clearPreviousCharacter => CanRetract t
  | .putChar ascii => ascii = CARRIAGE_RETURN_CHAR → (t.glyphWidth : Int) ∣ drawColumn w t
  | _ => True

instance (t : Fonts) (c : Call) : Decidable (Fits w t c) := by
  unfold Fits CanRetract
  split <;> infer_instance

/-- **Step.** A call whose condition is met returns, and keeps the terminal in order. -/
theorem Tidy.step (hw : 320 ≤ w.width) (hh : 320 ≤ w.height) (h : Tidy w t) {c : Call}
    (hfits : Fits w t c) : ∃ t', step font w t c = some t' ∧ Tidy w t' := by
  cases c with
  | putChar ascii =>
    have hdirty : Tidy w { t with dirtyLine := true } :=
      ⟨⟨h.placed.x_nonneg, h.placed.y_nonneg, h.placed.glyph_le, h.placed.line_le⟩, h.onScreen⟩
    have hx := h.placed.x_nonneg
    simp only [Terminal.step, putChar]
    split
    · exact ⟨_, rfl, (hdirty.cursor hw hh 32).newLine hh⟩
    · split
      · next hreturn =>
        have hcolumn := @retract_putGlyph_x font w _ hw hdirty.placed.x_nonneg 32
        apply retractToStart_tidy hw (hdirty.cursor hw hh 32)
        · rw [hcolumn]
          simp only [Fonts.glyphWidth, retractPosition_fontSize, putGlyph_fontSize]
          exact hfits hreturn
        · rw [hideCursor]
          omega
      · split
        · have hrounds : (w.width : Int) + TAB_SIZE <
              t.xBufferPosition + (w.width + TAB_SIZE + 1 : Nat) := by omega
          have hsome := @spacesToTab_isSome font w { t with dirtyLine := true } hw
            (w.width + TAB_SIZE + 1) hx hrounds (by omega)
          obtain ⟨t', ht'⟩ := Option.isSome_iff_exists.mp hsome
          exact ⟨t', ht', spacesToTab_tidy hw hh hdirty ht'⟩
        · exact ⟨_, rfl, hdirty.putGlyph hw hh ascii⟩
  | newLine => exact ⟨_, rfl, h.newLine hh⟩
  | clear => exact ⟨_, rfl, .clear hh h.onScreen⟩
  | retractPosition => exact ⟨_, rfl, h.retractPosition hw hfits⟩
  | clearPreviousCharacter => exact ⟨_, rfl, h.clearPreviousCharacter hw hh hfits⟩
  | showCursor => exact ⟨_, rfl, h.cursor hw hh 124⟩
  | hideCursor => exact ⟨_, rfl, h.cursor hw hh 32⟩
  | increaseFontSize => exact ⟨_, rfl, h.increaseFontSize hh⟩
  | decreaseFontSize => exact ⟨_, rfl, h.decreaseFontSize⟩
  | setFontSize size => exact ⟨_, rfl, (placed_resize_iff h.placed _ _).mpr hfits, h.onScreen⟩

/-- A step back over less than a glyph leaves the window. -/
theorem retractPosition_x_neg (hx : ¬ CanRetract t) :
    (retractPosition w t).xBufferPosition < 0 := by
  simp only [CanRetract, not_or, not_le] at hx
  rw [retractPosition_x hx.1]
  omega

/-- And `clearPreviousCharacter` draws its cursor there. -/
theorem clearPreviousCharacter_x_neg (hw : 320 ≤ w.width) (h : 0 ≤ t.xBufferPosition)
    (hx : ¬ CanRetract t) : (clearPreviousCharacter font w t).xBufferPosition < 0 := by
  simp only [CanRetract, not_or, not_le] at hx
  have hglyph := t.glyphWidth_bounds
  have hhidden : (hideCursor font w t).xBufferPosition = t.xBufferPosition := by
    rw [hideCursor, retract_putGlyph_x hw h, drawColumn, if_neg (by omega)]
  have hwidth : (hideCursor font w t).glyphWidth = t.glyphWidth := by
    simp only [Fonts.glyphWidth, hideCursor, retractPosition_fontSize, putGlyph_fontSize]
  have hback : (retractPosition w (hideCursor font w t)).xBufferPosition =
      t.xBufferPosition - t.glyphWidth := by
    rw [retractPosition_x (by omega), hhidden, hwidth]
  have hwidth' : (retractPosition w (hideCursor font w t)).glyphWidth = t.glyphWidth := by
    simp only [Fonts.glyphWidth, hideCursor, retractPosition_fontSize, putGlyph_fontSize]
  have hshown : (putGlyph font w 124 (retractPosition w (hideCursor font w t))).xBufferPosition =
      t.xBufferPosition := by
    rw [putGlyph_x, drawColumn, if_neg (by omega), hback, hwidth']
    omega
  rw [clearPreviousCharacter, showCursor, retractPosition_x (by omega), hshown]
  simp only [Fonts.glyphWidth, hideCursor, retractPosition_fontSize, putGlyph_fontSize] at hx ⊢
  omega

/-- The loop of a carriage return ends at the start of the line or left of it, a whole number of
    glyphs away. -/
theorem retractToStart_x {fuel : Nat} (hs : retractToStart w fuel t = some t') :
    t'.xBufferPosition ≤ 0 ∧ (t.glyphWidth : Int) ∣ t.xBufferPosition - t'.xBufferPosition := by
  induction fuel generalizing t with
  | zero => cases hs
  | succ fuel ih =>
    rw [retractToStart] at hs
    split at hs
    · next hpos =>
      obtain ⟨hle, hdvd⟩ := ih hs
      refine ⟨hle, ?_⟩
      rw [retractPosition_x (by omega)] at hdvd
      simp only [Fonts.glyphWidth, retractPosition_fontSize] at hdvd ⊢
      have hsum := Int.dvd_add hdvd (Int.dvd_refl _)
      have harrange : ∀ x y g : Int, x - g - y + g = x - y := by
        intro x y g
        omega
      rwa [harrange] at hsum
    · next hend =>
      cases hs
      exact ⟨by omega, by simp⟩

/-- **The condition is exact**: a call whose condition is not met takes the cursor out of the
    window. -/
theorem Tidy.placed_iff (hw : 320 ≤ w.width) (hh : 320 ≤ w.height) (h : Tidy w t) {c : Call}
    (hs : Terminal.step font w t c = some t') : Placed w t' ↔ Fits w t c := by
  constructor
  · intro hplaced
    by_contra hunfit
    have hx := h.placed.x_nonneg
    have hx' := hplaced.x_nonneg
    cases c with
    | putChar ascii =>
      simp only [Fits, Classical.not_imp] at hunfit
      obtain ⟨rfl, hdvd⟩ := hunfit
      have hcolumn := @retract_putGlyph_x font w { t with dirtyLine := true } hw hx 32
      simp only [Terminal.step, putChar, CARRIAGE_RETURN_CHAR, NEW_LINE_CHAR] at hs
      obtain ⟨hle, hdvd'⟩ := retractToStart_x hs
      have hzero : t'.xBufferPosition = 0 := by omega
      rw [hzero, Int.sub_zero, hideCursor, hcolumn] at hdvd'
      simp only [Fonts.glyphWidth, retractPosition_fontSize, putGlyph_fontSize] at hdvd'
      exact hdvd hdvd'
    | retractPosition =>
      cases hs
      have hneg := retractPosition_x_neg (w := w) hunfit
      omega
    | clearPreviousCharacter =>
      cases hs
      have hneg := @clearPreviousCharacter_x_neg font w t hw hx hunfit
      omega
    | setFontSize size =>
      cases hs
      exact hunfit hplaced.glyph_le
    | _ => exact hunfit trivial
  · intro hfits
    obtain ⟨t1, hs1, htidy⟩ := h.step hw hh hfits
    rw [hs] at hs1
    cases hs1
    exact htidy.placed

/-- **Drawing stays on the screen** in every history of calls from `clear` on that meets the
    condition, and the next glyph fits as well. -/
theorem drawn_on_screen (hw : 320 ≤ w.width) (hh : 320 ≤ w.height) {t0 : Fonts}
    (hnew : t0.pixels = []) {cs : List Call}
    (h : GuardedRun (step font w) (Fits w) (clear t0) cs t) :
    (∀ p ∈ t.pixels, p.x < w.width ∧ p.y < w.height) ∧
    0 ≤ t.xBufferPosition ∧ 0 ≤ t.yBufferPosition ∧
    t.yBufferPosition + t.glyphHeight ≤ w.height := by
  have htidy : Tidy w t := by
    apply h.invariant (Tidy w)
    · intro s c s' hs hfits hstep
      obtain ⟨s1, hstep1, hs1⟩ := hs.step hw hh hfits
      rw [hstep] at hstep1
      cases hstep1
      exact hs1
    · apply Tidy.clear hh
      intro p hp
      rw [hnew] at hp
      cases hp
  exact ⟨htidy.onScreen, htidy.placed.x_nonneg, htidy.placed.y_nonneg, htidy.placed.glyph_le⟩

/-! ## A small window -/

/-- The smallest window. -/
def smallWindow : Window := ⟨320, 320, by decide, by decide⟩

/-- The static variables as the program starts with them. -/
def Fonts.boot : Fonts where
  fontSize := 1
  xBufferPosition := 0
  yBufferPosition := 0
  maxGlyphSizeYOnLine := DEFAULT_GLYPH_SIZE_Y
  dirtyLine := false
  textColor := 0x00FFFFFF
  backgroundColor := 0
  pixels := []
  fontSize_pos := by decide
  fontSize_le := by decide
  line_le := by decide

/-- On the last line a larger font is set, and the next glyph is drawn below the window. -/
def bottomLine : List Call := List.replicate 39 .newLine ++ [.setFontSize 2, .putChar 97]

set_option maxRecDepth 100000 in
theorem drawn_off_screen :
    ¬ ∀ (cs : List Call) (t : Fonts),
      GuardedRun (step (fun _ => 0) smallWindow) (fun _ _ => True) (clear Fonts.boot) cs t →
        ∀ p ∈ t.pixels, p.x < smallWindow.width ∧ p.y < smallWindow.height := by
  intro hall
  obtain ⟨t, hrun, hend⟩ := (Option.any_eq_true (fun t : Fonts => t.pixels.any fun p =>
      decide (smallWindow.height ≤ p.y))
    (GuardedRun.check (step (fun _ => 0) smallWindow) (fun _ _ => True) (clear Fonts.boot)
      bottomLine)).mp (by decide +kernel)
  obtain ⟨p, hp, hbelow⟩ := List.any_eq_true.mp hend
  have hinside := (hall _ t (.of_check hrun) p hp).2
  simp only [decide_eq_true_eq] at hbelow
  omega

-- After a glyph of size 1 the cursor steps back over one of size 2, and the next is drawn left of
-- the window.
set_option maxRecDepth 100000 in
example : ((GuardedRun.check (step (fun _ => 0) smallWindow) (fun _ _ => True) (clear Fonts.boot)
    [.putChar 97, .setFontSize 2, .retractPosition, .putChar 97]).any fun t => t.pixels.any fun p =>
      decide (smallWindow.width ≤ p.x)) = true := by decide +kernel

set_option maxRecDepth 100000 in
theorem drawn_on_screen_text : ∃ t : Fonts, t.fontSize = 2 ∧
    ∀ p ∈ t.pixels, p.x < smallWindow.width ∧ p.y < smallWindow.height := by
  obtain ⟨t, hrun, hend⟩ := (Option.any_eq_true (fun t : Fonts => decide (t.fontSize = 2))
    (GuardedRun.check (step (fun _ => 0) smallWindow) (Fits smallWindow) (clear Fonts.boot)
      [.putChar 97, .putChar TABULATOR_CHAR, .putChar CARRIAGE_RETURN_CHAR, .increaseFontSize,
        .putChar 98, .clearPreviousCharacter])).mp (by decide +kernel)
  exact ⟨t, of_decide_eq_true hend,
    (drawn_on_screen (by decide) (by decide) rfl (.of_check hrun)).1⟩

end TpSo.Terminal
