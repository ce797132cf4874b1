import Mathlib.Data.List.Induction
import TpSo.Terminal.Blinking
import TpSo.Terminal.Screen

set_option autoImplicit false

/-! # The text in the frame buffer

A layout says where in the text each glyph was drawn. Here it is followed into the frame buffer: a pixel of
the window has the colour of the latest glyph that lies there, and is blank where there is none. -/

namespace TpSo.Terminal

open Bytes (Memory)
open PixelGrid

/-- A character at its place in the text. -/
structure Stroke extends Cell where
  x : Int
  y : Int

def Stroke.glyph (g : Stroke) : Glyph := ⟨g.ascii, g.x, g.y⟩

/-- A character in the colours that are set. -/
def Fonts.cell (t : Fonts) (ascii : BitVec 8) : Cell := ⟨ascii, t.textColor, t.backgroundColor⟩

/-- A glyph in the colours that are set. -/
def Fonts.stroke (t : Fonts) (g : Glyph) : Stroke := { t.cell g.ascii with x := g.x, y := g.y }

/-- The colour of the point `dx`, `dy` of a character. -/
def Cell.color (font : Int → BitVec 8) (fontSize : Nat) (c : Cell) (dx dy : Nat) : BitVec 32 :=
  if (font (c.ascii.toInt * DEFAULT_GLYPH_SIZE_Y + (dy / fontSize : Nat))).getLsbD (dx / fontSize) then
    c.textColor
  else c.backgroundColor

/-- The pixels of a character, in the order in which they are put. -/
def Stroke.marks (font : Int → BitVec 8) (fontSize : Nat) (g : Stroke) : List Mark :=
  (List.range (DEFAULT_GLYPH_SIZE_X * fontSize)).flatMap fun dx =>
    (List.range (DEFAULT_GLYPH_SIZE_Y * fontSize)).map fun dy =>
      ⟨g.color font fontSize dx dy, g.x.toNat + dx, g.y.toNat + dy⟩

/-- The colour of a point of the text: that of the latest character that covers it. -/
def colorAt (font : Int → BitVec 8) (fontSize : Nat) : List Stroke → Int → Int → BitVec 32
  | [], _, _ => DEFAULT_BACKGROUND_COLOR
  | g :: gs, x, y =>
    if (g.x ≤ x ∧ x < g.x + (DEFAULT_GLYPH_SIZE_X * fontSize : Nat)) ∧
        g.y ≤ y ∧ y < g.y + (DEFAULT_GLYPH_SIZE_Y * fontSize : Nat) then
      g.color font fontSize (x - g.x).toNat (y - g.y).toNat
    else colorAt font fontSize gs x y

/-- The colour of a point of a text that is drawn in the colours of `t`. -/
def inkAt (font : Int → BitVec 8) (t : Fonts) (gs : List Glyph) : Int → Int → BitVec 32 :=
  colorAt font t.fontSize (gs.map t.stroke)

/-- Glyphs are drawn in the same size and colours. -/
structure SameInk (t t' : Fonts) : Prop where
  fontSize : t'.fontSize = t.fontSize
  textColor : t'.textColor = t.textColor
  backgroundColor : t'.backgroundColor = t.backgroundColor

variable {font : Int → BitVec 8} {w : Window} {t t' t'' : Fonts} {l l' : Layout} {s s' : Screen}
  {start : Roll} {older : List Stroke}

/-- The paper below the text is blank. -/
theorem colorAt_below {fontSize : Nat} {gs : List Stroke} {x y : Int}
    (h : ∀ g ∈ gs, g.y + (DEFAULT_GLYPH_SIZE_Y * fontSize : Nat) ≤ y) :
    colorAt font fontSize gs x y = DEFAULT_BACKGROUND_COLOR := by
  induction gs with
  | nil => rfl
  | cons g gs ih =>
    have hhead := h g List.mem_cons_self
    rw [colorAt, if_neg (by omega), ih fun g' hg' => h g' (List.mem_cons_of_mem g hg')]

theorem colorAt_stroke (g : Glyph) (gs : List Stroke) (x y : Int) :
    colorAt font t.fontSize (t.stroke g :: gs) x y =
      if (g.x ≤ x ∧ x < g.x + t.glyphWidth) ∧ g.y ≤ y ∧ y < g.y + t.glyphHeight then
        glyphColor font t g.ascii (x - g.x).toNat (y - g.y).toNat
      else colorAt font t.fontSize gs x y := rfl

/-! ## What does not change the ink -/

theorem SameInk.refl (t : Fonts) : SameInk t t := ⟨rfl, rfl, rfl⟩

theorem SameInk.trans (h : SameInk t t') (h' : SameInk t' t'') : SameInk t t'' :=
  ⟨h'.fontSize.trans h.fontSize, h'.textColor.trans h.textColor, h'.backgroundColor.trans h.backgroundColor⟩

theorem SameInk.glyphColor_eq (h : SameInk t t') (ascii : BitVec 8) (dx dy : Nat) :
    glyphColor font t' ascii dx dy = glyphColor font t ascii dx dy := by
  simp only [glyphColor, h.fontSize, h.textColor, h.backgroundColor]

theorem SameInk.glyphWidth_eq (h : SameInk t t') : t'.glyphWidth = t.glyphWidth := by
  simp only [Fonts.glyphWidth, h.fontSize]

theorem sameInk_newLine (t : Fonts) : SameInk t (newLine w t) := by
  unfold newLine scrollBufferPositionIfNeeded
  split
  · exact ⟨rfl, rfl, rfl⟩
  · exact ⟨rfl, rfl, rfl⟩

theorem sameInk_retractPosition (t : Fonts) : SameInk t (retractPosition w t) := by
  unfold retractPosition
  split_ifs
  · exact ⟨rfl, rfl, rfl⟩
  · exact ⟨rfl, rfl, rfl⟩
  · exact ⟨rfl, rfl, rfl⟩

theorem sameInk_renderAscii (t : Fonts) (ascii : BitVec 8) (x y : Nat) :
    SameInk t (renderAscii font t ascii x y) := by
  obtain ⟨ps, hps⟩ := @renderAscii_eq font t ascii x y
  rw [hps]
  exact ⟨rfl, rfl, rfl⟩

/-! ## The picture of a layout -/

theorem glyphs_latest (t : Fonts) (latest : List Glyph) (older : List Stroke) :
    (latest.map t.stroke ++ older).map Stroke.glyph = latest ++ older.map Stroke.glyph := by
  rw [List.map_append, List.map_map]
  exact congrArg (· ++ _) (List.map_id latest)

/-- The roll that the screen has drawn on, `start` at first, shows the glyphs of the layout, which were put one after
    the other, and none of them lies below the window. The latest ones are drawn in the ink of `t`, those before
    them are the `older`. -/
structure Pictured (font : Int → BitVec 8) (w : Window) (t : Fonts) (start : Roll) (older : List Stroke)
    (l : Layout) (s : Screen) : Prop where
  shows : Shows l s.fonts
  ink : SameInk t s.fonts
  placed : Placed w s.fonts
  aligned : l.Aligned w
  top : ((drawCalls w s.calls start).top : Int) = start.top + l.scrolled
  paper : ∃ latest, l.drawn = latest ++ older.map Stroke.glyph ∧
    (∀ x y : Nat, (drawCalls w s.calls start).paper x (start.top + y) =
      rgb (colorAt font t.fontSize (latest.map t.stroke ++ older) x y)) ∧
    marks 0 s.calls = (latest.map t.stroke ++ older).reverse.flatMap (Stroke.marks font t.fontSize)
  above : ∀ g ∈ l.drawn, g.y + l.size ≤ l.scrolled + w.height

theorem Pictured.size (h : Pictured font w t start older l s) : l.size = t.glyphWidth :=
  h.shows.size.trans h.ink.glyphWidth_eq

/-- What draws nothing moves the cursor at most. -/
theorem Pictured.onFonts (h : Pictured font w t start older l s) {f : Fonts → Fonts} (hshows : Shows l' (f s.fonts))
    (hink : SameInk s.fonts (f s.fonts)) (hplaced : Placed w (f s.fonts)) (haligned : l'.Aligned w)
    (hdrawn : l'.drawn = l.drawn) (hscrolled : l'.scrolled = l.scrolled) (hsize : l'.size = l.size) :
    Pictured font w t start older l' (s.onFonts f) where
  shows := hshows
  ink := h.ink.trans hink
  placed := hplaced
  aligned := haligned
  top := by
    rw [hscrolled]
    exact h.top
  paper := by
    rw [hdrawn]
    exact h.paper
  above := by
    rw [hdrawn, hscrolled, hsize]
    exact h.above

theorem Pictured.dirty (h : Pictured font w t start older l s) : Pictured font w t start older l s.dirty :=
  h.onFonts (h.shows.dirty true) ⟨rfl, rfl, rfl⟩
    ⟨h.placed.x_nonneg, h.placed.y_nonneg, h.placed.glyph_le, h.placed.line_le⟩ h.aligned rfl rfl rfl

/-! ### A new line -/

theorem Layout.newLine_scrolled (l : Layout) :
    (l.newLine w).scrolled =
      if l.y + l.lineHeight + l.size > w.height then l.scrolled + l.size else l.scrolled := by
  unfold Layout.newLine Layout.scrollIfNeeded
  split
  · rfl
  · rfl

/-- In the text, scrolled or not, the new line is one line further down. -/
theorem Layout.newLine_line (l : Layout) :
    (l.newLine w).y + (l.newLine w).scrolled = l.y + l.lineHeight + l.scrolled := by
  unfold Layout.newLine Layout.scrollIfNeeded
  split
  · show l.y + l.lineHeight - l.size + (l.scrolled + l.size) = _
    omega
  · rfl

theorem Layout.newLine_lineHeight (l : Layout) : (l.newLine w).lineHeight = l.size := by
  unfold Layout.newLine Layout.scrollIfNeeded
  split
  · rfl
  · rfl

/-- The driver is called where the layout scrolls. -/
theorem Shows.newLine_calls (h : Shows l s.fonts) :
    (s.newLine w).calls =
      if l.y + l.lineHeight + l.size > w.height then
        s.calls ++ [.scrollVideoMemoryUp s.fonts.glyphHeight DEFAULT_BACKGROUND_COLOR]
      else s.calls := by
  rw [h.y, h.lineHeight, h.size, ← s.fonts.glyphHeight_eq]
  rfl

/-- Below the window the paper is blank. -/
theorem Pictured.blank_below (h : Pictured font w t start older l s) {latest : List Glyph}
    (hlatest : l.drawn = latest ++ older.map Stroke.glyph) {x y : Int} (hbelow : l.scrolled + w.height ≤ y) :
    colorAt font t.fontSize (latest.map t.stroke ++ older) x y = DEFAULT_BACKGROUND_COLOR := by
  apply colorAt_below
  intro g hg
  have hmem : g.glyph ∈ l.drawn := by
    rw [hlatest, ← glyphs_latest t latest older]
    exact List.mem_map_of_mem hg
  have habove : g.y + l.size ≤ l.scrolled + w.height := h.above g.glyph hmem
  have hglyph := h.size
  have hcell : DEFAULT_GLYPH_SIZE_Y * t.fontSize = t.glyphWidth := t.glyphHeight_eq
  omega

/-- **A new line** that scrolls brings blank paper into the window. -/
theorem Pictured.newLine (hh : 320 ≤ w.height) (h : Pictured font w t start older l s) :
    Pictured font w t start older (l.newLine w) (s.newLine w) := by
  have hcalls := h.shows.newLine_calls (w := w)
  have hscrolled := @Layout.newLine_scrolled w l
  have hdrawn := @Layout.newLine_drawn w l
  have htop := h.top
  refine ⟨h.shows.newLine, h.ink.trans (sameInk_newLine s.fonts), h.placed.newLine hh, h.aligned.newLine,
    ?_, ?_, ?_⟩
  all_goals by_cases hscroll : l.y + l.lineHeight + l.size > w.height
  · have hsize := h.shows.size
    have hheight := s.fonts.glyphHeight_eq
    rw [hcalls, if_pos hscroll, hscrolled, if_pos hscroll, drawCalls_append]
    show (((drawCalls w s.calls start).top + s.fonts.glyphHeight : Nat) : Int) = _
    omega
  · rw [hcalls, if_neg hscroll, hscrolled, if_neg hscroll]
    exact htop
  · obtain ⟨latest, hlatest, hpaper, hmarks⟩ := h.paper
    refine ⟨latest, hdrawn.trans hlatest, fun x y => ?_, ?_⟩
    · rw [hcalls, if_pos hscroll, drawCalls_append]
      show (if (drawCalls w s.calls start).top ≤ start.top + y ∧
        w.height ≤ start.top + y - (drawCalls w s.calls start).top then rgb DEFAULT_BACKGROUND_COLOR
        else (drawCalls w s.calls start).paper x (start.top + y)) = _
      split
      · next hbelow => rw [h.blank_below hlatest (by omega)]
      · exact hpaper x y
    · rw [hcalls, if_pos hscroll, marks_append, hmarks]
      exact List.append_nil _
  · rw [hcalls, if_neg hscroll, hdrawn]
    exact h.paper
  · intro g hg
    rw [hdrawn] at hg
    have habove := h.above g hg
    rw [Layout.newLine_size, hscrolled, if_pos hscroll]
    omega
  · rw [hdrawn, hscrolled, if_neg hscroll, Layout.newLine_size]
    exact h.above

/-- The layout counts the rows that the calls scroll. -/
theorem Pictured.rows (h : Pictured font w t start older l s) : (rowsScrolled s.calls : Int) = l.scrolled := by
  have htop := h.top
  rw [drawCalls_top] at htop
  omega

/-- The pixels of a glyph come after those of the others. -/
theorem Pictured.marks_renderAscii (h : Pictured font w t start older l s) (ascii : BitVec 8) {x y : Nat}
    (hx : l.x = x) (hy : l.y = y) (hright : x + s.fonts.glyphWidth ≤ w.width)
    (hbottom : y + s.fonts.glyphHeight ≤ w.height) :
    marks 0 (s.renderAscii font ascii x y).calls =
      marks 0 s.calls ++ (t.stroke ⟨ascii, l.x, l.y + l.scrolled⟩).marks font t.fontSize := by
  have hrows := h.rows
  have hplace : (l.y + l.scrolled).toNat = y + rowsScrolled s.calls := by omega
  have hwidth := h.ink.glyphWidth_eq
  have hheight : s.fonts.glyphHeight = t.glyphHeight := by rw [Fonts.glyphHeight_eq, hwidth, ← t.glyphHeight_eq]
  have hrow (dy : Nat) : y + dy + rowsScrolled s.calls = y + rowsScrolled s.calls + dy := by omega
  show marks 0 (s.calls ++ _) = _
  rw [marks_append, renderAscii_fits hright hbottom, marks_pixels, List.map_flatMap, Nat.zero_add, hwidth, hheight]
  simp only [Stroke.marks, Fonts.stroke, List.map_map, hx, hplace, Int.toNat_natCast, Function.comp_def,
    h.ink.glyphColor_eq, hrow]
  rfl

/-- **A glyph** is drawn at its place in the text. -/
theorem Pictured.renderAscii (h : Pictured font w t start older l s) (hfits : l.x + l.size ≤ w.width)
    (ascii : BitVec 8) :
    Pictured font w t start older
      { l with x := l.x + l.size, drawn := { ascii := ascii, x := l.x, y := l.y + l.scrolled } :: l.drawn }
      ((s.renderAscii font ascii (toUInt64 s.fonts.xBufferPosition) (toUInt64 s.fonts.yBufferPosition)).onFonts
        fun t => { t with xBufferPosition := t.xBufferPosition + t.glyphWidth }) := by
  obtain ⟨x, hx⟩ : ∃ x : Nat, s.fonts.xBufferPosition = x := Int.eq_ofNat_of_zero_le h.placed.x_nonneg
  obtain ⟨y, hy⟩ : ∃ y : Nat, s.fonts.yBufferPosition = y := Int.eq_ofNat_of_zero_le h.placed.y_nonneg
  have hglyph := h.placed.glyph_le
  have hwidth := w.width_lt
  have hheight := w.height_lt
  have hlx := h.shows.x
  have hly := h.shows.y
  have hsize := h.shows.size
  have hsquare := s.fonts.glyphHeight_eq
  have hx64 : toUInt64 (x : Int) = x := by
    have heq := toUInt64_of_nonneg (i := x) (by omega) (by omega)
    omega
  have hy64 : toUInt64 (y : Int) = y := by
    have heq := toUInt64_of_nonneg (i := y) (by omega) (by omega)
    omega
  rw [hx, hy, hx64, hy64]
  obtain ⟨ps, hps⟩ := @renderAscii_eq font s.fonts ascii x y
  obtain ⟨htop, hpaper⟩ := @drawCalls_renderAscii font w s.fonts ascii x y (by omega) (by omega)
    (drawCalls w s.calls start)
  have hcalls : ∀ f, drawCalls w ((s.renderAscii font ascii x y).onFonts f).calls start =
      drawCalls w ((Terminal.renderAscii font { s.fonts with pixels := [] } ascii x y).pixels.reverse.map
        Pixel.call) (drawCalls w s.calls start) := fun f => drawCalls_append _ _ _
  have hcolumn : (Terminal.renderAscii font s.fonts ascii x y).xBufferPosition +
      (Terminal.renderAscii font s.fonts ascii x y).glyphWidth = l.x + l.size := by
    rw [hps, hlx, hsize]
    rfl
  have hnonneg := h.aligned.nonneg
  have hright : 0 ≤ l.x + (l.size : Int) := by omega
  refine ⟨?_, h.ink.trans ((sameInk_renderAscii s.fonts ascii x y).trans ⟨rfl, rfl, rfl⟩),
    h.placed.drawn (hcolumn.symm ▸ hright), ⟨?_, ?_, h.aligned.size_pos, h.aligned.size_le⟩, ?_, ?_, ?_⟩
  · refine ⟨hsize.trans (sameInk_renderAscii s.fonts ascii x y).glyphWidth_eq.symm, hcolumn.symm, ?_, ?_⟩
    · exact hly.trans (congrArg Fonts.yBufferPosition hps).symm
    · exact h.shows.lineHeight.trans (congrArg Fonts.maxGlyphSizeYOnLine hps).symm
  · exact hright
  · exact Int.dvd_add h.aligned.dvd (Int.dvd_refl _)
  · rw [hcalls, htop]
    exact h.top
  · obtain ⟨latest, hlatest, hold, hmarks⟩ := h.paper
    refine ⟨{ ascii := ascii, x := l.x, y := l.y + l.scrolled } :: latest,
      congrArg (List.cons _) hlatest, fun x' y' => ?_, ?_⟩
    · have hroll := h.top
      have hold := hold x' y'
      have hink := h.ink.glyphWidth_eq
      have hinkHeight := t.glyphHeight_eq
      rw [hcalls, hpaper, List.map_cons, List.cons_append, colorAt_stroke]
      dsimp only
      by_cases hin : (l.x ≤ x' ∧ (x' : Int) < l.x + t.glyphWidth) ∧
          l.y + l.scrolled ≤ y' ∧ (y' : Int) < l.y + l.scrolled + t.glyphHeight
      · have hdx : (x' - l.x).toNat = x' - x := by omega
        have hdy : (y' - (l.y + l.scrolled)).toNat =
            start.top + y' - ((drawCalls w s.calls start).top + y) := by omega
        rw [if_pos hin, if_pos (by omega), hdx, hdy, h.ink.glyphColor_eq]
      · rw [if_neg hin, if_neg (by omega), hold]
    · rw [List.map_cons, List.cons_append, List.reverse_cons, List.flatMap_append, ← hmarks,
        List.flatMap_singleton]
      exact h.marks_renderAscii ascii (hlx.trans hx) (hly.trans hy) (by omega) (by omega)
  · intro g hg
    rcases List.mem_cons.mp hg with rfl | hg
    · show l.y + l.scrolled + l.size ≤ l.scrolled + w.height
      omega
    · exact h.above g hg

/-! ## The functions of the terminal -/

theorem Pictured.putGlyph (hh : 320 ≤ w.height) (h : Pictured font w t start older l s) (ascii : BitVec 8) :
    Pictured font w t start older (l.putGlyph w ascii) (s.putGlyph font w ascii) := by
  have hsettled : Pictured font w t start older (l.settle w)
      (if s.dirty.fonts.xBufferPosition + s.dirty.fonts.glyphWidth > w.width then s.dirty.newLine w
        else s.dirty) := by
    have hfull : l.x + l.size > w.width ↔
        s.dirty.fonts.xBufferPosition + s.dirty.fonts.glyphWidth > w.width := by
      rw [h.shows.x, h.shows.size]
      rfl
    unfold Layout.settle
    by_cases hx : l.x + l.size > w.width
    · rw [if_pos hx, if_pos (hfull.mp hx)]
      exact h.dirty.newLine hh
    · rw [if_neg hx, if_neg (fun hgt => hx (hfull.mpr hgt))]
      exact h.dirty
  have hfits : (l.settle w).x + (l.settle w).size ≤ w.width := by
    have hagain := Layout.settle_settle h.aligned
    by_contra hgt
    rw [Layout.settle, if_pos (by omega)] at hagain
    have hx := congrArg Layout.x hagain
    have hsize := hsettled.size
    have hle := hsettled.aligned.size_le
    rw [Layout.newLine_x] at hx
    omega
  exact hsettled.renderAscii hfits ascii

theorem Layout.retract_drawn (l : Layout) : (l.retract w).drawn = l.drawn := by
  unfold Layout.retract
  split_ifs <;> rfl

theorem Layout.retract_scrolled (l : Layout) : (l.retract w).scrolled = l.scrolled := by
  unfold Layout.retract
  split_ifs <;> rfl

theorem Layout.retract_size (l : Layout) : (l.retract w).size = l.size := by
  unfold Layout.retract
  split_ifs <;> rfl

theorem Pictured.canRetract (h : Pictured font w t start older l s) : CanRetract s.fonts := by
  have hnonneg := h.aligned.nonneg
  have hx := h.shows.x
  rw [CanRetract, ← hx, ← h.shows.size]
  rcases Int.lt_or_eq_of_le hnonneg with hpos | hzero
  · exact .inr (Int.le_of_dvd hpos h.aligned.dvd)
  · exact .inl hzero.symm

theorem Pictured.retract (hw : 320 ≤ w.width) (h : Pictured font w t start older l s) :
    Pictured font w t start older (l.retract w) (s.retractPosition w) :=
  h.onFonts h.shows.retract (sameInk_retractPosition s.fonts) (h.placed.retractPosition hw h.canRetract)
    h.aligned.retract l.retract_drawn l.retract_scrolled l.retract_size

theorem Pictured.hideCursor (hw : 320 ≤ w.width) (hh : 320 ≤ w.height) (h : Pictured font w t start older l s) :
    Pictured font w t start older (l.hideCursor w) (s.hideCursor font w) :=
  (h.putGlyph hh 32).retract hw

theorem Pictured.showCursor (hw : 320 ≤ w.width) (hh : 320 ≤ w.height) (h : Pictured font w t start older l s) :
    Pictured font w t start older (l.showCursor w) (s.showCursor font w) :=
  (h.putGlyph hh 124).retract hw

theorem Pictured.retractToStart (hw : 320 ≤ w.width) {fuel : Nat} (h : Pictured font w t start older l s)
    (hs : retractToStart w fuel s.fonts = some t') :
    ∃ l', Layout.retractToStart w fuel l = some l' ∧
      Pictured font w t start older l' { s with fonts := t' } := by
  induction fuel generalizing l s with
  | zero => cases hs
  | succ fuel ih =>
    rw [Terminal.retractToStart] at hs
    rw [Layout.retractToStart, h.shows.x]
    split at hs
    · next hpos =>
      rw [if_pos hpos]
      exact ih (s := s.retractPosition w) (h.retract hw) hs
    · next hpos =>
      cases hs
      rw [if_neg hpos]
      exact ⟨l, rfl, h⟩

theorem Pictured.spacesToTab (hh : 320 ≤ w.height) {fuel : Nat}
    (h : Pictured font w t start older l s) (hs : s.spacesToTab font w fuel = some s') :
    ∃ l', Layout.spacesToTab w fuel l = some l' ∧ Pictured font w t start older l' s' := by
  induction fuel generalizing l s with
  | zero => cases hs
  | succ fuel ih =>
    have hput := h.putGlyph hh 32
    rw [Screen.spacesToTab] at hs
    rw [Layout.spacesToTab, hput.shows.x, hput.shows.size]
    split at hs
    · next hoff =>
      rw [if_pos hoff]
      exact ih hput hs
    · next hoff =>
      cases hs
      rw [if_neg hoff]
      exact ⟨_, rfl, hput⟩

theorem Pictured.putChar (hw : 320 ≤ w.width) (hh : 320 ≤ w.height) (h : Pictured font w t start older l s)
    {ascii : BitVec 8} (hs : s.putChar font w ascii = some s') :
    ∃ l', l.putChar w ascii = some l' ∧ Pictured font w t start older l' s' := by
  have hhidden := h.dirty.hideCursor hw hh
  simp only [Screen.putChar] at hs
  rw [Layout.putChar]
  split at hs
  · next hline =>
    cases hs
    rw [if_pos hline]
    exact ⟨_, rfl, hhidden.newLine hh⟩
  · next hline =>
    rw [if_neg hline]
    split at hs
    · next hreturn =>
      obtain ⟨t', ht', rfl⟩ := Option.map_eq_some_iff.mp hs
      rw [if_pos hreturn, hhidden.shows.x]
      exact hhidden.retractToStart hw ht'
    · next hreturn =>
      rw [if_neg hreturn]
      split at hs
      · next htab =>
        rw [if_pos htab]
        exact h.dirty.spacesToTab hh hs
      · next htab =>
        cases hs
        rw [if_neg htab]
        exact ⟨_, rfl, h.dirty.putGlyph hh ascii⟩

/-! ## Histories of calls -/

/-- A call that writes text, or draws or removes the cursor. -/
def Layout.write (w : Window) : TextCall ⊕ Blink → Layout → Option Layout
  | .inl c, l => Layout.text w c l
  | .inr .showCursor, l => some (l.showCursor w)
  | .inr .hideCursor, l => some (l.hideCursor w)

def writeCall : TextCall ⊕ Blink → Call := Sum.elim TextCall.call Blink.call

/-- **Step.** A call does to the layout what it does to the screen. -/
theorem Pictured.write (hw : 320 ≤ w.width) (hh : 320 ≤ w.height) (h : Pictured font w t start older l s)
    (c : TextCall ⊕ Blink) :
    ∃ s' l', s.step font w (writeCall c) = some s' ∧ l.write w c = some l' ∧
      Pictured font w t start older l' s' := by
  rcases c with (ascii | _) | (_ | _)
  · obtain ⟨t', ht'⟩ := @text_isSome font w s.fonts hw h.placed.x_nonneg (.putChar ascii)
    obtain ⟨s', hs', -⟩ := Option.map_eq_some_iff.mp ((s.step_fonts (.putChar ascii)).trans ht')
    obtain ⟨l', hl', h'⟩ := h.putChar hw hh hs'
    exact ⟨s', l', hs', hl', h'⟩
  · exact ⟨_, _, rfl, rfl, ((h.hideCursor hw hh).retract hw).showCursor hw hh⟩
  · exact ⟨_, _, rfl, rfl, h.showCursor hw hh⟩
  · exact ⟨_, _, rfl, rfl, h.hideCursor hw hh⟩

/-- No call steps back over less than a glyph. -/
theorem Pictured.fits (h : Pictured font w t start older l s) (c : TextCall ⊕ Blink) :
    Fits w s.fonts (writeCall c) := by
  rcases c with (ascii | _) | (_ | _)
  · intro _
    have hdvd := h.aligned.dvd
    rw [h.shows.x, h.shows.size] at hdvd
    unfold drawColumn
    split
    · exact Int.dvd_zero _
    · exact hdvd
  · exact h.canRetract
  · trivial
  · trivial

/-- A cleared screen shows a layout with nothing drawn. -/
theorem Pictured.cleared (hw : 320 ≤ w.width) (hh : 320 ≤ w.height) (t : Fonts) (start : Roll) :
    Pictured font w t start [] (clear t).layout (Screen.clear (Screen.blank t)) := by
  have hglyph := t.glyphWidth_bounds
  have htidy := Tidy.clear (w := w) (t := { t with pixels := [] }) hh fun p hp => (List.not_mem_nil hp).elim
  refine ⟨⟨rfl, rfl, rfl, rfl⟩, ⟨rfl, rfl, rfl⟩, htidy.placed, ⟨le_rfl, Int.dvd_zero _, ?_, ?_⟩, ?_, ?_, ?_⟩
  · show 0 < t.glyphWidth
    omega
  · show t.glyphWidth ≤ w.width
    omega
  · exact (Int.add_zero _).symm
  · exact ⟨[], rfl, fun x y => if_pos ⟨Nat.le_add_right _ _, trivial⟩, rfl⟩
  · exact fun g hg => (List.not_mem_nil hg).elim

/-- **Run.** Any history of calls returns, draws the glyphs of its layout, and calls the driver within the window
    only. -/
theorem Pictured.run (hw : 320 ≤ w.width) (hh : 320 ≤ w.height) (h : Pictured font w t start older l s)
    (cs : List (TextCall ⊕ Blink)) :
    ∃ s' l', GuardedRun (Screen.step font w) (fun s c => Fits w s.fonts c) s (cs.map writeCall) s' ∧
      cs.foldlM (fun l c => l.write w c) l = some l' ∧ Pictured font w t start older l' s' := by
  induction cs generalizing l s with
  | nil => exact ⟨s, l, .nil s, rfl, h⟩
  | cons c cs ih =>
    obtain ⟨s1, l1, hs1, hl1, h1⟩ := h.write hw hh c
    obtain ⟨s', l', hrun, hlayout, h'⟩ := ih h1
    refine ⟨s', l', .cons (h.fits c) hs1 hrun, ?_, h'⟩
    rw [List.foldlM_cons, hl1]
    exact hlayout

/-- What the driver was called for within the window is in the frame buffer. -/
theorem Pictured.framed {mode : VbeMode} (framebuffer : Memory)
    (h : Pictured font mode.toWindow t (.of mode framebuffer) older l s)
    (hinside : ∀ c ∈ s.calls, c.Inside mode.toWindow) :
    (∃ latest, l.drawn = latest ++ older.map Stroke.glyph ∧ ∀ x y, x < mode.width → y < mode.height →
      mode.grid.pixel (execCalls mode s.calls framebuffer) x y =
        rgb (colorAt font t.fontSize (latest.map t.stroke ++ older) x (y + l.scrolled))) ∧
    ∀ a, ¬ mode.grid.Owns a → execCalls mode s.calls framebuffer a = framebuffer a := by
  have hshown := (Roll.shownBy_of mode framebuffer).execCalls hinside
  obtain ⟨latest, hlatest, hpaper, -⟩ := h.paper
  refine ⟨⟨latest, hlatest, fun x y hx hy => ?_⟩, hshown.frame⟩
  have htop := h.top
  obtain ⟨row, hrow⟩ : ∃ row : Nat, (y : Int) + l.scrolled = row := by
    refine Int.eq_ofNat_of_zero_le ?_
    have hzero : ((Roll.of mode framebuffer).top : Int) = 0 := rfl
    omega
  rw [hshown.pixel x y ⟨hx, hy⟩, hrow, ← hpaper x row]
  congr 1
  omega

/-- The same where nothing is older than the ink. -/
theorem Pictured.framed_ink {mode : VbeMode} (framebuffer : Memory)
    (h : Pictured font mode.toWindow t (.of mode framebuffer) [] l s)
    (hinside : ∀ c ∈ s.calls, c.Inside mode.toWindow) :
    (∀ x y, x < mode.width → y < mode.height →
      mode.grid.pixel (execCalls mode s.calls framebuffer) x y =
        rgb (inkAt font t l.drawn x (y + l.scrolled))) ∧
    ∀ a, ¬ mode.grid.Owns a → execCalls mode s.calls framebuffer a = framebuffer a := by
  obtain ⟨⟨latest, hlatest, hpixel⟩, hframe⟩ := h.framed framebuffer hinside
  rw [List.map_nil, List.append_nil] at hlatest
  refine ⟨fun x y hx hy => ?_, hframe⟩
  rw [hpixel x y hx hy, List.append_nil, inkAt, hlatest]

/-- **The frame buffer shows the text.** Whatever text is written from a cleared screen on, with the cursor drawn
    and removed at any time, each pixel of the window has the colour of the latest glyph that lies there in
    the text, and no byte that belongs to no pixel is changed. -/
theorem text_in_frame_buffer {mode : VbeMode} (hw : 320 ≤ mode.width) (hh : 320 ≤ mode.height)
    (font : Int → BitVec 8) (t : Fonts) (cs : List (TextCall ⊕ Blink)) (framebuffer : Memory) :
    ∃ s l, GuardedRun (Screen.step font mode.toWindow) (fun _ _ => True) (Screen.clear (Screen.blank t))
        (cs.map writeCall) s ∧
      cs.foldlM (fun l c => l.write mode.toWindow c) (clear t).layout = some l ∧
      (∀ x y, x < mode.width → y < mode.height →
        mode.grid.pixel (execCalls mode s.calls framebuffer) x y =
          rgb (inkAt font t l.drawn x (y + l.scrolled))) ∧
      ∀ a, ¬ mode.grid.Owns a → execCalls mode s.calls framebuffer a = framebuffer a := by
  have hcleared := @Pictured.cleared font mode.toWindow hw hh t (.of mode framebuffer)
  obtain ⟨s, l, hrun, hlayout, h⟩ := hcleared.run hw hh cs
  exact ⟨s, l, hrun.mono fun _ _ _ => trivial, hlayout, h.framed_ink framebuffer (Screen.calls_inside hw hh hrun)⟩

/-- A character is written, the cursor is drawn behind it, and both are erased. -/
theorem text_in_frame_buffer_erased : ∃ s l,
    GuardedRun (Screen.step (fun _ => 0) bootMode.toWindow) (fun _ _ => True)
      (Screen.clear (Screen.blank Fonts.boot)) [.putChar 97, .showCursor, .clearPreviousCharacter] s ∧
    [Sum.inl (.putChar 97), .inr .showCursor, .inl .clearPreviousCharacter].foldlM
      (fun l c => l.write bootMode.toWindow c) (clear Fonts.boot).layout = some l ∧
    (∀ x y, x < 1024 → y < 768 →
      bootMode.grid.pixel (execCalls bootMode s.calls fun _ => 7) x y =
        rgb (inkAt (fun _ => 0) Fonts.boot l.drawn x (y + l.scrolled))) ∧
    ∀ a, ¬ bootMode.grid.Owns a → execCalls bootMode s.calls (fun _ => 7) a = 7 :=
  text_in_frame_buffer (by decide) (by decide) (fun _ => 0) Fonts.boot
    [.inl (.putChar 97), .inr .showCursor, .inl .clearPreviousCharacter] fun _ => 7

/-! ## Plain text -/

/-- The glyph of the `n`-th character, with `C` of them in a line. -/
def glyphOf (t : Fonts) (C n : Nat) (ascii : BitVec 8) : Glyph where
  ascii := ascii
  x := (n % C * t.glyphWidth : Nat)
  y := (n / C * t.glyphWidth : Nat)

/-- The place of the `n`-th character. -/
def strokeOf (t : Fonts) (C n : Nat) (c : Cell) : Stroke where
  toCell := c
  x := (n % C * t.glyphWidth : Nat)
  y := (n / C * t.glyphWidth : Nat)

/-- The line of the last of `n` characters. -/
def lastLine (C n : Nat) : Nat := (n - 1) / C

/-- The lines that `n` characters leave above the window. -/
def linesScrolled (w : Window) (t : Fonts) (n : Nat) : Nat :=
  lastLine (w.width / t.glyphWidth) n + 1 - w.height / t.glyphWidth

/-- The layout of characters that are drawn one after the other. -/
structure Typed (w : Window) (t : Fonts) (text : List (BitVec 8)) (l : Layout) : Prop where
  size : l.size = t.glyphWidth
  lineHeight : l.lineHeight = t.glyphWidth
  x : l.x = ((text.length - w.width / t.glyphWidth * lastLine (w.width / t.glyphWidth) text.length) *
    t.glyphWidth : Nat)
  y : l.y + l.scrolled = (lastLine (w.width / t.glyphWidth) text.length * t.glyphWidth : Nat)
  scrolled : l.scrolled = (linesScrolled w t text.length * t.glyphWidth : Nat)
  drawn : l.drawn = (text.mapIdx (glyphOf t (w.width / t.glyphWidth))).reverse

/-- The colour of a point where characters stand one after the other. -/
def cellColor (font : Int → BitVec 8) (t : Fonts) (C : Nat) (cells : List Cell) (x y : Nat) : BitVec 32 :=
  if x / t.glyphWidth < C then
    match cells[y / t.glyphWidth * C + x / t.glyphWidth]? with
    | some c => c.color font t.fontSize (x % t.glyphWidth) (y % t.glyphWidth)
    | none => DEFAULT_BACKGROUND_COLOR
  else DEFAULT_BACKGROUND_COLOR

/-- The colour of a point of plain text in the colours of `t`. -/
def typedColor (font : Int → BitVec 8) (t : Fonts) (C : Nat) (text : List (BitVec 8)) : Nat → Nat → BitVec 32 :=
  cellColor font t C (text.map t.cell)

/-- A point lies in the cell of the `n`-th character. -/
theorem cell_iff {g C n x y : Nat} (hg : 0 < g) (hC : 0 < C) :
    ((n % C * g ≤ x ∧ x < n % C * g + g) ∧ n / C * g ≤ y ∧ y < n / C * g + g) ↔
      x / g < C ∧ y / g * C + x / g = n := by
  have hx : (n % C * g ≤ x ∧ x < n % C * g + g) ↔ x / g = n % C := by
    rw [Nat.div_eq_iff hg]
    omega
  have hy : (n / C * g ≤ y ∧ y < n / C * g + g) ↔ y / g = n / C := by
    rw [Nat.div_eq_iff hg]
    omega
  have hunique : n / C = y / g ∧ n % C = x / g ↔ x / g + C * (y / g) = n ∧ x / g < C :=
    Nat.div_mod_unique hC
  rw [hx, hy, Nat.mul_comm (y / g) C]
  constructor
  · rintro ⟨hcolumn, hline⟩
    obtain ⟨hsum, hlt⟩ := hunique.mp ⟨hline.symm, hcolumn.symm⟩
    exact ⟨hlt, by omega⟩
  · rintro ⟨hlt, hsum⟩
    obtain ⟨hline, hcolumn⟩ := hunique.mpr ⟨by omega, hlt⟩
    exact ⟨hcolumn.symm, hline.symm⟩

/-- The characters colour the points of their cells. -/
theorem colorAt_cells {C : Nat} (hC : 0 < C) (cells : List Cell) (x y : Nat) :
    colorAt font t.fontSize (cells.mapIdx (strokeOf t C)).reverse x y = cellColor font t C cells x y := by
  have hg : 0 < t.glyphWidth := by
    have hbounds := t.glyphWidth_bounds
    omega
  induction cells using List.reverseRecOn with
  | nil =>
    rw [cellColor]
    split <;> rfl
  | append_singleton cells c ih =>
    rw [List.mapIdx_concat, List.reverse_concat, colorAt, ih]
    have hcell := @cell_iff t.glyphWidth C cells.length x y hg hC
    have hwidth : DEFAULT_GLYPH_SIZE_X * t.fontSize = t.glyphWidth := rfl
    have hheight : DEFAULT_GLYPH_SIZE_Y * t.fontSize = t.glyphWidth := rfl
    have hcover : (((strokeOf t C cells.length c).x ≤ x ∧
          (x : Int) < (strokeOf t C cells.length c).x + t.glyphWidth) ∧
        (strokeOf t C cells.length c).y ≤ y ∧
          (y : Int) < (strokeOf t C cells.length c).y + t.glyphWidth) ↔
        x / t.glyphWidth < C ∧ y / t.glyphWidth * C + x / t.glyphWidth = cells.length := by
      rw [← hcell]
      simp only [strokeOf]
      omega
    rw [hwidth, hheight]
    by_cases hin : x / t.glyphWidth < C ∧ y / t.glyphWidth * C + x / t.glyphWidth = cells.length
    · obtain ⟨⟨hx0, hx1⟩, hy0, hy1⟩ := hcell.mpr hin
      rw [if_pos (hcover.mpr hin), cellColor, if_pos hin.1, hin.2, List.getElem?_concat_length]
      have hx := (Nat.div_eq_iff hg).mpr (show cells.length % C * t.glyphWidth ≤ x ∧
        x ≤ cells.length % C * t.glyphWidth + t.glyphWidth - 1 by omega)
      have hy := (Nat.div_eq_iff hg).mpr (show cells.length / C * t.glyphWidth ≤ y ∧
        y ≤ cells.length / C * t.glyphWidth + t.glyphWidth - 1 by omega)
      have hxmod := Nat.div_add_mod' x t.glyphWidth
      have hymod := Nat.div_add_mod' y t.glyphWidth
      rw [hx] at hxmod
      rw [hy] at hymod
      simp only [strokeOf]
      congr 1
      · omega
      · omega
    · rw [if_neg (fun hcovered => hin (hcover.mp hcovered)), cellColor, cellColor]
      split
      · next hcolumn =>
        have hne : y / t.glyphWidth * C + x / t.glyphWidth ≠ cells.length := fun heq => hin ⟨hcolumn, heq⟩
        rcases Nat.lt_or_gt_of_ne hne with hlt | hgt
        · rw [List.getElem?_append_left hlt]
        · rw [List.getElem?_eq_none (by omega), List.getElem?_eq_none (by simp; omega)]
      · rfl

/-- The glyphs of plain text colour the points as the text says. -/
theorem inkAt_typed {C : Nat} (hC : 0 < C) (text : List (BitVec 8)) (x y : Nat) :
    inkAt font t (text.mapIdx (glyphOf t C)).reverse x y = typedColor font t C text x y := by
  have hstrokes : (text.mapIdx (glyphOf t C)).reverse.map t.stroke =
      ((text.map t.cell).mapIdx (strokeOf t C)).reverse := by
    rw [List.map_reverse]
    congr 1
    apply List.ext_getElem?
    intro n
    simp only [List.getElem?_map, List.getElem?_mapIdx, Option.map_map]
    rfl
  rw [inkAt, hstrokes, colorAt_cells hC]
  rfl

/-- `n` characters stand in the lines up to their last one, and fill the others. -/
theorem lastLine_bounds {C : Nat} (hC : 0 < C) (n : Nat) :
    C * lastLine C n ≤ n ∧ n ≤ C * lastLine C n + C := by
  have hdiv := Nat.div_add_mod (n - 1) C
  have hmod := Nat.mod_lt (n - 1) hC
  unfold lastLine
  omega

/-- The line of one more character. -/
theorem lastLine_succ {C : Nat} (hC : 0 < C) (n : Nat) :
    lastLine C (n + 1) = if n = C * lastLine C n + C then lastLine C n + 1 else lastLine C n := by
  obtain ⟨hle, hge⟩ := lastLine_bounds hC n
  have hline : lastLine C (n + 1) = n / C := rfl
  rw [hline]
  split
  · next hfull =>
    rw [Nat.div_eq_iff hC, Nat.add_mul, Nat.mul_comm (lastLine C n) C]
    omega
  · next hroom =>
    rw [Nat.div_eq_iff hC, Nat.mul_comm (lastLine C n) C]
    omega

/-- Glyphs that end behind the window, counted in glyphs. -/
theorem lt_mul_iff {g : Nat} (hg : 0 < g) (bound k : Nat) : (k * g : Nat) + g > bound ↔ bound / g < k + 1 := by
  rw [Nat.div_lt_iff_lt_mul hg, Nat.succ_mul]

/-- **Before a character** the cursor goes to its place, and the text is scrolled if that is below the window. -/
theorem Typed.settle (hw : 320 ≤ w.width) (hh : 320 ≤ w.height) {text : List (BitVec 8)}
    (h : Typed w t text l) :
    (l.settle w).x = (text.length % (w.width / t.glyphWidth) * t.glyphWidth : Nat) ∧
    (l.settle w).y + (l.settle w).scrolled = (text.length / (w.width / t.glyphWidth) * t.glyphWidth : Nat) ∧
    (l.settle w).scrolled = (linesScrolled w t (text.length + 1) * t.glyphWidth : Nat) ∧
    (l.settle w).size = t.glyphWidth ∧ (l.settle w).lineHeight = t.glyphWidth := by
  have hbounds := t.glyphWidth_bounds
  have hg : 0 < t.glyphWidth := by omega
  have hC : 0 < w.width / t.glyphWidth := Nat.div_pos (by omega) hg
  have hL : 0 < w.height / t.glyphWidth := Nat.div_pos (by omega) hg
  obtain ⟨hle, hge⟩ := lastLine_bounds hC text.length
  have hsucc := lastLine_succ hC text.length
  rw [show lastLine (w.width / t.glyphWidth) (text.length + 1) =
    text.length / (w.width / t.glyphWidth) from rfl] at hsucc
  have hdiv := Nat.div_add_mod text.length (w.width / t.glyphWidth)
  have hx := h.x
  have hy := h.y
  have hscrolled := h.scrolled
  have hsize := h.size
  have hheight := h.lineHeight
  have hwide := lt_mul_iff hg w.width
    (text.length - w.width / t.glyphWidth * lastLine (w.width / t.glyphWidth) text.length)
  have hhigh := lt_mul_iff hg w.height
    (lastLine (w.width / t.glyphWidth) text.length - linesScrolled w t text.length + 1)
  rw [linesScrolled, show lastLine (w.width / t.glyphWidth) (text.length + 1) =
    text.length / (w.width / t.glyphWidth) from rfl]
  unfold linesScrolled at hscrolled hhigh
  -- the cells of a line, the lines of the window, a cell's pixels, the characters so far and their last line
  generalize w.width / t.glyphWidth = C at *
  generalize w.height / t.glyphWidth = L at *
  generalize t.glyphWidth = g at *
  generalize text.length = n at *
  generalize lastLine C n = m at *
  by_cases hfull : n = C * m + C
  · have hk : n - C * m = C := by omega
    rw [if_pos hfull] at hsucc
    rw [hsucc, Nat.mul_succ] at hdiv
    have hmod : n % C = 0 := by omega
    rw [hk] at hx hwide
    have hover : l.x + l.size > w.width := by
      have hgt := hwide.mpr (Nat.lt_succ_self C)
      omega
    rw [Layout.settle, if_pos hover, hmod, hsucc, Nat.zero_mul, Nat.succ_mul]
    rw [Nat.succ_mul, Nat.sub_mul] at hhigh
    have hbelow : (m + 1 - L) * g ≤ m * g := Nat.mul_le_mul_right g (by omega)
    refine ⟨Layout.newLine_x l, ?_, ?_, (Layout.newLine_size l).trans hsize,
      (Layout.newLine_lineHeight l).trans hsize⟩
    · rw [Layout.newLine_line]
      omega
    · rw [Layout.newLine_scrolled]
      by_cases hscroll : L < m - (m + 1 - L) + 1 + 1
      · have hlow := hhigh.mpr hscroll
        have hlines : m + 1 + 1 - L = m + 1 - L + 1 := by omega
        rw [if_pos (by omega), hlines, Nat.succ_mul]
        omega
      · have hhigh' := fun hgt => hscroll (hhigh.mp hgt)
        have hlines : m + 1 + 1 - L = m + 1 - L := by omega
        rw [if_neg (by omega), hlines]
        exact hscrolled
  · rw [if_neg hfull] at hsucc
    rw [hsucc] at hdiv
    have hmod : n - C * m = n % C := by omega
    rw [hmod] at hx hwide
    have hmodlt := Nat.mod_lt n hC
    have hroom : ¬ l.x + l.size > w.width := by
      have hfits : ¬ n % C * g + g > w.width := fun hgt => by
        have hlt := hwide.mp hgt
        omega
      omega
    rw [Layout.settle, if_neg hroom, hsucc]
    exact ⟨hx, hy, hscrolled, hsize, hheight⟩

/-- Nothing has been typed on a cleared screen. -/
theorem Typed.cleared (hh : 320 ≤ w.height) (hline : t.maxGlyphSizeYOnLine = t.glyphHeight) :
    Typed w t [] (clear t).layout := by
  have hbounds := t.glyphWidth_bounds
  have hL : 0 < w.height / t.glyphWidth := Nat.div_pos (by omega) (by omega)
  have hzero : lastLine (w.width / t.glyphWidth) 0 = 0 := Nat.zero_div _
  have htop : linesScrolled w t 0 = 0 := by
    rw [linesScrolled, hzero]
    omega
  refine ⟨rfl, hline, ?_, ?_, ?_, rfl⟩
  · rw [List.length_nil, hzero, Nat.mul_zero, Nat.sub_zero, Nat.zero_mul]
    rfl
  · rw [List.length_nil, hzero, Nat.zero_mul]
    rfl
  · rw [List.length_nil, htop, Nat.zero_mul]
    rfl

/-- **One more character.** -/
theorem Typed.putGlyph (hw : 320 ≤ w.width) (hh : 320 ≤ w.height) {text : List (BitVec 8)}
    (h : Typed w t text l) (ascii : BitVec 8) : Typed w t (text ++ [ascii]) (l.putGlyph w ascii) := by
  have hbounds := t.glyphWidth_bounds
  obtain ⟨hx, hy, hscrolled, hsize, hline⟩ := h.settle hw hh
  have hdiv := Nat.div_add_mod text.length (w.width / t.glyphWidth)
  have hlast : lastLine (w.width / t.glyphWidth) (text ++ [ascii]).length =
      text.length / (w.width / t.glyphWidth) := by
    rw [List.length_append]
    rfl
  have hlength : (text ++ [ascii]).length = text.length + 1 := List.length_append
  refine ⟨hsize, hline, ?_, ?_, ?_, ?_⟩
  · have hcolumn : text.length + 1 -
        w.width / t.glyphWidth * (text.length / (w.width / t.glyphWidth)) =
          text.length % (w.width / t.glyphWidth) + 1 := by omega
    show (l.settle w).x + (l.settle w).size = _
    rw [hlast, hlength, hcolumn, hx, hsize, Nat.succ_mul]
    omega
  · rw [hlast]
    exact hy
  · rw [hlength]
    exact hscrolled
  · show _ :: (l.settle w).drawn = _
    rw [Layout.settle_drawn, h.drawn, List.mapIdx_concat, List.reverse_concat, hx, hy]
    rfl

/-- A character that `putChar` draws. -/
def IsDrawn (ascii : BitVec 8) : Prop :=
  ascii ≠ NEW_LINE_CHAR ∧ ascii ≠ CARRIAGE_RETURN_CHAR ∧ ascii ≠ TABULATOR_CHAR

instance (ascii : BitVec 8) : Decidable (IsDrawn ascii) := inferInstanceAs (Decidable (_ ∧ _ ∧ _))

theorem Typed.run (hw : 320 ≤ w.width) (hh : 320 ≤ w.height) {text rest : List (BitVec 8)}
    (h : Typed w t text l) (hdrawn : ∀ a ∈ rest, IsDrawn a)
    (hrun : (rest.map fun a => Sum.inl (TextCall.putChar a)).foldlM (fun l c => Layout.write w c l) l =
      some l') : Typed w t (text ++ rest) l' := by
  induction rest generalizing text l with
  | nil =>
    cases hrun
    rw [List.append_nil]
    exact h
  | cons a rest ih =>
    obtain ⟨hline, hreturn, htab⟩ := hdrawn a List.mem_cons_self
    have hput : Layout.write w (.inl (.putChar a)) l = some (l.putGlyph w a) := by
      show Layout.putChar w a l = _
      rw [Layout.putChar, if_neg hline, if_neg hreturn, if_neg htab]
    rw [List.map_cons, List.foldlM_cons, hput] at hrun
    rw [List.append_cons]
    exact ih (h.putGlyph hw hh a) (fun b hb => hdrawn b (List.mem_cons_of_mem a hb)) hrun

/-- **Text in the frame buffer.** After a text of drawn characters on a cleared screen, its characters stand in the
    cells of the window one after the other, scrolled by as many whole lines as it takes to show the last one, and
    every other pixel of the window is blank. -/
theorem plain_text_in_frame_buffer {mode : VbeMode} (hw : 320 ≤ mode.width) (hh : 320 ≤ mode.height)
    (font : Int → BitVec 8) {t : Fonts} (hline : t.maxGlyphSizeYOnLine = t.glyphHeight)
    {text : List (BitVec 8)} (hdrawn : ∀ a ∈ text, IsDrawn a) (framebuffer : Memory) :
    ∃ s, GuardedRun (Screen.step font mode.toWindow) (fun _ _ => True) (Screen.clear (Screen.blank t))
        (text.map Call.putChar) s ∧
      ∀ x y, x < mode.width → y < mode.height →
        mode.grid.pixel (execCalls mode s.calls framebuffer) x y =
          rgb (typedColor font t (mode.width / t.glyphWidth) text x
            (y + linesScrolled mode.toWindow t text.length * t.glyphWidth)) := by
  have hbounds := t.glyphWidth_bounds
  have hC : 0 < mode.width / t.glyphWidth := Nat.div_pos (by omega) (by omega)
  have hL : 0 < mode.height / t.glyphWidth := Nat.div_pos (by omega) (by omega)
  have hcleared := @Pictured.cleared font mode.toWindow hw hh t (.of mode framebuffer)
  obtain ⟨s, l, hrun, hlayout, h⟩ := hcleared.run hw hh (text.map fun a => .inl (.putChar a))
  have hcalls : (text.map fun a => Sum.inl (TextCall.putChar a)).map writeCall = text.map Call.putChar := by
    rw [List.map_map]
    rfl
  rw [hcalls] at hrun
  have htyped := (Typed.cleared (w := mode.toWindow) hh hline).run hw hh hdrawn hlayout
  rw [List.nil_append] at htyped
  refine ⟨s, hrun.mono fun _ _ _ => trivial, fun x y hx hy => ?_⟩
  rw [(h.framed_ink framebuffer (Screen.calls_inside hw hh hrun)).1 x y hx hy, htyped.drawn, htyped.scrolled,
    ← inkAt_typed hC]
  congr 2

/-- With a font of solid glyphs the second of two characters covers its cell, and the third cell is blank. -/
theorem plain_text_in_frame_buffer_two : ∃ s,
    GuardedRun (Screen.step (fun _ => 0xFF) bootMode.toWindow) (fun _ _ => True)
      (Screen.clear (Screen.blank Fonts.boot)) [.putChar 104, .putChar 105] s ∧
    bootMode.grid.pixel (execCalls bootMode s.calls fun _ => 7) 9 3 = rgb 0xFFFFFF ∧
    bootMode.grid.pixel (execCalls bootMode s.calls fun _ => 7) 17 3 = rgb 0 := by
  obtain ⟨s, hrun, hpixel⟩ := @plain_text_in_frame_buffer bootMode (by decide) (by decide)
    (fun _ => 0xFF) Fonts.boot rfl [104, 105] (by decide) fun _ => 7
  exact ⟨s, hrun, (hpixel 9 3 (by decide) (by decide)).trans rfl,
    (hpixel 17 3 (by decide) (by decide)).trans rfl⟩

end TpSo.Terminal
