import TpSo.Terminal.OnScreen

set_option autoImplicit false

/-! # The blinking cursor and the text

`Layout` is the text as `fonts.c` lays it out: the cursor, how far the text has been scrolled, and what has been
drawn, each glyph at its place in the text and not on the screen. Its functions are those of `fonts.c` without
the pixels, and keep to them step by step (`Shows`).

Every call begins by putting a glyph, and so with a new line when the line is full. The cursor does that new line
early, and draws itself: `settle` says what it does to the place of the text, and no call can tell `settle l`
from `l`. -/

namespace TpSo.Terminal

/-- A glyph that has been drawn. Its line is counted in pixels from where the text began, so that it does not
    change when the text is scrolled. -/
structure Glyph where
  ascii : BitVec 8
  x : Int
  y : Int
  deriving DecidableEq

/-- The layout of the text. `size` is that of a glyph, in pixels; `scrolled` counts the pixels of the calls of
    `scrollVideoMemoryUp`. -/
structure Layout where
  size : Nat
  x : Int
  y : Int
  lineHeight : Nat
  scrolled : Int := 0
  drawn : List Glyph := []

namespace Layout

variable (w : Window)

/-- `scrollBufferPositionIfNeeded`. -/
def scrollIfNeeded (l : Layout) : Layout :=
  if l.y + l.size > w.height then { l with y := l.y - l.size, scrolled := l.scrolled + l.size } else l

/-- `newLine`. -/
def newLine (l : Layout) : Layout :=
  scrollIfNeeded w { l with x := 0, y := l.y + l.lineHeight, lineHeight := l.size }

/-- `retractPosition`. -/
def retract (l : Layout) : Layout :=
  if l.x = 0 then
    if l.y - l.size < 0 then { l with y := 0 }
    else { l with y := l.y - l.size, x := (w.width - w.width % l.size : Nat) - (l.size : Int) }
  else { l with x := l.x - l.size }

/-- What `putChar` does before it draws: a new line if this one is full. -/
def settle (l : Layout) : Layout := if l.x + l.size > w.width then l.newLine w else l

/-- `putChar` of a character that is drawn. -/
def putGlyph (ascii : BitVec 8) (l : Layout) : Layout :=
  let l := l.settle w
  { l with x := l.x + l.size, drawn := { ascii := ascii, x := l.x, y := l.y + l.scrolled } :: l.drawn }

/-- `showCursor`. -/
def showCursor (l : Layout) : Layout := (l.putGlyph w 124).retract w

/-- `hideCursor`. -/
def hideCursor (l : Layout) : Layout := (l.putGlyph w 32).retract w

/-- `clearPreviousCharacter`. -/
def clearPrevious (l : Layout) : Layout := ((l.hideCursor w).retract w).showCursor w

/-- The loop of a carriage return. -/
def retractToStart : (fuel : Nat) → Layout → Option Layout
  | 0, _ => none
  | fuel + 1, l => if l.x > 0 then retractToStart fuel (l.retract w) else some l

/-- The loop of a tabulator. -/
def spacesToTab : (fuel : Nat) → Layout → Option Layout
  | 0, _ => none
  | fuel + 1, l =>
    let l := l.putGlyph w 32
    if l.x.tmod (TAB_SIZE * l.size : Nat) ≠ 0 then spacesToTab fuel l else some l

/-- `putChar`. -/
def putChar (ascii : BitVec 8) (l : Layout) : Option Layout :=
  if ascii = NEW_LINE_CHAR then some ((l.hideCursor w).newLine w)
  else if ascii = CARRIAGE_RETURN_CHAR then
    retractToStart w ((l.hideCursor w).x.toNat + 1) (l.hideCursor w)
  else if ascii = TABULATOR_CHAR then spacesToTab w (w.width + TAB_SIZE + 1) l
  else some (l.putGlyph w ascii)

end Layout

/-! ## Calls and blinks -/

/-- A call that writes text. -/
inductive TextCall
  | putChar (ascii : BitVec 8)
  | clearPreviousCharacter

/-- A call of the timer. -/
inductive Blink
  | showCursor | hideCursor

def TextCall.call : TextCall → Call
  | .putChar ascii => .putChar ascii
  | .clearPreviousCharacter => .clearPreviousCharacter

def Blink.call : Blink → Call
  | .showCursor => .showCursor
  | .hideCursor => .hideCursor

namespace Layout

variable (w : Window)

def text : TextCall → Layout → Option Layout
  | .putChar ascii, l => l.putChar w ascii
  | .clearPreviousCharacter, l => some (l.clearPrevious w)

def blink : Blink → Layout → Layout
  | .showCursor, l => l.showCursor w
  | .hideCursor, l => l.hideCursor w

/-- The layout with nothing drawn. -/
def bare (l : Layout) : Layout := { l with drawn := [] }

/-- The layout over glyphs that were drawn before. -/
def laidOver (older : List Glyph) (l : Layout) : Layout := { l with drawn := l.drawn ++ older }

/-! ## What a blink does -/

variable {w} {l l' : Layout}

/-- The cursor stands at a whole number of glyphs, of which one fits into a line. -/
structure Aligned (w : Window) (l : Layout) : Prop where
  nonneg : 0 ≤ l.x
  dvd : (l.size : Int) ∣ l.x
  size_pos : 0 < l.size
  size_le : l.size ≤ w.width

theorem newLine_x (l : Layout) : (l.newLine w).x = 0 := by
  unfold newLine scrollIfNeeded
  split
  · rfl
  · rfl

theorem newLine_size (l : Layout) : (l.newLine w).size = l.size := by
  unfold newLine scrollIfNeeded
  split
  · rfl
  · rfl

theorem newLine_drawn (l : Layout) : (l.newLine w).drawn = l.drawn := by
  unfold newLine scrollIfNeeded
  split
  · rfl
  · rfl

theorem Aligned.newLine (h : Aligned w l) : Aligned w (l.newLine w) := by
  refine ⟨?_, ?_, ?_, ?_⟩
  · rw [newLine_x]
  · rw [newLine_x]
    exact Int.dvd_zero _
  · rw [newLine_size]
    exact h.size_pos
  · rw [newLine_size]
    exact h.size_le

theorem Aligned.settle (h : Aligned w l) : Aligned w (l.settle w) := by
  unfold Layout.settle
  split
  · exact h.newLine
  · exact h

theorem settle_drawn (l : Layout) : (l.settle w).drawn = l.drawn := by
  unfold settle
  split
  · exact newLine_drawn l
  · rfl

/-- On a new line there is room. -/
theorem settle_settle (h : Aligned w l) : (l.settle w).settle w = l.settle w := by
  have hle := h.size_le
  by_cases hfull : l.x + l.size > w.width
  · rw [show l.settle w = l.newLine w from if_pos hfull]
    apply if_neg
    rw [newLine_x, newLine_size]
    omega
  · rw [show l.settle w = l from if_neg hfull]
    exact if_neg hfull

/-- **A blink** starts a new line if this one is full, and changes nothing else. -/
theorem retract_putGlyph (h : Aligned w l) (ascii : BitVec 8) :
    (l.putGlyph w ascii).retract w =
      { l.settle w with
        drawn :=
          { ascii := ascii, x := (l.settle w).x, y := (l.settle w).y + (l.settle w).scrolled } :: l.drawn } := by
  have hsettle := h.settle
  have hpos := hsettle.size_pos
  have hx := hsettle.nonneg
  have hdrawn := @settle_drawn w l
  rw [putGlyph]
  generalize l.settle w = m at *
  rw [retract, if_neg (by dsimp only; omega)]
  simp only [hdrawn, Int.add_sub_cancel]

theorem settle_bare (l : Layout) : (l.settle w).bare = l.bare.settle w := by
  unfold bare settle newLine scrollIfNeeded
  split_ifs <;> rfl

theorem blink_bare (h : Aligned w l) (b : Blink) : (l.blink w b).bare = l.bare.settle w := by
  rw [← settle_bare]
  cases b with
  | showCursor =>
    rw [blink, showCursor, retract_putGlyph h]
    rfl
  | hideCursor =>
    rw [blink, hideCursor, retract_putGlyph h]
    rfl

/-! ## What a call does after a blink -/

theorem putGlyph_settle (h : Aligned w l) (ascii : BitVec 8) :
    (l.settle w).putGlyph w ascii = l.putGlyph w ascii := by
  rw [putGlyph, putGlyph, settle_settle h]

theorem hideCursor_settle (h : Aligned w l) : (l.settle w).hideCursor w = l.hideCursor w := by
  rw [hideCursor, hideCursor, putGlyph_settle h]

/-- **Every call begins with a glyph**, and so does the same on a line that has been ended early. -/
theorem text_settle (h : Aligned w l) (c : TextCall) : text w c (l.settle w) = text w c l := by
  cases c with
  | clearPreviousCharacter =>
    rw [text, text, clearPrevious, clearPrevious, hideCursor_settle h]
  | putChar ascii =>
    have hspaces : spacesToTab w (w.width + TAB_SIZE + 1) (l.settle w) =
        spacesToTab w (w.width + TAB_SIZE + 1) l := by
      rw [spacesToTab, spacesToTab, putGlyph_settle h]
    rw [text, text, putChar, putChar, hideCursor_settle h, putGlyph_settle h, hspaces]

/-! ## Alignment -/

theorem Aligned.putGlyph (h : Aligned w l) (ascii : BitVec 8) : Aligned w (l.putGlyph w ascii) := by
  have hsettle := h.settle
  have hx := hsettle.nonneg
  refine ⟨?_, ?_, hsettle.size_pos, hsettle.size_le⟩
  · show 0 ≤ (l.settle w).x + (l.settle w).size
    omega
  · exact Int.dvd_add hsettle.dvd (Int.dvd_refl _)

theorem Aligned.retract (h : Aligned w l) : Aligned w (l.retract w) := by
  have hpos := h.size_pos
  have hle := h.size_le
  have hdiv := Nat.div_add_mod w.width l.size
  unfold Layout.retract
  split
  · split
    · exact ⟨h.nonneg, h.dvd, hpos, hle⟩
    · have hlines : (w.width - w.width % l.size : Nat) = l.size * (w.width / l.size) := by omega
      have hone : 1 ≤ w.width / l.size := (Nat.one_le_div_iff hpos).mpr hle
      have hle' : l.size * 1 ≤ l.size * (w.width / l.size) := Nat.mul_le_mul_left _ hone
      refine ⟨?_, ?_, hpos, hle⟩
      · show (0 : Int) ≤ (w.width - w.width % l.size : Nat) - (l.size : Int)
        omega
      · show (l.size : Int) ∣ (w.width - w.width % l.size : Nat) - (l.size : Int)
        rw [hlines]
        exact Int.dvd_sub (Int.natCast_dvd_natCast.mpr (Nat.dvd_mul_right _ _)) (Int.dvd_refl _)
  · next hx =>
    have hstart := h.nonneg
    have hglyph := Int.le_of_dvd (by omega) h.dvd
    exact ⟨Int.sub_nonneg_of_le hglyph, Int.dvd_sub h.dvd (Int.dvd_refl _), hpos, hle⟩

theorem Aligned.bare (h : Aligned w l) : Aligned w l.bare := ⟨h.nonneg, h.dvd, h.size_pos, h.size_le⟩

theorem Aligned.blink (h : Aligned w l) (b : Blink) : Aligned w (l.blink w b) := by
  cases b with
  | showCursor => exact (h.putGlyph 124).retract
  | hideCursor => exact (h.putGlyph 32).retract

/-- Any number of blinks is none, or is one. -/
theorem blinks_bare (h : Aligned w l) (blinks : List Blink) :
    (blinks.foldl (fun l b => l.blink w b) l).bare = l.bare ∨
      (blinks.foldl (fun l b => l.blink w b) l).bare = l.bare.settle w := by
  cases blinks with
  | nil => exact .inl rfl
  | cons b blinks =>
    right
    rw [List.foldl_cons, ← blink_bare h b]
    have hblinked := h.blink b
    have hsettled : (l.blink w b).bare.settle w = (l.blink w b).bare := by
      rw [blink_bare h, settle_settle h.bare]
    generalize l.blink w b = m at *
    induction blinks generalizing m with
    | nil => rfl
    | cons b blinks ih =>
      have hsame : (m.blink w b).bare = m.bare := (blink_bare hblinked b).trans hsettled
      rw [List.foldl_cons, ih (m.blink w b) (hblinked.blink b) (by rw [hsame, hsettled]), hsame]

theorem text_blinks (h : Aligned w l) (blinks : List Blink) (c : TextCall) :
    text w c (blinks.foldl (fun l b => l.blink w b) l).bare = text w c l.bare := by
  rcases blinks_bare h blinks with hnone | hsome
  · rw [hnone]
  · rw [hsome, text_settle h.bare]

/-! ## Over what was drawn before -/

section

variable {older : List Glyph}

theorem bare_over (l : Layout) : l.bare.laidOver l.drawn = l := rfl

theorem newLine_over (l : Layout) : (l.laidOver older).newLine w = (l.newLine w).laidOver older := by
  unfold laidOver newLine scrollIfNeeded
  split_ifs <;> rfl

theorem retract_over (l : Layout) : (l.laidOver older).retract w = (l.retract w).laidOver older := by
  unfold laidOver retract
  split_ifs <;> rfl

theorem putGlyph_over (ascii : BitVec 8) (l : Layout) :
    (l.laidOver older).putGlyph w ascii = (l.putGlyph w ascii).laidOver older := by
  have hsettle : (l.laidOver older).settle w = (l.settle w).laidOver older := by
    unfold settle
    rw [newLine_over]
    exact (apply_ite (laidOver older) _ _ _).symm
  rw [putGlyph, putGlyph, hsettle]
  rfl

theorem hideCursor_over (l : Layout) : (l.laidOver older).hideCursor w = (l.hideCursor w).laidOver older := by
  rw [hideCursor, hideCursor, putGlyph_over, retract_over]

theorem retractToStart_over {fuel : Nat} (l : Layout) :
    retractToStart w fuel (l.laidOver older) = (retractToStart w fuel l).map (laidOver older) := by
  induction fuel generalizing l with
  | zero => rfl
  | succ fuel ih =>
    rw [retractToStart, retractToStart, retract_over, ih]
    simp only [apply_ite (Option.map (laidOver older)), Option.map_some]
    rfl

theorem spacesToTab_over {fuel : Nat} (l : Layout) :
    spacesToTab w fuel (l.laidOver older) = (spacesToTab w fuel l).map (laidOver older) := by
  induction fuel generalizing l with
  | zero => rfl
  | succ fuel ih =>
    rw [spacesToTab, spacesToTab, putGlyph_over, ih]
    simp only [apply_ite (Option.map (laidOver older)), Option.map_some]
    rfl

/-- **A call** draws the same over what was drawn before. -/
theorem text_over (c : TextCall) (l : Layout) : text w c (l.laidOver older) = (text w c l).map (laidOver older) := by
  cases c with
  | clearPreviousCharacter =>
    simp only [text, clearPrevious, showCursor, hideCursor_over, retract_over, putGlyph_over, Option.map_some]
  | putChar ascii =>
    rw [text, text, putChar, putChar, hideCursor_over, newLine_over, putGlyph_over, spacesToTab_over,
      show ((l.hideCursor w).laidOver older).x = (l.hideCursor w).x from rfl, retractToStart_over]
    simp only [apply_ite (Option.map (laidOver older)), Option.map_some]

end

end Layout

/-! ## The static variables -/

section

open Layout

variable {font : Int → BitVec 8} {w : Window} {l : Layout} {t t' : Fonts}

/-- The layout is that of the static variables. -/
structure Shows (l : Layout) (t : Fonts) : Prop where
  size : l.size = t.glyphWidth
  x : l.x = t.xBufferPosition
  y : l.y = t.yBufferPosition
  lineHeight : l.lineHeight = t.maxGlyphSizeYOnLine

/-- The layout that the static variables describe, with nothing drawn yet. -/
def Fonts.layout (t : Fonts) : Layout where
  size := t.glyphWidth
  x := t.xBufferPosition
  y := t.yBufferPosition
  lineHeight := t.maxGlyphSizeYOnLine

theorem Shows.dirty (h : Shows l t) (dirty : Bool) : Shows l { t with dirtyLine := dirty } :=
  ⟨h.size, h.x, h.y, h.lineHeight⟩

theorem Shows.scrollIfNeeded (h : Shows l t) :
    Shows (l.scrollIfNeeded w) (scrollBufferPositionIfNeeded w t) := by
  have hglyph := t.glyphHeight_eq
  have hiff : l.y + l.size > w.height ↔ t.yBufferPosition + t.glyphHeight > w.height := by
    rw [h.y, h.size, hglyph]
  unfold Layout.scrollIfNeeded scrollBufferPositionIfNeeded
  by_cases hscroll : l.y + l.size > w.height
  · rw [if_pos hscroll, if_pos (hiff.mp hscroll)]
    refine ⟨h.size, h.x, ?_, h.lineHeight⟩
    show l.y - l.size = t.yBufferPosition - t.glyphHeight
    rw [h.y, h.size, hglyph]
  · rw [if_neg hscroll, if_neg (fun hgt => hscroll (hiff.mpr hgt))]
    exact h

theorem Shows.newLine (h : Shows l t) : Shows (l.newLine w) (newLine w t) := by
  apply Shows.scrollIfNeeded
  refine ⟨h.size, rfl, ?_, h.size⟩
  show l.y + l.lineHeight = t.yBufferPosition + t.maxGlyphSizeYOnLine
  rw [h.y, h.lineHeight]

theorem Shows.retract (h : Shows l t) : Shows (l.retract w) (retractPosition w t) := by
  have hglyph := t.glyphHeight_eq
  unfold Layout.retract retractPosition
  rw [h.x, h.y, h.size, hglyph]
  split
  · split
    · exact ⟨rfl, rfl, rfl, h.lineHeight⟩
    · exact ⟨rfl, rfl, rfl, h.lineHeight⟩
  · exact ⟨rfl, rfl, rfl, h.lineHeight⟩

/-! ## Calls return -/

/-- A step back takes the cursor to the left, unless it stands at the start of the line. -/
theorem retractToStart_isSome {fuel : Nat} (hpos : 0 < fuel) (h : t.xBufferPosition < fuel) :
    (retractToStart w fuel t).isSome := by
  induction fuel generalizing t with
  | zero => exact absurd hpos (Nat.lt_irrefl 0)
  | succ fuel ih =>
    rw [retractToStart]
    split
    · next hright =>
      have hglyph := t.glyphWidth_bounds
      apply ih
      · omega
      · rw [retractPosition_x (by omega)]
        omega
    · rfl

/-- A call that writes text returns. -/
theorem text_isSome (hw : 320 ≤ w.width) (hx : 0 ≤ t.xBufferPosition) (c : TextCall) :
    ∃ t', step font w t c.call = some t' := by
  apply Option.isSome_iff_exists.mp
  cases c with
  | clearPreviousCharacter => rfl
  | putChar ascii =>
    rw [TextCall.call, step, putChar]
    split
    · rfl
    · split
      · exact retractToStart_isSome (Nat.succ_pos _) (by omega)
      · split
        · exact spacesToTab_isSome hw hx (by dsimp only; omega) (by omega)
        · rfl

end

end TpSo.Terminal
