import Mathlib.Algebra.Group.Nat.Hom
import Mathlib.Algebra.Order.Group.Unbundled.Int
import Mathlib.Data.Nat.Init

set_option autoImplicit false

/-! # The text terminal (`fonts.c`)

The cursor is `xBufferPosition`, `yBufferPosition`; a glyph of `8 * fontSize` pixels a side is drawn
there. The functions take the static variables and give them back; `pixels` is the list of
the `putPixel` calls of `renderFromBitmap`, latest first. What `fillVideoMemory` and
`scrollVideoMemoryUp` do to the frame buffer is left out. -/

namespace TpSo.Terminal

def DEFAULT_GLYPH_SIZE_X : Nat := 8
def DEFAULT_GLYPH_SIZE_Y : Nat := 8
def TAB_SIZE : Nat := 4
def NEW_LINE_CHAR : BitVec 8 := 10
def CARRIAGE_RETURN_CHAR : BitVec 8 := 13
def TABULATOR_CHAR : BitVec 8 := 9

/-- `getWindowWidth` and `getWindowHeight`, each a `uint16_t`. -/
structure Window where
  width : Nat
  height : Nat
  width_lt : width < 2 ^ 16
  height_lt : height < 2 ^ 16

/-- A call `putPixel(hexColor, x, y)`. -/
structure Pixel where
  hexColor : BitVec 32
  x : Nat
  y : Nat
  deriving DecidableEq

/-- The static variables of `fonts.c`. `fontSize` is only ever set to a size from 1 to 10, and the line height
    only to that of a glyph. -/
structure Fonts where
  fontSize : Nat
  xBufferPosition : Int
  yBufferPosition : Int
  maxGlyphSizeYOnLine : Nat
  dirtyLine : Bool
  textColor : BitVec 32
  backgroundColor : BitVec 32
  pixels : List Pixel
  fontSize_pos : 1 ≤ fontSize
  fontSize_le : fontSize ≤ 10
  line_le : maxGlyphSizeYOnLine ≤ 80

/-- `glyphSizeX * fontSize`. -/
def Fonts.glyphWidth (t : Fonts) : Nat := DEFAULT_GLYPH_SIZE_X * t.fontSize
/-- `glyphSizeY * fontSize`. -/
def Fonts.glyphHeight (t : Fonts) : Nat := DEFAULT_GLYPH_SIZE_Y * t.fontSize

theorem Fonts.glyphHeight_le (t : Fonts) : t.glyphHeight ≤ 80 := by
  have hle := t.fontSize_le
  simp only [Fonts.glyphHeight, DEFAULT_GLYPH_SIZE_Y]
  omega

/-- The conversion of an `int` to `uint64_t`. -/
def toUInt64 (i : Int) : Nat := (i % 2 ^ 64).toNat

section

variable (font : Int → BitVec 8) (w : Window)

/-! ## Drawing -/

/-- `renderFromBitmap`; `bitmap` is an offset from the table `font8x8_basic`. -/
def renderFromBitmap (t : Fonts) (bitmap : Int) (xBase yBase : Nat) : Fonts :=
  let row (x : Nat) : List Pixel :=
    let xs := Int.bmod (xBase + x : Nat) (2 ^ 32)
    let xo := x / t.fontSize
    (List.range t.glyphHeight).map fun y =>
      { hexColor := if (font (bitmap + (y / t.fontSize : Nat))).getLsbD xo then t.textColor
          else t.backgroundColor
        x := toUInt64 xs
        y := (yBase + y) % 2 ^ 64 }
  { t with pixels := ((List.range t.glyphWidth).flatMap row).reverse ++ t.pixels }

/-- `renderAscii`; a `char` is signed, so that every one is below 128. -/
def renderAscii (t : Fonts) (ascii : BitVec 8) (x y : Nat) : Fonts :=
  if ascii.toInt < 128 then renderFromBitmap font t (ascii.toInt * DEFAULT_GLYPH_SIZE_Y) x y else t

/-! ## The cursor -/

/-- `scrollBufferPositionIfNeeded`. -/
def scrollBufferPositionIfNeeded (t : Fonts) : Fonts :=
  if t.yBufferPosition + t.glyphHeight > w.height then
    { t with yBufferPosition := t.yBufferPosition - t.glyphHeight }
  else t

/-- `newLine`. -/
def newLine (t : Fonts) : Fonts :=
  scrollBufferPositionIfNeeded w
    { t with
      dirtyLine := false
      yBufferPosition := t.yBufferPosition + t.maxGlyphSizeYOnLine
      xBufferPosition := 0
      maxGlyphSizeYOnLine := t.glyphHeight
      line_le := t.glyphHeight_le }

/-- `clear`. -/
def clear (t : Fonts) : Fonts := { t with xBufferPosition := 0, yBufferPosition := 0 }

/-- `retractPosition`. -/
def retractPosition (t : Fonts) : Fonts :=
  if t.xBufferPosition = 0 then
    if t.yBufferPosition - t.glyphHeight < 0 then { t with yBufferPosition := 0 }
    else
      { t with
        yBufferPosition := t.yBufferPosition - t.glyphHeight
        xBufferPosition := (w.width - w.width % t.glyphWidth : Nat) - (t.glyphWidth : Int) }
  else { t with xBufferPosition := t.xBufferPosition - t.glyphWidth }

/-- `putChar` of a character that is drawn: the default branch. -/
def putGlyph (ascii : BitVec 8) (t : Fonts) : Fonts :=
  let t : Fonts := { t with dirtyLine := true }
  let t := if t.xBufferPosition + t.glyphWidth > w.width then newLine w t else t
  let t := renderAscii font t ascii (toUInt64 t.xBufferPosition) (toUInt64 t.yBufferPosition)
  { t with xBufferPosition := t.xBufferPosition + t.glyphWidth }

/-- `showCursor`. -/
def showCursor (t : Fonts) : Fonts := retractPosition w (putGlyph font w 124 t)

/-- `hideCursor`. -/
def hideCursor (t : Fonts) : Fonts := retractPosition w (putGlyph font w 32 t)

/-- `clearPreviousCharacter`. -/
def clearPreviousCharacter (t : Fonts) : Fonts :=
  showCursor font w (retractPosition w (hideCursor font w t))

/-- The loop of a carriage return; `none` if it has not ended after `fuel` rounds. -/
def retractToStart : (fuel : Nat) → Fonts → Option Fonts
  | 0, _ => none
  | fuel + 1, t =>
    if t.xBufferPosition > 0 then retractToStart fuel (retractPosition w t) else some t

/-- The loop of a tabulator; `none` if it has not ended after `fuel` rounds. -/
def spacesToTab : (fuel : Nat) → Fonts → Option Fonts
  | 0, _ => none
  | fuel + 1, t =>
    let t := putGlyph font w 32 t
    if t.xBufferPosition.tmod (TAB_SIZE * t.glyphWidth : Nat) ≠ 0 then spacesToTab fuel t else some t

/-- `putChar`. The rounds given to the loops are more than they take. -/
def putChar (ascii : BitVec 8) (t : Fonts) : Option Fonts :=
  let t : Fonts := { t with dirtyLine := true }
  if ascii = NEW_LINE_CHAR then some (newLine w (hideCursor font w t))
  else if ascii = CARRIAGE_RETURN_CHAR then
    let t := hideCursor font w t
    retractToStart w (t.xBufferPosition.toNat + 1) t
  else if ascii = TABULATOR_CHAR then spacesToTab font w (w.width + TAB_SIZE + 1) t
  else some (putGlyph font w ascii t)

/-! ## The font size -/

/-- The new line height when the font size changes. -/
def lineHeight (t : Fonts) (fontSize : Nat) : Nat :=
  if t.dirtyLine then max t.maxGlyphSizeYOnLine (DEFAULT_GLYPH_SIZE_Y * fontSize)
  else DEFAULT_GLYPH_SIZE_Y * fontSize

theorem lineHeight_le (t : Fonts) {fontSize : Nat} (h : fontSize ≤ 10) : lineHeight t fontSize ≤ 80 := by
  have hline := t.line_le
  simp only [lineHeight, DEFAULT_GLYPH_SIZE_Y]
  split <;> omega

/-- Store a font size and the line height that goes with it. -/
def Fonts.resize (t : Fonts) (fontSize : Nat) (hpos : 1 ≤ fontSize) (hle : fontSize ≤ 10) : Fonts :=
  { t with
    fontSize := fontSize
    maxGlyphSizeYOnLine := lineHeight t fontSize
    fontSize_pos := hpos
    fontSize_le := hle
    line_le := lineHeight_le t hle }

/-- `increaseFontSize`. -/
def increaseFontSize (t : Fonts) : Fonts :=
  scrollBufferPositionIfNeeded w
    (t.resize (if t.fontSize > 9 then t.fontSize else t.fontSize + 1)
      (by have h := t.fontSize_pos; split <;> omega) (by have h := t.fontSize_le; split <;> omega))

/-- `decreaseFontSize`. -/
def decreaseFontSize (t : Fonts) : Fonts :=
  t.resize (if t.fontSize ≤ 1 then t.fontSize else t.fontSize - 1)
    (by have h := t.fontSize_pos; split <;> omega) (by have h := t.fontSize_le; split <;> omega)

/-- The size that `setFontSize` stores. -/
def clampSize (size : BitVec 8) : Nat :=
  if size.toInt < 1 then 1 else if size.toInt > 10 then 10 else size.toInt.toNat

/-- `setFontSize`. -/
def setFontSize (size : BitVec 8) (t : Fonts) : Fonts :=
  t.resize (clampSize size) (by unfold clampSize; split_ifs <;> omega)
    (by unfold clampSize; split_ifs <;> omega)

end

/-! ## Calls -/

/-- A call into the terminal. -/
inductive Call
  | putChar (ascii : BitVec 8)
  | newLine
  | clear
  | retractPosition
  | clearPreviousCharacter
  | showCursor
  | hideCursor
  | increaseFontSize
  | decreaseFontSize
  | setFontSize (size : BitVec 8)

/-- What a call does to the static variables. -/
def step (font : Int → BitVec 8) (w : Window) (t : Fonts) : Call → Option Fonts
  | .putChar ascii => putChar font w ascii t
  | .newLine => some (newLine w t)
  | .clear => some (clear t)
  | .retractPosition => some (retractPosition w t)
  | .clearPreviousCharacter => some (clearPreviousCharacter font w t)
  | .showCursor => some (showCursor font w t)
  | .hideCursor => some (hideCursor font w t)
  | .increaseFontSize => some (increaseFontSize w t)
  | .decreaseFontSize => some (decreaseFontSize t)
  | .setFontSize size => some (setFontSize size t)

end TpSo.Terminal
