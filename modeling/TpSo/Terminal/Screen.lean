import TpSo.Terminal.FrameBuffer
import TpSo.Terminal.Inks
import TpSo.Terminal.OnScreen

set_option autoImplicit false

/-! # The terminal on the frame buffer

`Screen` is the terminal of `fonts.c` with the calls it makes into the video driver, in their order. Its functions
are those of `fonts.c` once more, and their static variables are those of `Fonts`. What the window shows is the
roll of paper that the calls draw on: the terminal never scrolls anything into it but blank paper, so that the
text lies on the roll as if there were no window. -/

namespace TpSo.Terminal

open Bytes (Memory)
open PixelGrid

/-- The static variables of `fonts.c`, and the calls made into the driver. -/
structure Screen where
  fonts : Fonts
  calls : List VideoCall

/-- A `putPixel` of `renderFromBitmap`. -/
def Pixel.call (p : Pixel) : VideoCall := .putPixel p.hexColor p.x p.y

namespace Screen

section

variable (font : Int → BitVec 8) (w : Window)

/-- A function that calls the driver not at all. -/
def onFonts (f : Fonts → Fonts) (s : Screen) : Screen := { s with fonts := f s.fonts }

/-- `renderAscii`. -/
def renderAscii (s : Screen) (ascii : BitVec 8) (x y : Nat) : Screen where
  fonts := Terminal.renderAscii font s.fonts ascii x y
  calls := s.calls ++
    (Terminal.renderAscii font { s.fonts with pixels := [] } ascii x y).pixels.reverse.map Pixel.call

/-- `scrollBufferPositionIfNeeded`. -/
def scrollBufferPositionIfNeeded (s : Screen) : Screen where
  fonts := Terminal.scrollBufferPositionIfNeeded w s.fonts
  calls :=
    if s.fonts.yBufferPosition + s.fonts.glyphHeight > w.height then
      s.calls ++ [.scrollVideoMemoryUp s.fonts.glyphHeight DEFAULT_BACKGROUND_COLOR]
    else s.calls

/-- `newLine`. -/
def newLine (s : Screen) : Screen :=
  scrollBufferPositionIfNeeded w (s.onFonts fun t =>
    { t with
      dirtyLine := false
      yBufferPosition := t.yBufferPosition + t.maxGlyphSizeYOnLine
      xBufferPosition := 0
      maxGlyphSizeYOnLine := t.glyphHeight
      line_le := t.glyphHeight_le })

/-- `clear`. -/
def clear (s : Screen) : Screen where
  fonts := Terminal.clear s.fonts
  calls := s.calls ++ [.fillVideoMemory DEFAULT_BACKGROUND_COLOR]

/-- `retractPosition`. -/
def retractPosition (s : Screen) : Screen := s.onFonts (Terminal.retractPosition w)

/-- The assignment to `dirty_line` that `putChar` begins with. -/
def dirty (s : Screen) : Screen := s.onFonts fun t => { t with dirtyLine := true }

/-- `putChar` of a character that is drawn: the default branch. -/
def putGlyph (ascii : BitVec 8) (s : Screen) : Screen :=
  let s := s.dirty
  let s := if s.fonts.xBufferPosition + s.fonts.glyphWidth > w.width then newLine w s else s
  let s := renderAscii font s ascii (toUInt64 s.fonts.xBufferPosition) (toUInt64 s.fonts.yBufferPosition)
  s.onFonts fun t => { t with xBufferPosition := t.xBufferPosition + t.glyphWidth }

/-- `showCursor`. -/
def showCursor (s : Screen) : Screen := retractPosition w (putGlyph font w 124 s)

/-- `hideCursor`. -/
def hideCursor (s : Screen) : Screen := retractPosition w (putGlyph font w 32 s)

/-- `clearPreviousCharacter`. -/
def clearPreviousCharacter (s : Screen) : Screen :=
  showCursor font w (retractPosition w (hideCursor font w s))

/-- The loop of a tabulator; `none` if it has not ended after `fuel` rounds. -/
def spacesToTab : (fuel : Nat) → Screen → Option Screen
  | 0, _ => none
  | fuel + 1, s =>
    let s := putGlyph font w 32 s
    if s.fonts.xBufferPosition.tmod (TAB_SIZE * s.fonts.glyphWidth : Nat) ≠ 0 then spacesToTab fuel s
    else some s

/-- `putChar`. The loop of a carriage return only steps back. -/
def putChar (ascii : BitVec 8) (s : Screen) : Option Screen :=
  let s := s.dirty
  if ascii = NEW_LINE_CHAR then some (newLine w (hideCursor font w s))
  else if ascii = CARRIAGE_RETURN_CHAR then
    let s := hideCursor font w s
    (retractToStart w (s.fonts.xBufferPosition.toNat + 1) s.fonts).map fun t => { s with fonts := t }
  else if ascii = TABULATOR_CHAR then spacesToTab font w (w.width + TAB_SIZE + 1) s
  else some (putGlyph font w ascii s)

theorem increased_pos (t : Fonts) : 1 ≤ if t.fontSize > 9 then t.fontSize else t.fontSize + 1 := by
  have h := t.fontSize_pos
  split <;> omega

theorem increased_le (t : Fonts) : (if t.fontSize > 9 then t.fontSize else t.fontSize + 1) ≤ 10 := by
  have h := t.fontSize_le
  split <;> omega

/-- `increaseFontSize`. -/
def increaseFontSize (s : Screen) : Screen :=
  scrollBufferPositionIfNeeded w (s.onFonts fun t =>
    t.resize (if t.fontSize > 9 then t.fontSize else t.fontSize + 1) (increased_pos t) (increased_le t))

/-- What a call does to the variables and the frame buffer. -/
def step (s : Screen) : Call → Option Screen
  | .putChar ascii => putChar font w ascii s
  | .newLine => some (newLine w s)
  | .clear => some (clear s)
  | .retractPosition => some (retractPosition w s)
  | .clearPreviousCharacter => some (clearPreviousCharacter font w s)
  | .showCursor => some (showCursor font w s)
  | .hideCursor => some (hideCursor font w s)
  | .increaseFontSize => some (increaseFontSize w s)
  | .decreaseFontSize => some (s.onFonts decreaseFontSize)
  | .setFontSize size => some (s.onFonts (setFontSize size))

end

variable {font : Int → BitVec 8} {w : Window} {s s' : Screen}

/-! ## The static variables -/

@[simp] theorem newLine_fonts (s : Screen) : (newLine w s).fonts = Terminal.newLine w s.fonts := rfl

@[simp] theorem putGlyph_fonts (ascii : BitVec 8) (s : Screen) :
    (putGlyph font w ascii s).fonts = Terminal.putGlyph font w ascii s.fonts := by
  have hwrapped : (if s.fonts.xBufferPosition + s.fonts.glyphWidth > w.width then newLine w s.dirty
      else s.dirty).fonts = wrapped w s.fonts := by
    unfold wrapped
    split <;> rfl
  have hunfold : (putGlyph font w ascii s).fonts =
      (let s' := if s.fonts.xBufferPosition + s.fonts.glyphWidth > w.width then newLine w s.dirty
        else s.dirty
      let t := Terminal.renderAscii font s'.fonts ascii (toUInt64 s'.fonts.xBufferPosition)
        (toUInt64 s'.fonts.yBufferPosition)
      { t with xBufferPosition := t.xBufferPosition + t.glyphWidth }) := rfl
  rw [hunfold]
  simp only [hwrapped]
  rfl

theorem spacesToTab_fonts {fuel : Nat} (s : Screen) :
    (spacesToTab font w fuel s).map fonts = Terminal.spacesToTab font w fuel s.fonts := by
  induction fuel generalizing s with
  | zero => rfl
  | succ fuel ih =>
    simp only [spacesToTab, Terminal.spacesToTab, putGlyph_fonts]
    split
    · rw [ih, putGlyph_fonts]
    · rw [Option.map_some, putGlyph_fonts]

theorem hideCursor_fonts (s : Screen) : (hideCursor font w s).fonts = Terminal.hideCursor font w s.fonts := by
  simp only [hideCursor, retractPosition, onFonts, putGlyph_fonts, Terminal.hideCursor]

theorem showCursor_fonts (s : Screen) : (showCursor font w s).fonts = Terminal.showCursor font w s.fonts := by
  simp only [showCursor, retractPosition, onFonts, putGlyph_fonts, Terminal.showCursor]

theorem putChar_fonts (ascii : BitVec 8) (s : Screen) :
    (putChar font w ascii s).map fonts = Terminal.putChar font w ascii s.fonts := by
  have hdirty : s.dirty.fonts = { s.fonts with dirtyLine := true } := rfl
  simp only [putChar, Terminal.putChar, hideCursor_fonts, hdirty]
  split
  · rw [Option.map_some, newLine_fonts, hideCursor_fonts, hdirty]
  · split
    · rw [Option.map_map]
      exact congrFun Option.map_id _
    · split
      · rw [spacesToTab_fonts, hdirty]
      · rw [Option.map_some, putGlyph_fonts, hdirty]

/-- The static variables of a screen are those of the terminal. -/
theorem step_fonts (s : Screen) (c : Call) : (s.step font w c).map fonts = Terminal.step font w s.fonts c := by
  cases c with
  | putChar ascii => exact putChar_fonts ascii s
  | clearPreviousCharacter =>
    simp only [step, Terminal.step, clearPreviousCharacter, Terminal.clearPreviousCharacter, Option.map_some,
      showCursor_fonts, retractPosition, onFonts, hideCursor_fonts]
  | showCursor => exact congrArg some (showCursor_fonts s)
  | hideCursor => exact congrArg some (hideCursor_fonts s)
  | _ => rfl

/-! ## The calls into the driver -/

/-- A call into the driver draws a pixel of the terminal's, blanks the window or scrolls by a glyph. -/
def Recorded (s : Screen) : Prop := ∀ c ∈ s.calls,
  (∃ p ∈ s.fonts.pixels, c = p.call) ∨ c = .fillVideoMemory DEFAULT_BACKGROUND_COLOR ∨
    ∃ n ≤ 80, c = .scrollVideoMemoryUp n DEFAULT_BACKGROUND_COLOR

theorem renderAscii_pixels (t : Fonts) (ascii : BitVec 8) (x y : Nat) :
    (Terminal.renderAscii font t ascii x y).pixels =
      (Terminal.renderAscii font { t with pixels := [] } ascii x y).pixels ++ t.pixels := by
  unfold Terminal.renderAscii
  split
  · simp only [renderFromBitmap, List.append_nil]
    rfl
  · rfl

theorem Recorded.onFonts (h : s.Recorded) {f : Fonts → Fonts} (hf : (f s.fonts).pixels = s.fonts.pixels) :
    (s.onFonts f).Recorded := by
  intro c hc
  refine (h c hc).imp_left ?_
  rintro ⟨p, hp, rfl⟩
  exact ⟨p, show p ∈ (f s.fonts).pixels by rwa [hf], rfl⟩

theorem Recorded.renderAscii (h : s.Recorded) (ascii : BitVec 8) (x y : Nat) :
    (renderAscii font s ascii x y).Recorded := by
  intro c hc
  simp only [Screen.renderAscii, List.mem_append, List.mem_map, List.mem_reverse] at hc ⊢
  rw [renderAscii_pixels]
  rcases hc with hold | ⟨p, hp, rfl⟩
  · refine (h c hold).imp_left ?_
    rintro ⟨p, hp, rfl⟩
    exact ⟨p, List.mem_append_right _ hp, rfl⟩
  · exact .inl ⟨p, List.mem_append_left _ hp, rfl⟩

theorem Recorded.scrollBufferPositionIfNeeded (h : s.Recorded) :
    (scrollBufferPositionIfNeeded w s).Recorded := by
  intro c hc
  simp only [Screen.scrollBufferPositionIfNeeded] at hc ⊢
  rw [scrollBufferPositionIfNeeded_pixels]
  split at hc
  · rcases List.mem_append.mp hc with hold | hnew
    · exact h c hold
    · exact .inr (.inr ⟨_, s.fonts.glyphHeight_le, List.mem_singleton.mp hnew⟩)
  · exact h c hc

theorem Recorded.newLine (h : s.Recorded) : (newLine w s).Recorded :=
  (h.onFonts rfl).scrollBufferPositionIfNeeded

theorem Recorded.clear (h : s.Recorded) : (clear s).Recorded := by
  intro c hc
  rcases List.mem_append.mp hc with hold | hnew
  · exact h c hold
  · exact .inr (.inl (List.mem_singleton.mp hnew))

theorem Recorded.retractPosition (h : s.Recorded) : (retractPosition w s).Recorded :=
  h.onFonts (retractPosition_pixels s.fonts)

theorem Recorded.putGlyph (h : s.Recorded) (ascii : BitVec 8) : (putGlyph font w ascii s).Recorded := by
  have hdirty : s.dirty.Recorded := h.onFonts rfl
  have hwrapped : (if s.fonts.xBufferPosition + s.fonts.glyphWidth > w.width then Screen.newLine w s.dirty
      else s.dirty).Recorded := by
    split
    · exact hdirty.newLine
    · exact hdirty
  exact (hwrapped.renderAscii _ _ _).onFonts rfl

theorem Recorded.hideCursor (h : s.Recorded) : (hideCursor font w s).Recorded := (h.putGlyph 32).retractPosition

theorem Recorded.showCursor (h : s.Recorded) : (showCursor font w s).Recorded := (h.putGlyph 124).retractPosition

theorem Recorded.spacesToTab {fuel : Nat} (h : s.Recorded) (hs : spacesToTab font w fuel s = some s') :
    s'.Recorded := by
  induction fuel generalizing s with
  | zero => cases hs
  | succ fuel ih =>
    rw [Screen.spacesToTab] at hs
    split at hs
    · exact ih (h.putGlyph 32) hs
    · cases hs
      exact h.putGlyph 32

theorem retractToStart_pixels {fuel : Nat} {t t' : Fonts} (h : retractToStart w fuel t = some t') :
    t'.pixels = t.pixels := by
  induction fuel generalizing t with
  | zero => cases h
  | succ fuel ih =>
    rw [retractToStart] at h
    split at h
    · rw [ih h, retractPosition_pixels]
    · cases h
      rfl

theorem Recorded.putChar (h : s.Recorded) {ascii : BitVec 8} (hs : putChar font w ascii s = some s') :
    s'.Recorded := by
  have hdirty : s.dirty.Recorded := h.onFonts rfl
  simp only [Screen.putChar] at hs
  split at hs
  · cases hs
    exact hdirty.hideCursor.newLine
  · split at hs
    · obtain ⟨t, ht, rfl⟩ := Option.map_eq_some_iff.mp hs
      exact hdirty.hideCursor.onFonts (f := fun _ => t) (retractToStart_pixels ht)
    · split at hs
      · exact hdirty.spacesToTab hs
      · cases hs
        exact hdirty.putGlyph ascii

/-- **Step.** No call draws anything but what is recorded. -/
theorem Recorded.step (h : s.Recorded) {c : Call} (hs : s.step font w c = some s') : s'.Recorded := by
  cases c with
  | putChar ascii => exact h.putChar hs
  | newLine =>
    cases hs
    exact h.newLine
  | clear =>
    cases hs
    exact h.clear
  | retractPosition =>
    cases hs
    exact h.retractPosition
  | clearPreviousCharacter =>
    cases hs
    exact h.hideCursor.retractPosition.showCursor
  | showCursor =>
    cases hs
    exact h.showCursor
  | hideCursor =>
    cases hs
    exact h.hideCursor
  | increaseFontSize =>
    cases hs
    exact (h.onFonts rfl).scrollBufferPositionIfNeeded
  | decreaseFontSize =>
    cases hs
    exact h.onFonts rfl
  | setFontSize size =>
    cases hs
    exact h.onFonts rfl

/-- Recorded calls stay within the window when the pixels do. -/
theorem Recorded.inside (h : s.Recorded) (hh : 320 ≤ w.height) (hs : OnScreen w s.fonts) :
    ∀ c ∈ s.calls, c.Inside w := by
  intro c hc
  rcases h c hc with ⟨p, hp, rfl⟩ | rfl | ⟨n, hn, rfl⟩
  · exact hs p hp
  · trivial
  · exact show n ≤ w.height by omega

/-- A screen before any call into the driver. -/
def blank (t : Fonts) : Screen where
  fonts := { t with pixels := [] }
  calls := []

/-- **Run.** The terminal calls the driver within the window only, in every history of calls from `clear` on that
    keeps the cursor there. -/
theorem calls_inside (hw : 320 ≤ w.width) (hh : 320 ≤ w.height) {t : Fonts} {cs : List Call}
    (h : GuardedRun (step font w) (fun s c => Fits w s.fonts c) (clear (blank t)) cs s) :
    ∀ c ∈ s.calls, c.Inside w := by
  have hboth : s.Recorded ∧ Tidy w s.fonts := by
    apply h.invariant fun s => s.Recorded ∧ Tidy w s.fonts
    · rintro s c s' ⟨hrecorded, htidy⟩ hfits hstep
      refine ⟨hrecorded.step hstep, ?_⟩
      obtain ⟨t', ht', htidy'⟩ := htidy.step hw hh hfits
      rw [← step_fonts, hstep] at ht'
      cases ht'
      exact htidy'
    · refine ⟨Recorded.clear fun c hc => (List.not_mem_nil hc).elim, Tidy.clear hh fun p hp => ?_⟩
      exact (List.not_mem_nil hp).elim
  exact hboth.1.inside hh hboth.2.onScreen

end Screen

/-! ## Drawing on the roll -/

variable {font : Int → BitVec 8} {w : Window} {r : Roll}

theorem drawCalls_append (calls calls' : List VideoCall) (r : Roll) :
    drawCalls w (calls ++ calls') r = drawCalls w calls' (drawCalls w calls r) :=
  List.foldl_append

/-- Pixels whose colour is a function of their place may be drawn in any order. -/
theorem drawCalls_pixels (color : Nat → Nat → BitVec 32) {ps : List Pixel}
    (h : ∀ p ∈ ps, p.hexColor = color p.x p.y) (r : Roll) :
    (drawCalls w (ps.map Pixel.call) r).top = r.top ∧ ∀ x y,
      (drawCalls w (ps.map Pixel.call) r).paper x y =
        if r.top ≤ y ∧ ∃ p ∈ ps, p.x = x ∧ p.y = y - r.top then rgb (color x (y - r.top))
        else r.paper x y := by
  induction ps generalizing r with
  | nil => simp [drawCalls]
  | cons p ps ih =>
    obtain ⟨htop, hpaper⟩ := ih (fun q hq => h q (List.mem_cons_of_mem p hq)) (p.call.draw w r)
    have htop' : (p.call.draw w r).top = r.top := rfl
    rw [htop'] at htop hpaper
    refine ⟨htop, fun x y => ?_⟩
    rw [List.map_cons, drawCalls, List.foldl_cons]
    have hhead : (p.call.draw w r).paper x y =
        if r.top ≤ y ∧ x = p.x ∧ y - r.top = p.y then rgb p.hexColor else r.paper x y := rfl
    refine (hpaper x y).trans ?_
    rw [hhead]
    by_cases htail : r.top ≤ y ∧ ∃ q ∈ ps, q.x = x ∧ q.y = y - r.top
    · obtain ⟨q, hq, hat⟩ := htail.2
      rw [if_pos htail, if_pos ⟨htail.1, q, List.mem_cons_of_mem p hq, hat⟩]
    · rw [if_neg htail]
      by_cases hp : r.top ≤ y ∧ x = p.x ∧ y - r.top = p.y
      · rw [if_pos hp, if_pos ⟨hp.1, p, List.mem_cons_self, hp.2.1.symm, hp.2.2.symm⟩,
          h p List.mem_cons_self, hp.2.1, hp.2.2]
      · rw [if_neg hp, if_neg]
        rintro ⟨hy, q, hq, hx, hrow⟩
        rcases List.mem_cons.mp hq with rfl | hq
        · exact hp ⟨hy, hx.symm, hrow.symm⟩
        · exact htail ⟨hy, q, hq, hx, hrow⟩

/-- The colour of the point `dx`, `dy` of a glyph. -/
def glyphColor (font : Int → BitVec 8) (t : Fonts) (ascii : BitVec 8) (dx dy : Nat) : BitVec 32 :=
  if (font (ascii.toInt * DEFAULT_GLYPH_SIZE_Y + (dy / t.fontSize : Nat))).getLsbD (dx / t.fontSize) then
    t.textColor
  else t.backgroundColor

/-- The pixels of a glyph that fits at `x`, `y`, in the order in which they are put. -/
theorem renderAscii_fits {t : Fonts} {ascii : BitVec 8} {x y : Nat} (hx : x + t.glyphWidth ≤ w.width)
    (hy : y + t.glyphHeight ≤ w.height) :
    (renderAscii font { t with pixels := [] } ascii x y).pixels.reverse =
      (List.range t.glyphWidth).flatMap fun dx => (List.range t.glyphHeight).map fun dy =>
        ⟨glyphColor font t ascii dx dy, x + dx, y + dy⟩ := by
  have hwidth := w.width_lt
  have hheight := w.height_lt
  have hascii : ascii.toInt < 128 := by
    have hlt := ascii.toInt_lt
    omega
  rw [renderAscii, if_pos hascii]
  simp only [renderFromBitmap, List.append_nil, List.reverse_reverse]
  apply List.flatMap_congr
  intro dx hdx
  apply List.map_congr_left
  intro dy hdy
  have hdx' : dx < t.glyphWidth := List.mem_range.mp hdx
  have hdy' : dy < t.glyphHeight := List.mem_range.mp hdy
  have hplace : toUInt64 (Int.bmod (x + dx : Nat) (2 ^ 32)) = x + dx := by
    rw [Int.bmod_eq_of_le (by omega) (by omega), toUInt64]
    omega
  rw [hplace, Nat.mod_eq_of_lt (show y + dy < 2 ^ 64 by omega)]
  rfl

theorem mem_renderAscii {t : Fonts} {ascii : BitVec 8} {x y : Nat} (hx : x + t.glyphWidth ≤ w.width)
    (hy : y + t.glyphHeight ≤ w.height) {p : Pixel} :
    p ∈ (renderAscii font { t with pixels := [] } ascii x y).pixels.reverse ↔
      ∃ dx < t.glyphWidth, ∃ dy < t.glyphHeight, p = ⟨glyphColor font t ascii dx dy, x + dx, y + dy⟩ := by
  simp only [renderAscii_fits hx hy, List.mem_flatMap, List.mem_map, List.mem_range, eq_comm (a := p)]

/-- **Drawing.** A glyph that fits is drawn at its place on the roll, and nothing else is. -/
theorem drawCalls_renderAscii {t : Fonts} (ascii : BitVec 8) {x y : Nat} (hx : x + t.glyphWidth ≤ w.width)
    (hy : y + t.glyphHeight ≤ w.height) (r : Roll) :
    let calls := (renderAscii font { t with pixels := [] } ascii x y).pixels.reverse.map Pixel.call
    (drawCalls w calls r).top = r.top ∧ ∀ x' y', (drawCalls w calls r).paper x' y' =
      if (x ≤ x' ∧ x' < x + t.glyphWidth) ∧ r.top + y ≤ y' ∧ y' < r.top + y + t.glyphHeight then
        rgb (glyphColor font t ascii (x' - x) (y' - (r.top + y)))
      else r.paper x' y' := by
  have hcolor : ∀ p ∈ (renderAscii font { t with pixels := [] } ascii x y).pixels.reverse,
      p.hexColor = glyphColor font t ascii (p.x - x) (p.y - y) := by
    intro p hp
    obtain ⟨dx, -, dy, -, rfl⟩ := (mem_renderAscii hx hy).mp hp
    rw [Nat.add_sub_cancel_left, Nat.add_sub_cancel_left]
  obtain ⟨htop, hpaper⟩ := drawCalls_pixels (fun x' y' => glyphColor font t ascii (x' - x) (y' - y)) hcolor r
  refine ⟨htop, fun x' y' => ?_⟩
  rw [hpaper]
  by_cases hin : (x ≤ x' ∧ x' < x + t.glyphWidth) ∧ r.top + y ≤ y' ∧ y' < r.top + y + t.glyphHeight
  · rw [if_pos hin, if_pos, Nat.sub_add_eq]
    refine ⟨by omega, _, (mem_renderAscii hx hy).mpr
      ⟨x' - x, by omega, y' - (r.top + y), by omega, rfl⟩, ?_, ?_⟩
    · show x + (x' - x) = x'
      omega
    · show y + (y' - (r.top + y)) = y' - r.top
      omega
  · rw [if_neg hin, if_neg]
    rintro ⟨hy', p, hp, hpx, hpy⟩
    obtain ⟨dx, hdx, dy, hdy, rfl⟩ := (mem_renderAscii hx hy).mp hp
    dsimp only at hpx hpy
    omega

/-! ## Marks on the text -/

/-- A pixel at its place in the text: its row is counted from where the text began, so that it does not change
    when the text is scrolled. -/
structure Mark where
  hexColor : BitVec 32
  x : Nat
  y : Nat
  deriving DecidableEq

/-- By how many rows a call scrolls the text. -/
def VideoCall.rows : VideoCall → Nat
  | .scrollVideoMemoryUp scroll _ => scroll
  | _ => 0

def rowsScrolled (calls : List VideoCall) : Nat := (calls.map VideoCall.rows).sum

/-- The pixels that the calls put on a text that has been scrolled by `rows` before. -/
def marks : (rows : Nat) → List VideoCall → List Mark
  | _, [] => []
  | rows, .putPixel hexColor x y :: calls => ⟨hexColor, x, y + rows⟩ :: marks rows calls
  | rows, c :: calls => marks (rows + c.rows) calls

theorem marks_append (rows : Nat) (calls calls' : List VideoCall) :
    marks rows (calls ++ calls') = marks rows calls ++ marks (rows + rowsScrolled calls) calls' := by
  induction calls generalizing rows with
  | nil => rfl
  | cons c calls ih =>
    have hrows : rowsScrolled (c :: calls) = c.rows + rowsScrolled calls := List.sum_cons
    rw [hrows, ← Nat.add_assoc]
    cases c with
    | putPixel hexColor x y => exact congrArg (List.cons _) (ih rows)
    | _ => exact ih _

theorem marks_pixels (rows : Nat) (ps : List Pixel) :
    marks rows (ps.map Pixel.call) = ps.map fun p => ⟨p.hexColor, p.x, p.y + rows⟩ := by
  induction ps with
  | nil => rfl
  | cons p ps ih => exact congrArg (List.cons _) ih

/-- The roll and the text are scrolled together. -/
theorem drawCalls_top (calls : List VideoCall) (r : Roll) :
    (drawCalls w calls r).top = r.top + rowsScrolled calls := by
  induction calls generalizing r with
  | nil => rfl
  | cons c calls ih =>
    have hrows : rowsScrolled (c :: calls) = c.rows + rowsScrolled calls := List.sum_cons
    have htop : (c.draw w r).top = r.top + c.rows := by cases c <;> rfl
    rw [hrows, ← Nat.add_assoc, ← htop, ← ih]
    rfl

end TpSo.Terminal
