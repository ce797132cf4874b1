import TpSo.Terminal.Picture
import TpSo.Text.Documents

set_option autoImplicit false

/-! # Documents on the frame buffer

The calls of `fprintf` go through the system calls to the terminal. There each character is drawn in the
colours that a painting of the documents gives it, and the frame buffer shows them. -/

namespace TpSo.Terminal

open Bytes (Memory)
open Stdio (Print Out)

/-- The colours are set. -/
def Fonts.setColors (textColor backgroundColor : BitVec 32) (t : Fonts) : Fonts :=
  { t with textColor := textColor, backgroundColor := backgroundColor }

/-- The static variables of `fonts.c`, `file_descriptor` with them, and the calls made into the driver. -/
structure Console where
  screen : Screen
  fileDescriptor : Int
  standard : fileDescriptor = FD_STDOUT ∨ fileDescriptor = FD_STDERR

namespace Console

/-- The variables that `printToFd` looks at. -/
def inks (k : Console) : Inks where
  fileDescriptor := k.fileDescriptor
  textColor := k.screen.fonts.textColor
  backgroundColor := k.screen.fonts.backgroundColor
  standard := k.standard

/-- Store them. -/
def setInks (i : Inks) (k : Console) : Console where
  screen := k.screen.onFonts (Fonts.setColors i.textColor i.backgroundColor)
  fileDescriptor := i.fileDescriptor
  standard := i.standard

section

variable (font : Int → BitVec 8) (w : Window)

/-- `printToFd`, with what it returns; `none` if a loop of `putChar` does not end. -/
def printToFd (fd : Int) (string : List (BitVec 8)) (k : Console) : Option (Int × Console) :=
  match k.inks.select fd with
  | none => some (-1, k)
  | some i => do
    let k := k.setInks i
    let screen ← string.foldlM (fun s ascii => s.putChar font w ascii) k.screen
    return (string.length, { k with screen := screen })

/-- A system call: `write` prints byte after byte, the others store a colour. -/
def call (k : Console) : Stdio.Event → Option Console
  | .write fd bytes => bytes.foldlM (fun k c => (k.printToFd font w fd [c.toBitVec]).map Prod.snd) k
  | .textColor color => some (k.setInks (k.inks.setTextColor color))
  | .backgroundColor color => some (k.setInks (k.inks.setBackgroundColor color))

end

end Console

/-- A glyph in the colours of a cell. -/
def Cell.stroke (c : Cell) (g : Glyph) : Stroke := { c with ascii := g.ascii, x := g.x, y := g.y }

/-- A character is put on the layout, and what it draws among the strokes, in its colours. -/
def Layout.print (w : Window) (p : Layout × List Stroke) (c : Cell) : Option (Layout × List Stroke) := do
  let l ← p.1.putChar w c.ascii
  return (l, (l.drawn.take (l.drawn.length - p.1.drawn.length)).map c.stroke ++ p.2)

variable {font : Int → BitVec 8} {w : Window} {fontSize : Nat} {start : Roll} {l : Layout}
  {strokes : List Stroke} {k : Console} {t : Fonts} {s s' : Screen} {p : Painting}

/-! ## The picture with its strokes -/

/-- The roll shows the strokes, and the driver was called for within the window only. -/
structure Stroked (font : Int → BitVec 8) (w : Window) (fontSize : Nat) (start : Roll)
    (p : Layout × List Stroke) (s : Screen) : Prop where
  fontSize : s.fonts.fontSize = fontSize
  drawn : p.1.drawn = p.2.map Stroke.glyph
  pictured : Pictured font w s.fonts start p.2 p.1 s
  recorded : s.Recorded
  tidy : Tidy w s.fonts

theorem Stroked.inside (hh : 320 ≤ w.height) {p : Layout × List Stroke} (h : Stroked font w fontSize start p s) :
    ∀ c ∈ s.calls, c.Inside w := h.recorded.inside hh h.tidy.onScreen

/-- Colours that are set change no stroke. -/
theorem Stroked.setColors {p : Layout × List Stroke} (h : Stroked font w fontSize start p s)
    (textColor backgroundColor : BitVec 32) :
    Stroked font w fontSize start p (s.onFonts (Fonts.setColors textColor backgroundColor)) := by
  have hpictured := h.pictured
  have hplaced := hpictured.placed
  refine ⟨h.fontSize, h.drawn, ?_, h.recorded.onFonts rfl,
    ⟨hplaced.x_nonneg, hplaced.y_nonneg, hplaced.glyph_le, hplaced.line_le⟩, h.tidy.onScreen⟩
  refine ⟨⟨hpictured.shows.size, hpictured.shows.x, hpictured.shows.y, hpictured.shows.lineHeight⟩, .refl _,
    ⟨hplaced.x_nonneg, hplaced.y_nonneg, hplaced.glyph_le, hplaced.line_le⟩, hpictured.aligned, hpictured.top,
    ?_, hpictured.above⟩
  obtain ⟨latest, hlatest, hpaper, hmarks⟩ := hpictured.paper
  have hnone : latest = [] := List.append_left_eq_self.mp (hlatest.symm.trans h.drawn)
  subst hnone
  exact ⟨[], h.drawn, hpaper, hmarks⟩

/-- **A character** adds strokes in the colours that are set. -/
theorem Stroked.putChar (hw : 320 ≤ w.width) (hh : 320 ≤ w.height) {p : Layout × List Stroke}
    (h : Stroked font w fontSize start p s) (ascii : BitVec 8) :
    ∃ s' p', s.putChar font w ascii = some s' ∧ Layout.print w p (s.fonts.cell ascii) = some p' ∧
      SameInk s.fonts s'.fonts ∧ Stroked font w fontSize start p' s' := by
  obtain ⟨s', l', hs', hl', h'⟩ := h.pictured.write hw hh (.inl (.putChar ascii))
  have hs : s.step font w (.putChar ascii) = some s' := hs'
  have hl : p.1.putChar w ascii = some l' := hl'
  obtain ⟨t', ht', htidy⟩ := h.tidy.step hw hh (h.pictured.fits (.inl (.putChar ascii)))
  rw [show writeCall (.inl (.putChar ascii)) = .putChar ascii from rfl, ← Screen.step_fonts, hs] at ht'
  cases ht'
  obtain ⟨latest, hlatest, hpaper, hmarks⟩ := h'.paper
  have hnew : l'.drawn.take (l'.drawn.length - p.1.drawn.length) = latest := by
    rw [hlatest, h.drawn, List.length_append, Nat.add_sub_cancel]
    exact List.take_left
  refine ⟨s', (l', latest.map (s.fonts.cell ascii).stroke ++ p.2), hs', ?_, h'.ink, ?_⟩
  · rw [Layout.print, show (s.fonts.cell ascii).ascii = ascii from rfl, hl]
    simp only [Option.bind_eq_bind, Option.bind_some, hnew]
    rfl
  · have hstroke : latest.map (s.fonts.cell ascii).stroke = latest.map s.fonts.stroke := rfl
    refine ⟨h'.ink.fontSize.trans h.fontSize, ?_, ?_, h.recorded.step hs, htidy⟩
    · rw [hstroke, glyphs_latest]
      exact hlatest
    · refine ⟨h'.shows, .refl _, h'.placed, h'.aligned, h'.top, ⟨[], ?_, ?_, ?_⟩, h'.above⟩
      · rw [hstroke, glyphs_latest]
        exact hlatest
      · rw [h'.ink.fontSize]
        exact hpaper
      · rw [h'.ink.fontSize]
        exact hmarks

/-! ## Paintings on the console -/

/-- The console shows the painting: its characters put on the layout one after the other. -/
structure Console.Shows (font : Int → BitVec 8) (w : Window) (fontSize : Nat) (start : Roll) (blank : Layout)
    (k : Console) (p : Painting) : Prop where
  inks : k.inks = p.inks
  cells : ∃ q, p.cells.foldlM (Layout.print w) (blank, []) = some q ∧
    Stroked font w fontSize start q k.screen

variable {blank : Layout}

theorem Console.Shows.setInks (h : k.Shows font w fontSize start blank p) (f : Inks → Inks) :
    (k.setInks (f k.inks)).Shows font w fontSize start blank (p.onInks f) := by
  obtain ⟨q, hcells, hstroked⟩ := h.cells
  exact ⟨congrArg f h.inks, q, hcells, hstroked.setColors _ _⟩

/-- **`printToFd`** of a character prints it on the painting. -/
theorem Console.Shows.print (hw : 320 ≤ w.width) (hh : 320 ≤ w.height)
    (h : k.Shows font w fontSize start blank p) (fd : Int) (c : UInt8) :
    ∃ k', (k.printToFd font w fd [c.toBitVec]).map Prod.snd = some k' ∧
      k'.Shows font w fontSize start blank (p.print fd c) := by
  unfold Console.printToFd Painting.print
  rw [h.inks]
  cases p.inks.select fd with
  | none => exact ⟨k, rfl, h⟩
  | some i =>
    obtain ⟨q, hcells, hstroked⟩ := h.cells
    have hcolors := hstroked.setColors i.textColor i.backgroundColor
    obtain ⟨s', q', hput, hprint, hink, hstroked'⟩ := hcolors.putChar hw hh c.toBitVec
    have hput' : (k.setInks i).screen.putChar font w c.toBitVec = some s' := hput
    refine ⟨{ k.setInks i with screen := s' }, ?_, ?_, q', ?_, hstroked'⟩
    · simp only [List.foldlM_cons, List.foldlM_nil, hput']
      rfl
    · have htext := hink.textColor
      have hback := hink.backgroundColor
      unfold Console.inks
      simp only [htext, hback]
      rfl
    · have hcell : Layout.print w q (i.cell c.toBitVec) = some q' := hprint
      simp only [List.foldlM_append, hcells, Option.bind_eq_bind, Option.bind_some, List.foldlM_cons,
        List.foldlM_nil, hcell]
      rfl

theorem Console.Shows.write (hw : 320 ≤ w.width) (hh : 320 ≤ w.height)
    (h : k.Shows font w fontSize start blank p) (fd : Int) (bytes : List UInt8) :
    ∃ k', bytes.foldlM (fun k c => (k.printToFd font w fd [c.toBitVec]).map Prod.snd) k = some k' ∧
      k'.Shows font w fontSize start blank (bytes.foldl (fun p c => p.print fd c) p) := by
  induction bytes generalizing k p with
  | nil => exact ⟨k, rfl, h⟩
  | cons c bytes ih =>
    obtain ⟨k1, hprint, h1⟩ := h.print hw hh fd c
    obtain ⟨k', hrest, h'⟩ := ih h1
    refine ⟨k', ?_, h'⟩
    rw [List.foldlM_cons, hprint]
    exact hrest

/-- **Step.** A system call paints the painting. -/
theorem Console.Shows.call (hw : 320 ≤ w.width) (hh : 320 ≤ w.height)
    (h : k.Shows font w fontSize start blank p) (e : Stdio.Event) :
    ∃ k', k.call font w e = some k' ∧ k'.Shows font w fontSize start blank (Stdio.Event.paint p e) := by
  cases e with
  | write fd bytes => exact h.write hw hh fd bytes
  | textColor color => exact ⟨_, rfl, h.setInks (Inks.setTextColor color)⟩
  | backgroundColor color => exact ⟨_, rfl, h.setInks (Inks.setBackgroundColor color)⟩

/-- **Run.** -/
theorem Console.Shows.run (hw : 320 ≤ w.width) (hh : 320 ≤ w.height)
    (h : k.Shows font w fontSize start blank p) (events : List Stdio.Event) :
    ∃ k', events.foldlM (Console.call font w) k = some k' ∧
      k'.Shows font w fontSize start blank (events.foldl Stdio.Event.paint p) := by
  induction events generalizing k p with
  | nil => exact ⟨k, rfl, h⟩
  | cons e events ih =>
    obtain ⟨k1, hcall, h1⟩ := h.call hw hh e
    obtain ⟨k', hrest, h'⟩ := ih h1
    refine ⟨k', ?_, h'⟩
    rw [List.foldlM_cons, hcall]
    exact hrest

/-- A console whose window was cleared. -/
def Console.cleared (t : Fonts) (fd : Int) (hfd : fd = FD_STDOUT ∨ fd = FD_STDERR) : Console where
  screen := Screen.clear (Screen.blank t)
  fileDescriptor := fd
  standard := hfd

theorem Console.Shows.cleared (hw : 320 ≤ w.width) (hh : 320 ≤ w.height) (t : Fonts) (i : Inks) :
    ((Console.cleared t i.fileDescriptor i.standard).setInks i).Shows font w t.fontSize start
      (Terminal.clear t).layout { inks := i } := by
  have hstroked : Stroked font w t.fontSize start ((Terminal.clear t).layout, [])
      (Screen.clear (Screen.blank t)) := by
    have hpictured := @Pictured.cleared font w hw hh t start
    refine ⟨rfl, rfl, ?_, Screen.Recorded.clear fun c hc => (List.not_mem_nil hc).elim,
      Tidy.clear hh fun p hp => (List.not_mem_nil hp).elim⟩
    exact ⟨hpictured.shows, .refl _, hpictured.placed, hpictured.aligned, hpictured.top, hpictured.paper,
      hpictured.above⟩
  exact ⟨rfl, _, rfl, hstroked.setColors _ _⟩

/-! ## Documents -/

/-- **Documents on the frame buffer.** Whatever documents are printed on a cleared screen, to which descriptors and in
    which order, the calls come to their end, each pixel of the window has the colour of the latest character that
    lies there in the text, in the colours that the documents give it, and no byte that belongs to no pixel
    is changed. -/
theorem documents_in_frame_buffer {mode : VbeMode} (hw : 320 ≤ mode.width) (hh : 320 ≤ mode.height)
    (font : Int → BitVec 8) (t : Fonts) (i : Inks) (ds : List Print) (out : Out) (framebuffer : Memory) :
    ∃ enough out' events k l strokes,
      (∀ fuel, enough ≤ fuel → ds.foldlM (Print.call fuel) out = .ok out') ∧
      out'.events = out.events ++ events ∧
      events.foldlM (Console.call font mode.toWindow)
        ((Console.cleared t i.fileDescriptor i.standard).setInks i) = some k ∧
      (ds.foldl Print.paint { inks := i }).cells.foldlM (Layout.print mode.toWindow)
        ((Terminal.clear t).layout, []) = some (l, strokes) ∧
      (∀ x y, x < mode.width → y < mode.height →
        mode.grid.pixel (execCalls mode k.screen.calls framebuffer) x y =
          rgb (colorAt font t.fontSize strokes x (y + l.scrolled))) ∧
      ∀ a, ¬ mode.grid.Owns a → execCalls mode k.screen.calls framebuffer a = framebuffer a := by
  obtain ⟨enough, out', events, hevents, hpaint, hcalls⟩ := Stdio.documents_painted ds out
  have hcleared := @Console.Shows.cleared font mode.toWindow (.of mode framebuffer) hw hh t i
  obtain ⟨k, hrun, hshows⟩ := hcleared.run hw hh events
  obtain ⟨⟨l, strokes⟩, hcells, hstroked⟩ := hshows.cells
  rw [hpaint] at hcells
  obtain ⟨⟨latest, hlatest, hpixel⟩, hframe⟩ := hstroked.pictured.framed framebuffer (hstroked.inside hh)
  have hnone : latest = [] := List.append_left_eq_self.mp (hlatest.symm.trans hstroked.drawn)
  subst hnone
  rw [hstroked.fontSize] at hpixel
  exact ⟨enough, out', events, k, l, strokes, hcalls, hevents, hrun, hcells, hpixel, hframe⟩

/-- A red letter, and a new line in the colours of the error output. -/
theorem documents_in_frame_buffer_line : ∃ enough out' events k l strokes,
    (∀ fuel, enough ≤ fuel →
      ([⟨1, [.span (.color [31]), .char 104]⟩, ⟨2, [.char 10]⟩] : List Print).foldlM (Print.call fuel) {} =
        .ok out') ∧
    out'.events = [] ++ events ∧
    events.foldlM (Console.call (fun _ => 0) bootMode.toWindow)
      ((Console.cleared Fonts.boot Inks.boot.fileDescriptor Inks.boot.standard).setInks Inks.boot) = some k ∧
    [(⟨104, 0xDE382B, 0⟩ : Cell), ⟨10, 0xDE382B, 0⟩].foldlM (Layout.print bootMode.toWindow)
      ((Terminal.clear Fonts.boot).layout, []) = some (l, strokes) ∧
    (∀ x y, x < 1024 → y < 768 →
      bootMode.grid.pixel (execCalls bootMode k.screen.calls fun _ => 7) x y =
        rgb (colorAt (fun _ => 0) 1 strokes x (y + l.scrolled))) ∧
    ∀ a, ¬ bootMode.grid.Owns a → execCalls bootMode k.screen.calls (fun _ => 7) a = 7 :=
  documents_in_frame_buffer (by decide) (by decide) (fun _ => 0) Fonts.boot Inks.boot
    [⟨1, [.span (.color [31]), .char 104]⟩, ⟨2, [.char 10]⟩] {} fun _ => 7

/-! ## Documents of characters that are drawn -/

/-- The layout and the strokes of characters that are drawn one after the other. -/
structure TypedCells (w : Window) (t : Fonts) (cells : List Cell) (p : Layout × List Stroke) : Prop where
  typed : Typed w t (cells.map Cell.ascii) p.1
  strokes : p.2 = (cells.mapIdx (strokeOf t (w.width / t.glyphWidth))).reverse

theorem TypedCells.print (hw : 320 ≤ w.width) (hh : 320 ≤ w.height) {cells : List Cell} {p : Layout × List Stroke}
    (h : TypedCells w t cells p) {c : Cell} (hc : IsDrawn c.ascii) :
    ∃ p', Layout.print w p c = some p' ∧ TypedCells w t (cells ++ [c]) p' := by
  have hput : p.1.putChar w c.ascii = some (p.1.putGlyph w c.ascii) := by
    rw [Layout.putChar, if_neg hc.1, if_neg hc.2.1, if_neg hc.2.2]
  have htyped := h.typed.putGlyph hw hh c.ascii
  have hdrawn : (p.1.putGlyph w c.ascii).drawn =
      glyphOf t (w.width / t.glyphWidth) cells.length c.ascii :: p.1.drawn := by
    rw [htyped.drawn, List.mapIdx_concat, List.reverse_concat, ← h.typed.drawn, List.length_map]
  have hnew : (p.1.putGlyph w c.ascii).drawn.take ((p.1.putGlyph w c.ascii).drawn.length - p.1.drawn.length) =
      [glyphOf t (w.width / t.glyphWidth) cells.length c.ascii] := by
    rw [hdrawn, List.length_cons, Nat.add_sub_cancel_left]
    rfl
  refine ⟨(p.1.putGlyph w c.ascii, c.stroke (glyphOf t (w.width / t.glyphWidth) cells.length c.ascii) :: p.2),
    ?_, ?_, ?_⟩
  · rw [Layout.print, hput]
    simp only [Option.bind_eq_bind, Option.bind_some, hnew]
    rfl
  · rw [List.map_append]
    exact htyped
  · rw [List.mapIdx_concat, List.reverse_concat, ← h.strokes]
    rfl

theorem TypedCells.run (hw : 320 ≤ w.width) (hh : 320 ≤ w.height) {cells rest : List Cell}
    {p : Layout × List Stroke} (h : TypedCells w t cells p) (hrest : ∀ c ∈ rest, IsDrawn c.ascii) :
    ∃ p', rest.foldlM (Layout.print w) p = some p' ∧ TypedCells w t (cells ++ rest) p' := by
  induction rest generalizing cells p with
  | nil => exact ⟨p, rfl, by rwa [List.append_nil]⟩
  | cons c rest ih =>
    obtain ⟨p1, hprint, h1⟩ := h.print hw hh (hrest c List.mem_cons_self)
    obtain ⟨p', hrun, h'⟩ := ih h1 fun c' hc' => hrest c' (List.mem_cons_of_mem c hc')
    refine ⟨p', ?_, ?_⟩
    · rw [List.foldlM_cons, hprint]
      exact hrun
    · rwa [List.append_assoc] at h'

/-- **Documents in the cells of the window.** The characters of documents that are drawn stand in the cells one after
    the other, each in its colours, scrolled by as many whole lines as it takes to show the last one, and every
    other pixel of the window is blank. -/
theorem documents_in_cells {mode : VbeMode} (hw : 320 ≤ mode.width) (hh : 320 ≤ mode.height)
    (font : Int → BitVec 8) {t : Fonts} (hline : t.maxGlyphSizeYOnLine = t.glyphHeight) (i : Inks)
    {ds : List Print} (hdrawn : ∀ c ∈ (ds.foldl Print.paint { inks := i }).cells, IsDrawn c.ascii) (out : Out)
    (framebuffer : Memory) :
    ∃ enough out' events k,
      (∀ fuel, enough ≤ fuel → ds.foldlM (Print.call fuel) out = .ok out') ∧
      out'.events = out.events ++ events ∧
      events.foldlM (Console.call font mode.toWindow)
        ((Console.cleared t i.fileDescriptor i.standard).setInks i) = some k ∧
      ∀ x y, x < mode.width → y < mode.height →
        let cells := (ds.foldl Print.paint { inks := i }).cells
        mode.grid.pixel (execCalls mode k.screen.calls framebuffer) x y =
          rgb (cellColor font t (mode.width / t.glyphWidth) cells x
            (y + linesScrolled mode.toWindow t cells.length * t.glyphWidth)) := by
  have hbounds := t.glyphWidth_bounds
  have hC : 0 < mode.width / t.glyphWidth := Nat.div_pos (by omega) (by omega)
  obtain ⟨enough, out', events, k, l, strokes, hcalls, hevents, hrun, hcells, hpixel, -⟩ :=
    documents_in_frame_buffer hw hh font t i ds out framebuffer
  refine ⟨enough, out', events, k, hcalls, hevents, hrun, fun x y hx hy => ?_⟩
  have hstart : TypedCells mode.toWindow t [] ((Terminal.clear t).layout, []) := ⟨.cleared hh hline, rfl⟩
  obtain ⟨p, hprint, htyped⟩ := hstart.run hw hh hdrawn
  rw [hcells] at hprint
  cases hprint
  have hstrokes : strokes = _ := htyped.strokes
  have hscrolled : l.scrolled = _ := htyped.typed.scrolled
  rw [hpixel x y hx hy, hstrokes, hscrolled, List.length_map, List.nil_append]
  exact congrArg rgb (colorAt_cells hC _ x _)

/-- A red letter on the standard output and one for the error output, with a font of solid glyphs. -/
theorem documents_in_cells_two : ∃ enough out' events k,
    (∀ fuel, enough ≤ fuel →
      ([⟨1, [.span (.color [31]), .char 104]⟩, ⟨2, [.char 105]⟩] : List Print).foldlM (Print.call fuel) {} =
        .ok out') ∧
    out'.events = [] ++ events ∧
    events.foldlM (Console.call (fun _ => 0xFF) bootMode.toWindow)
      ((Console.cleared Fonts.boot Inks.boot.fileDescriptor Inks.boot.standard).setInks Inks.boot) = some k ∧
    bootMode.grid.pixel (execCalls bootMode k.screen.calls fun _ => 7) 3 3 = rgb 0xDE382B := by
  obtain ⟨enough, out', events, k, hcalls, hevents, hrun, hpixel⟩ :=
    @documents_in_cells bootMode (by decide) (by decide) (fun _ => 0xFF) Fonts.boot rfl Inks.boot
      [⟨1, [.span (.color [31]), .char 104]⟩, ⟨2, [.char 105]⟩] (by decide +kernel) {} fun _ => 7
  exact ⟨enough, out', events, k, hcalls, hevents, hrun, (hpixel 3 3 (by decide) (by decide)).trans
    (by decide +kernel)⟩

end TpSo.Terminal
