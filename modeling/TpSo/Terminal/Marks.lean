import TpSo.Terminal.Picture

set_option autoImplicit false

/-! # Blinking is invisible to the text

What a call does to the text is read off the calls that it makes into the driver: which pixels it puts, each at its
place in the text, and how far the text has been scrolled when it returns. Two runs of the same calls, one with
blinks between them and one without, do the same to the text call for call. -/

namespace TpSo.Terminal

/-- What a call did to the text: the pixels that it put, in their order, by how many rows the text had been scrolled
    when it returned, and where the cursor stood in the text. -/
structure Drawing where
  marks : List Mark
  scrolled : Nat
  x : Int
  y : Int

namespace Screen

/-- What was done between two screens. -/
def drawing (before after : Screen) : Drawing where
  marks := (marks 0 after.calls).drop (marks 0 before.calls).length
  scrolled := rowsScrolled after.calls
  x := after.fonts.xBufferPosition
  y := after.fonts.yBufferPosition + rowsScrolled after.calls

/-- What the calls do one after the other, each with the blinks that come before it. -/
def drawings (font : Int → BitVec 8) (w : Window) : List (List Blink × TextCall) → Screen → Option (List Drawing)
  | [], _ => some []
  | (blinks, call) :: calls, s => do
    let blinked ← blinks.foldlM (fun s b => s.step font w b.call) s
    let written ← blinked.step font w call.call
    let rest ← drawings font w calls written
    return blinked.drawing written :: rest

end Screen

/-- What a layout says was done to the text. -/
def Layout.drawing (font : Int → BitVec 8) (t : Fonts) (l : Layout) : Drawing where
  marks := (l.drawn.map t.stroke).reverse.flatMap (Stroke.marks font t.fontSize)
  scrolled := l.scrolled.toNat
  x := l.x
  y := l.y + l.scrolled

variable {font : Int → BitVec 8} {w : Window} {t : Fonts} {l l' : Layout} {s s' : Screen} {start : Roll}

/-- The calls into the driver have put the glyphs of the layout. -/
theorem Pictured.marks_eq (h : Pictured font w t start [] l s) :
    marks 0 s.calls = (l.drawn.map t.stroke).reverse.flatMap (Stroke.marks font t.fontSize) := by
  obtain ⟨latest, hlatest, -, hmarks⟩ := h.paper
  rw [List.map_nil, List.append_nil] at hlatest
  rw [hmarks, hlatest, List.append_nil]

/-- **A call** does to the text what it does to a layout with nothing drawn. -/
theorem Pictured.text_drawing (hw : 320 ≤ w.width) (hh : 320 ≤ w.height) (h : Pictured font w t start [] l s)
    (c : TextCall) :
    ∃ s' n, s.step font w c.call = some s' ∧ Layout.text w c l.bare = some n ∧
      Pictured font w t start [] (n.laidOver l.drawn) s' ∧ s.drawing s' = n.drawing font t := by
  obtain ⟨s', l', hstep, hwrite, h'⟩ := h.write hw hh (.inl c)
  have htext : (Layout.text w c l.bare).map (Layout.laidOver l.drawn) = some l' := by
    rw [← Layout.text_over, Layout.bare_over]
    exact hwrite
  obtain ⟨n, hn, rfl⟩ := Option.map_eq_some_iff.mp htext
  refine ⟨s', n, hstep, hn, h', ?_⟩
  have hmarks : marks 0 s'.calls = marks 0 s.calls ++ (n.drawing font t).marks := by
    rw [h'.marks_eq, h.marks_eq]
    simp only [Layout.laidOver, Layout.drawing, List.map_append, List.reverse_append, List.flatMap_append]
  have hrows : (rowsScrolled s'.calls : Int) = n.scrolled := h'.rows
  have hx : n.x = s'.fonts.xBufferPosition := h'.shows.x
  have hy : n.y = s'.fonts.yBufferPosition := h'.shows.y
  rw [Screen.drawing, hmarks, List.drop_left, hrows, ← hx, ← hy, Layout.drawing, ← hrows, Int.toNat_natCast]

/-- **Blinks** keep the picture of the layout that blinks. -/
theorem Pictured.blinks (hw : 320 ≤ w.width) (hh : 320 ≤ w.height) (h : Pictured font w t start [] l s)
    (blinks : List Blink) :
    ∃ s', blinks.foldlM (fun s b => s.step font w b.call) s = some s' ∧
      Pictured font w t start [] (blinks.foldl (fun l b => l.blink w b) l) s' := by
  induction blinks generalizing l s with
  | nil => exact ⟨s, rfl, h⟩
  | cons b blinks ih =>
    cases b with
    | showCursor => exact ih (h.showCursor hw hh)
    | hideCursor => exact ih (h.hideCursor hw hh)

/-- **Two runs** from screens that differ in what is drawn at most. -/
theorem Pictured.drawings_blinks (hw : 320 ≤ w.width) (hh : 320 ≤ w.height) (h : Pictured font w t start [] l s)
    (h' : Pictured font w t start [] l' s') (hbare : l'.bare = l.bare) (calls : List (List Blink × TextCall)) :
    ∃ ds, s.drawings font w (calls.map fun c => ([], c.2)) = some ds ∧ s'.drawings font w calls = some ds := by
  induction calls generalizing l l' s s' with
  | nil => exact ⟨[], rfl, rfl⟩
  | cons c calls ih =>
    obtain ⟨blinked, hblinks, hblinked⟩ := h'.blinks hw hh c.1
    obtain ⟨s1, n, hstep, hn, h1, hdrawing⟩ := h.text_drawing hw hh c.2
    obtain ⟨s1', n', hstep', hn', h1', hdrawing'⟩ := hblinked.text_drawing hw hh c.2
    rw [Layout.text_blinks h'.aligned, hbare, hn] at hn'
    cases hn'
    obtain ⟨ds, hrest, hrest'⟩ := ih h1 h1' rfl
    refine ⟨n.drawing font t :: ds, ?_, ?_⟩
    · simp only [List.map_cons, Screen.drawings, List.foldlM_nil, Option.pure_def, Option.bind_eq_bind,
        Option.bind_some, hstep, hrest, hdrawing]
    · simp only [Screen.drawings, hblinks, Option.bind_eq_bind, Option.bind_some, hstep', hrest', hdrawing',
        Option.pure_def]

/-- **Blinking is invisible.** Whatever text is written from a cleared screen on, each call puts the same pixels at
    the same places in the text with blinks before the calls and without, and leaves the text scrolled as far and
    the cursor at the same place in it. -/
theorem blinking_invisible (font : Int → BitVec 8) {w : Window} (hw : 320 ≤ w.width) (hh : 320 ≤ w.height)
    (t : Fonts) (calls : List (List Blink × TextCall)) :
    ∃ ds, (Screen.clear (Screen.blank t)).drawings font w (calls.map fun c => ([], c.2)) = some ds ∧
      (Screen.clear (Screen.blank t)).drawings font w calls = some ds := by
  have hcleared := @Pictured.cleared font w hw hh t ⟨fun _ _ => rgb 0, 0⟩
  exact hcleared.drawings_blinks hw hh hcleared rfl calls

/-- A line is filled, the cursor blinks, and another character is written. -/
def fullLine : List (List Blink × TextCall) :=
  List.replicate 40 ([], .putChar 97) ++ [([.showCursor, .hideCursor], .putChar 98)]

theorem blinking_invisible_fullLine : ∃ ds,
    (Screen.clear (Screen.blank Fonts.boot)).drawings (fun _ => 0) smallWindow
      (List.replicate 40 ([], .putChar 97) ++ [([], .putChar 98)]) = some ds ∧
    (Screen.clear (Screen.blank Fonts.boot)).drawings (fun _ => 0) smallWindow fullLine = some ds :=
  blinking_invisible (fun _ => 0) (by decide) (by decide) Fonts.boot fullLine

end TpSo.Terminal
