import TpSo.Terminal.Inks
import TpSo.Text.Formats

set_option autoImplicit false

/-! # Coloured documents

A document is what one call of `fprintf` is to print: characters, changes of colour, and numbers and strings that
come as arguments. `vfprintf` is given its format and its arguments. What its calls paint on the
terminal is what the document says, mark by mark. -/

namespace TpSo.Stdio

open Terminal (Inks Painting Cell)

/-! ## Documents -/

/-- A character or a change of colours. -/
inductive Span
  | text (c : UInt8) (h : c ≠ 0 ∧ c ≠ ESC)
  | color (params : List Nat)

/-- The conversions that print a number. -/
inductive Radix
  | hexadecimal | decimal | octal | binary
  deriving DecidableEq

/-- A piece of a document. A string is the text of spans, which takes no arguments of its own. -/
inductive Item
  | span (s : Span)
  | number (radix : Radix) (n : BitVec 32)
  | char (n : BitVec 32)
  | string (spans : List Span)

/-- The parameters of an escape sequence. -/
def paramsText : List Nat → List UInt8
  | [] => []
  | [param] => digitsText 10 param
  | param :: params => digitsText 10 param ++ ';'.toUInt8 :: paramsText params

namespace Span

/-- The span in a format. -/
def format : Span → List UInt8
  | .text c _ => if c = '%'.toUInt8 then ['%'.toUInt8, '%'.toUInt8] else [c]
  | .color params => ESC :: '['.toUInt8 :: (paramsText params ++ ['m'.toUInt8])

end Span

namespace Radix

def conversion : Radix → UInt8
  | .hexadecimal => 'x'.toUInt8
  | .decimal => 'd'.toUInt8
  | .octal => 'o'.toUInt8
  | .binary => 'b'.toUInt8

def base : Radix → BitVec 32
  | .hexadecimal => 16
  | .decimal => 10
  | .octal => 8
  | .binary => 2

end Radix

namespace Item

/-- The item in the format. -/
def format : Item → List UInt8
  | .span s => s.format
  | .number radix _ => ['%'.toUInt8, radix.conversion]
  | .char _ => ['%'.toUInt8, 'c'.toUInt8]
  | .string _ => ['%'.toUInt8, 's'.toUInt8]

/-- The arguments it takes. -/
def args : Item → List VaArg
  | .span _ => []
  | .number _ n | .char n => [.int n]
  | .string spans => [.str (spans.flatMap Span.format)]

end Item

/-! ## What a document says -/

/-- The eight colours of the palette, and the bright ones behind them. The first of these is never to be seen: its
    case goes on to the second. -/
def palette : List (BitVec 32) :=
  [0x000000, 0xDE382B, 0x39B54A, 0xFFC706, 0x006FB8, 0x762671, 0x2CB5E9, 0xCCCCCC,
   0xFF0000, 0xFF0000, 0x00FF00, 0xFFFF00, 0x0000FF, 0xFF00FF, 0x00FFFF, 0xFFFFFF]

/-- The colour of a parameter that sets that of the text. -/
def paletteColor (param : Nat) : Option (BitVec 32) :=
  if 30 ≤ param ∧ param ≤ 37 then palette[param - 30]?
  else if 90 ≤ param ∧ param ≤ 97 then palette[param - 82]?
  else none

/-- What a parameter says: the default colours, a colour for the text, one for its background, or nothing. -/
def setColor (param : UInt8) (k : Inks) : Inks :=
  if param = 0 then (k.setTextColor Terminal.DEFAULT_TEXT_COLOR).setBackgroundColor Terminal.DEFAULT_BACKGROUND_COLOR
  else
    match paletteColor param.toNat, paletteColor (param.toNat - 10) with
    | some color, _ => k.setTextColor color
    | none, some color => k.setBackgroundColor color
    | none, none => k

/-- A character that is printed, or a parameter. -/
inductive Mark
  | char (c : UInt8)
  | color (param : UInt8)

/-- The parameters of an escape sequence; a sequence without any has the parameter 0. -/
def colorMarks (params : List Nat) : List Mark :=
  if params = [] then [.color 0] else params.map fun param => .color (UInt8.ofNat param)

def Span.marks : Span → List Mark
  | .text c _ => [.char c]
  | .color params => colorMarks params

def Item.marks : Item → List Mark
  | .span s => s.marks
  | .number radix n => (printedText n radix.base).map .char
  | .char n => [.char (UInt8.ofBitVec (n.truncate 8))]
  | .string spans => spans.flatMap Span.marks

/-- What a mark does to the terminal when it is printed to a descriptor. -/
def Mark.paint (fd : Int) (p : Painting) : Mark → Painting
  | .char c => p.print fd c
  | .color param => p.onInks (setColor param)

/-- What a call does to the terminal. `write` prints byte after byte. -/
def Event.paint (p : Painting) : Event → Painting
  | .write fd bytes => bytes.foldl (fun p c => p.print fd c) p
  | .textColor color => p.onInks (Inks.setTextColor color)
  | .backgroundColor color => p.onInks (Inks.setBackgroundColor color)

section

variable {fd : Int} {fuel : Nat} {s format : List UInt8} {args : List VaArg} {marks marks' : List Mark}
  {out out' out'' : Out}

/-! ## Calls that paint marks -/

/-- The calls made from `out` to `out'` paint the marks. -/
def Paints (fd : Int) (marks : List Mark) (out out' : Out) : Prop :=
  ∃ events, out'.events = out.events ++ events ∧
    ∀ p, events.foldl Event.paint p = marks.foldl (Mark.paint fd) p

theorem Paints.refl (out : Out) : Paints fd [] out out := ⟨[], (List.append_nil _).symm, fun _ => rfl⟩

theorem Paints.trans (h : Paints fd marks out out') (h' : Paints fd marks' out' out'') :
    Paints fd (marks ++ marks') out out'' := by
  obtain ⟨events, hevents, hpaint⟩ := h
  obtain ⟨events', hevents', hpaint'⟩ := h'
  refine ⟨events ++ events', ?_, fun p => ?_⟩
  · rw [hevents', hevents, List.append_assoc]
  · rw [List.foldl_append, List.foldl_append, hpaint, hpaint']

/-- The static buffer has no colour. -/
theorem Paints.buffer (h : Paints fd marks out out') (b : Buffer) :
    Paints fd marks out { out' with buffer := b } := h

/-- To write nothing paints nothing. -/
theorem paints_write_nil (out : Out) : Paints fd [] out (out.write fd []) := ⟨[.write fd []], rfl, fun _ => rfl⟩

theorem paints_write (out : Out) (c : UInt8) : Paints fd [.char c] out (out.write fd [c]) :=
  ⟨[.write fd [c]], rfl, fun _ => rfl⟩

theorem paints_writes (out : Out) (s : List UInt8) : Paints fd (s.map .char) out (out.writes fd s) := by
  induction s generalizing out with
  | nil => exact .refl out
  | cons c s ih => exact (paints_write out c).trans (ih (out.write fd [c]))

/-! ## Colours -/

/-- The last of the colours that `setANSIProp` sets is that of the palette. -/
theorem getLast_ansiColors (prop : UInt8) : (ansiColors prop).getLast? = paletteColor prop.toNat := by
  have hall : ∀ n < 256, (ansiColors (UInt8.ofNat n)).getLast? = paletteColor n := by decide +kernel
  have h := hall prop.toNat prop.toNat_lt
  rwa [UInt8.ofNat_toNat] at h

/-- Of colours that are set in turn the last one stays. -/
theorem foldl_colors (call : BitVec 32 → Event) (set : BitVec 32 → Inks → Inks)
    (hcall : ∀ color p, Event.paint p (call color) = p.onInks (set color))
    (hset : ∀ color color' k, set color' (set color k) = set color' k) (colors : List (BitVec 32))
    (p : Painting) :
    (colors.map call).foldl Event.paint p =
      match colors.getLast? with
      | some color => p.onInks (set color)
      | none => p := by
  induction colors generalizing p with
  | nil => rfl
  | cons color colors ih =>
    rw [List.map_cons, List.foldl_cons, ih, hcall]
    cases colors with
    | nil => rfl
    | cons color' colors =>
      rw [List.getLast?_cons_cons, List.getLast?_eq_some_getLast (List.cons_ne_nil color' colors)]
      simp only [Painting.onInks, hset]

/-- The parameters of the background. -/
def IsBackground (param : Nat) : Prop := 40 ≤ param ∧ param ≤ 47 ∨ 100 ≤ param ∧ param ≤ 107

theorem setColor_background {param : UInt8} (h : IsBackground param.toNat) (k : Inks) :
    setColor param k =
      match paletteColor (param.toNat - 10) with
      | some color => k.setBackgroundColor color
      | none => k := by
  have hne : param ≠ 0 := by
    rintro rfl
    exact absurd h (by unfold IsBackground; decide)
  have htext : paletteColor param.toNat = none := by
    unfold IsBackground at h
    rw [paletteColor, if_neg (by omega), if_neg (by omega)]
  rw [setColor, if_neg hne, htext]
  cases paletteColor (param.toNat - 10) <;> rfl

theorem setColor_text {param : UInt8} (hne : param ≠ 0) (h : ¬ IsBackground param.toNat) (k : Inks) :
    setColor param k =
      match paletteColor param.toNat with
      | some color => k.setTextColor color
      | none => k := by
  have hback : paletteColor (param.toNat - 10) = none := by
    unfold IsBackground at h
    rw [paletteColor, if_neg (by omega), if_neg (by omega)]
  rw [setColor, if_neg hne, hback]
  cases paletteColor param.toNat <;> rfl

/-- **`setANSIProp`** paints its parameter. -/
theorem paints_setANSIProp (prop : UInt8) (out : Out) :
    Paints fd [.color prop] out (setANSIProp prop out) := by
  refine ⟨_, rfl, fun p => ?_⟩
  show _ = p.onInks (setColor prop)
  by_cases hback : 40 ≤ prop ∧ prop ≤ 47 ∨ 100 ≤ prop ∧ prop ≤ 107
  · have hnat : IsBackground prop.toNat := hback
    have hsub : (prop - 10).toNat = prop.toNat - 10 := by
      apply UInt8.toNat_sub_of_le
      show 10 ≤ prop.toNat
      unfold IsBackground at hnat
      omega
    have hne : prop - 10 ≠ 0 := by
      intro hzero
      have hten : prop.toNat - 10 = 0 := hsub.symm.trans (congrArg UInt8.toNat hzero)
      unfold IsBackground at hnat
      omega
    have hset : setColor prop = fun k => match paletteColor (prop.toNat - 10) with
        | some color => k.setBackgroundColor color
        | none => k := funext (setColor_background hnat)
    simp only [if_pos hback, if_neg hne, hset]
    rw [foldl_colors .backgroundColor Inks.setBackgroundColor (fun _ _ => rfl) (fun _ _ _ => rfl),
      getLast_ansiColors, hsub]
    cases paletteColor (prop.toNat - 10) <;> rfl
  · have hnat : ¬ IsBackground prop.toNat := hback
    by_cases hzero : prop = 0
    · subst hzero
      rfl
    · have hset : setColor prop = fun k => match paletteColor prop.toNat with
          | some color => k.setTextColor color
          | none => k := funext (setColor_text hzero hnat)
      simp only [if_neg hback, if_neg hzero, hset]
      rw [foldl_colors .textColor Inks.setTextColor (fun _ _ => rfl) (fun _ _ _ => rfl),
        getLast_ansiColors]
      cases paletteColor prop.toNat <;> rfl

/-! ## Escape sequences -/

/-- **Digits** add up to their number, as far as a byte holds it. -/
theorem attributes_digits {ds : List Nat} (hds : ∀ d ∈ ds, d < 10) (rest : List UInt8) (n : Nat) (out : Out) :
    attributes (ds.map digitChar ++ rest) (UInt8.ofNat n) out =
      attributes rest (UInt8.ofNat (ds.foldl (fun acc d => acc * 10 + d) n)) out := by
  induction ds generalizing n with
  | nil => rfl
  | cons d ds ih =>
    have hd := hds d List.mem_cons_self
    have hchar : digitChar d ≠ ';'.toUInt8 ∧ digitChar d ≠ 'm'.toUInt8 ∧
        digitChar d - '0'.toUInt8 = UInt8.ofNat d := by
      clear ih hds
      revert d
      decide
    rw [List.map_cons, List.cons_append, attributes, if_neg hchar.1, if_neg hchar.2.1, hchar.2.2]
    have hstep : UInt8.ofNat n * 10 + UInt8.ofNat d = UInt8.ofNat (n * 10 + d) := by
      rw [UInt8.ofNat_add, UInt8.ofNat_mul]
      rfl
    rw [hstep]
    exact ih (fun d' hd' => hds d' (List.mem_cons_of_mem d hd')) _

theorem attributes_param (param : Nat) (rest : List UInt8) (out : Out) :
    attributes (digitsText 10 param ++ rest) 0 out = attributes rest (UInt8.ofNat param) out := by
  have hdigits := @attributes_digits (Numeral.digits 10 param)
    (fun d hd => Numeral.lt_of_mem_digits (by decide) hd) rest 0 out
  have hvalue : (Numeral.digits 10 param).foldl (fun acc d => acc * 10 + d) 0 = param :=
    Numeral.value_digits 10 param
  rw [hvalue] at hdigits
  exact hdigits

theorem attributes_end (rest : List UInt8) (prop : UInt8) (out : Out) :
    attributes ('m'.toUInt8 :: rest) prop out = .ok (rest, setANSIProp prop out) := rfl

theorem attributes_params (params : List Nat) (out : Out) : ∃ out', Paints fd (colorMarks params) out out' ∧
    ∀ rest, attributes (paramsText params ++ 'm'.toUInt8 :: rest) 0 out = .ok (rest, out') := by
  induction params generalizing out with
  | nil => exact ⟨_, paints_setANSIProp 0 out, fun rest => attributes_end rest 0 out⟩
  | cons param params ih =>
    have hparam := @paints_setANSIProp fd (UInt8.ofNat param) out
    cases params with
    | nil =>
      refine ⟨_, hparam, fun rest => ?_⟩
      rw [paramsText, attributes_param]
      exact attributes_end rest _ out
    | cons param' params =>
      obtain ⟨out', hpaints, hrest⟩ := ih (setANSIProp (UInt8.ofNat param) out)
      refine ⟨out', hparam.trans hpaints, fun rest => ?_⟩
      rw [paramsText, List.append_assoc, attributes_param]
      · exact hrest rest
      · exact List.cons_ne_nil param' params

/-- **`parseANSI`** paints its parameters, and goes behind the sequence. -/
theorem parseANSI_params (params : List Nat) (out : Out) : ∃ out', Paints fd (colorMarks params) out out' ∧
    ∀ rest, parseANSI ((Span.color params).format ++ rest) out = .ok (rest, out') := by
  obtain ⟨out', hpaints, hparse⟩ := @attributes_params fd params out
  refine ⟨out', hpaints, fun rest => ?_⟩
  have hformat : (Span.color params).format ++ rest =
      ESC :: '['.toUInt8 :: (paramsText params ++ 'm'.toUInt8 :: rest) := by
    simp [Span.format]
  rw [hformat, parseANSI, if_neg (by simp)]
  exact hparse rest

/-! ## Pieces of a format -/

/-- Wherever the piece stands in a format, it is passed in some rounds that paint the marks, if there are enough
    rounds left. -/
def Prints (fd : Int) (piece : List UInt8) (pieceArgs : List VaArg) (marks : List Mark) : Prop :=
  ∀ out, ∃ rounds enough out', Paints fd marks out out' ∧ ∀ fuel, enough ≤ fuel → ∀ format args,
    vfprintf fd (fuel + rounds) (piece ++ format) (pieceArgs ++ args) out = vfprintf fd fuel format args out'

theorem Prints.nil : Prints fd [] [] [] := fun out => ⟨0, 0, out, .refl out, fun _ _ _ _ => rfl⟩

theorem Prints.append {piece piece' : List UInt8} {pieceArgs pieceArgs' : List VaArg}
    (h : Prints fd piece pieceArgs marks) (h' : Prints fd piece' pieceArgs' marks') :
    Prints fd (piece ++ piece') (pieceArgs ++ pieceArgs') (marks ++ marks') := by
  intro out
  obtain ⟨rounds, enough, out1, hpaints, hstep⟩ := h out
  obtain ⟨rounds', enough', out2, hpaints', hstep'⟩ := h' out1
  refine ⟨rounds' + rounds, max enough enough', out2, hpaints.trans hpaints', fun fuel hfuel format args => ?_⟩
  rw [← Nat.add_assoc, List.append_assoc, List.append_assoc, hstep _ (by omega), hstep' fuel (by omega)]

/-- A piece that takes one round. -/
theorem Prints.round {piece : List UInt8} {pieceArgs : List VaArg}
    (h : ∀ out, ∃ enough out', Paints fd marks out out' ∧ ∀ fuel, enough ≤ fuel → ∀ format args,
      vfprintf fd (fuel + 1) (piece ++ format) (pieceArgs ++ args) out = vfprintf fd fuel format args out') :
    Prints fd piece pieceArgs marks := fun out => ⟨1, h out⟩

/-- A whole format is printed to its end. -/
theorem Prints.returns (h : Prints fd format args marks) (out : Out) :
    ∃ enough out', Paints fd marks out out' ∧
      ∀ fuel, enough ≤ fuel → vfprintf fd fuel format args out = .ok out' := by
  obtain ⟨rounds, enough, out', hpaints, hstep⟩ := h out
  refine ⟨enough + 1 + rounds, out', hpaints, fun fuel hfuel => ?_⟩
  have hend := hstep (fuel - rounds) (by omega) [] []
  rw [List.append_nil, List.append_nil, Nat.sub_add_cancel (by omega)] at hend
  rw [hend]
  obtain ⟨more, hmore⟩ : ∃ more, fuel - rounds = more + 1 := ⟨fuel - rounds - 1, by omega⟩
  rw [hmore]
  rfl

/-! ## Spans -/

theorem Span.prints (span : Span) : Prints fd span.format [] span.marks := by
  cases span with
  | text c h =>
    refine .round fun out => ⟨0, _, paints_write out c, fun fuel _ format args => ?_⟩
    by_cases hpercent : c = '%'.toUInt8
    · simp only [Span.format, if_pos hpercent]
      rw [hpercent]
      rfl
    · simp only [Span.format, if_neg hpercent]
      exact vfprintf_ordinary ⟨h.2, hpercent⟩
  | color params =>
    refine .round fun out => ?_
    obtain ⟨out', hpaints, hparse⟩ := @parseANSI_params fd params (out.write fd [])
    refine ⟨0, out', (paints_write_nil out).trans hpaints, fun fuel _ format args => ?_⟩
    have hround := @vfprintf_escape fd fuel ('['.toUInt8 :: (paramsText params ++ ['m'.toUInt8]) ++ format)
      ([] ++ args) out
    rw [show ESC :: ('['.toUInt8 :: (paramsText params ++ ['m'.toUInt8]) ++ format) =
      (Span.color params).format ++ format from rfl, hparse] at hround
    exact hround

theorem prints_spans (spans : List Span) :
    Prints fd (spans.flatMap Span.format) [] (spans.flatMap Span.marks) := by
  induction spans with
  | nil => exact .nil
  | cons span spans ih => exact span.prints.append ih

/-! ## Items -/

/-- **`printBase`** paints its number. -/
theorem printBase_paints {base : BitVec 32} (hb : 2 ≤ base.toNat) (hb16 : base.toNat ≤ 16) (n : BitVec 32)
    (out : Out) : ∃ out', Paints fd ((printedText n base).map .char) out out' ∧ ∀ fuel, 65 ≤ fuel →
      printBase (fun s out => vfprintf fd fuel s [] out) n base out = .ok out' := by
  have hdigits : ∀ c ∈ digitsText base.toNat (n.signExtend 64).toNat, Ordinary c ∧ c ≠ 0 :=
    fun c hc => digitsText_ordinary (by omega) hb16 hc
  have hlen : (digitsText base.toNat (n.signExtend 64).toNat).length ≤ 64 := by
    rw [length_digitsText]
    exact lowText_length_le (by omega) _
  obtain ⟨out1, hpaints, hsign⟩ : ∃ out1,
      Paints fd ((if n.toInt < 0 then ['-'.toUInt8] else []).map .char) out out1 ∧ ∀ fuel, 65 ≤ fuel →
        (if n.toInt < 0 then vfprintf fd fuel ['-'.toUInt8] [] out else .ok out) = .ok out1 := by
    by_cases hneg : n.toInt < 0
    · simp only [if_pos hneg]
      refine ⟨_, paints_writes out _, fun fuel hfuel => vfprintf_plain (fun c hc => ?_) (show 1 < fuel by omega)⟩
      rw [List.mem_singleton.mp hc]
      unfold Ordinary
      decide
    · simp only [if_neg hneg]
      exact ⟨out, .refl out, fun _ _ => rfl⟩
  obtain ⟨b, huint, hwritten⟩ := uintToBase_eq (n.signExtend 64) out1.buffer hb
  have hstring : b.string 65 = digitsText base.toNat (n.signExtend 64).toNat :=
    string_of_holds hwritten.holds (fun c hc => (hdigits c hc).2) (by omega)
  have htext := (hpaints.buffer b).trans (paints_writes { out1 with buffer := b }
    (digitsText base.toNat (n.signExtend 64).toNat))
  rw [← List.map_append] at htext
  refine ⟨_, htext, fun fuel hfuel => ?_⟩
  simp only [printBase, hsign fuel hfuel, huint, hstring]
  exact vfprintf_plain (fun c hc => (hdigits c hc).1) (by omega)

theorem Radix.conversionBase_eq (radix : Radix) : conversionBase radix.conversion = some radix.base := by
  cases radix <;> rfl

theorem Item.prints (item : Item) : Prints fd item.format item.args item.marks := by
  cases item with
  | span s => exact s.prints
  | number radix n =>
    refine .round fun out => ?_
    have hbase := conversionBase_bounds radix.conversionBase_eq
    obtain ⟨out', hpaints, hprint⟩ := @printBase_paints fd _ hbase.1 hbase.2 n out
    refine ⟨65, out', hpaints, fun fuel hfuel format args => ?_⟩
    have hround := @vfprintf_percent fd fuel format (.int n :: args) out radix.conversion
    rw [convert_number radix.conversionBase_eq (hprint fuel hfuel)] at hround
    exact hround
  | char n => exact .round fun out => ⟨0, _, paints_write out _, fun _ _ _ _ => rfl⟩
  | string spans =>
    refine .round fun out => ?_
    obtain ⟨enough, out', hpaints, hprint⟩ := (@prints_spans fd spans).returns out
    refine ⟨enough, out', hpaints, fun fuel hfuel format args => ?_⟩
    have hround := @vfprintf_percent fd fuel format (.str (spans.flatMap Span.format) :: args) out 's'.toUInt8
    rw [convert_string, hprint fuel hfuel] at hround
    exact hround

theorem prints_items (items : List Item) :
    Prints fd (items.flatMap Item.format) (items.flatMap Item.args) (items.flatMap Item.marks) := by
  induction items with
  | nil => exact .nil
  | cons item items ih => exact item.prints.append ih

end

/-! ## Documents on the terminal -/

/-- A call of `fprintf`: the descriptor, and the document. -/
structure Print where
  fd : Int
  items : List Item

namespace Print

def call (fuel : Nat) (out : Out) (d : Print) : Except Stop Out :=
  vfprintf d.fd fuel (d.items.flatMap Item.format) (d.items.flatMap Item.args) out

/-- What the document says, on the terminal. -/
def paint (p : Painting) (d : Print) : Painting := (d.items.flatMap Item.marks).foldl (Mark.paint d.fd) p

theorem call_paints (d : Print) (out : Out) : ∃ enough out' events, out'.events = out.events ++ events ∧
    (∀ p, events.foldl Event.paint p = d.paint p) ∧ ∀ fuel, enough ≤ fuel → d.call fuel out = .ok out' := by
  obtain ⟨enough, out', ⟨events, hevents, hpaint⟩, hreturns⟩ := (@prints_items d.fd d.items).returns out
  exact ⟨enough, out', events, hevents, hpaint, hreturns⟩

end Print

/-- **Documents on the terminal.** Calls of `fprintf`, to any descriptors and in any order, come to their end, and
    what they write and which colours they set paints the documents. -/
theorem documents_painted (ds : List Print) (out : Out) : ∃ enough out' events,
    out'.events = out.events ++ events ∧ (∀ p, events.foldl Event.paint p = ds.foldl Print.paint p) ∧
      ∀ fuel, enough ≤ fuel → ds.foldlM (Print.call fuel) out = .ok out' := by
  induction ds generalizing out with
  | nil => exact ⟨0, out, [], (List.append_nil _).symm, fun _ => rfl, fun _ _ => rfl⟩
  | cons d ds ih =>
    obtain ⟨enough, out1, events, hevents, hpaint, hcall⟩ := d.call_paints out
    obtain ⟨enough', out', events', hevents', hpaint', hcalls⟩ := ih out1
    refine ⟨max enough enough', out', events ++ events', ?_, fun p => ?_, fun fuel hfuel => ?_⟩
    · rw [hevents', hevents, List.append_assoc]
    · rw [List.foldl_append, hpaint, hpaint', List.foldl_cons]
    · rw [List.foldlM_cons, hcall fuel (by omega)]
      exact hcalls fuel (by omega)

-- What is set in front of the first character for `STDOUT` is lost when the last one was for `STDERR`.
example : (([⟨2, [.number .decimal 4]⟩, ⟨1, [.span (.color [31, 44]), .char 88, .span (.color [44]), .char 89]⟩] :
    List Print).foldl Print.paint { inks := Inks.boot }).cells =
      [⟨52, 0xDE382B, 0⟩, ⟨88, 0xFFFFFF, 0⟩, ⟨89, 0xFFFFFF, 0x006FB8⟩] := by decide +kernel

end TpSo.Stdio
