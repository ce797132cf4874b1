import Mathlib.Data.List.Basic
import TpSo.Library.PixelGrid
import TpSo.Terminal.Fonts

set_option autoImplicit false

/-! # The video driver (`drivers/video.c`)

The frame buffer is a byte memory, addressed from its start. The functions compute the offsets of the
bytes as the code does; the theorems say what they do to the pixels of the window, and that they leave
every other byte alone. -/

namespace TpSo.Terminal

open Bytes (Memory)
open PixelGrid

/-- What the driver reads of `vbe_mode_info_structure`, in a mode with a byte for each colour whose rows
    hold their pixels and whose offsets fit an `int`. -/
structure VbeMode extends Window where
  pitch : Nat
  bpp : Nat
  pitch_lt : pitch < 2 ^ 16
  bpp_lt : bpp < 2 ^ 8
  bpp_ge : 24 ≤ bpp
  row_le : width * (bpp / 8) ≤ pitch
  size_lt : height * pitch < 2 ^ 31

/-- The three bytes of a colour. -/
def rgb (hexColor : BitVec 32) : Rgb where
  blue := UInt8.ofNat (hexColor &&& 0xFF).toNat
  green := UInt8.ofNat ((hexColor >>> 8) &&& 0xFF).toNat
  red := UInt8.ofNat ((hexColor >>> 16) &&& 0xFF).toNat

/-- The stores to `framebuffer[offset]` and the two bytes behind it; an offset is a `uint64_t`. -/
def setBytes (framebuffer : Memory) (offset : Nat) (c : Rgb) : Memory :=
  let framebuffer := Function.update framebuffer (offset % 2 ^ 64) c.blue
  let framebuffer := Function.update framebuffer ((offset + 1) % 2 ^ 64) c.green
  Function.update framebuffer ((offset + 2) % 2 ^ 64) c.red

/-- The three assignments from `newOffset` to `offset`. -/
def moveBytes (framebuffer : Memory) (offset newOffset : Nat) : Memory :=
  let framebuffer := Function.update framebuffer (offset % 2 ^ 64) (framebuffer (newOffset % 2 ^ 64))
  let framebuffer := Function.update framebuffer ((offset + 1) % 2 ^ 64)
    (framebuffer ((newOffset + 1) % 2 ^ 64))
  Function.update framebuffer ((offset + 2) % 2 ^ 64) (framebuffer ((newOffset + 2) % 2 ^ 64))

section

variable (mode : VbeMode) (hexColor : BitVec 32)

/-- `putPixel`. -/
def putPixel (x y : Nat) (framebuffer : Memory) : Memory :=
  setBytes framebuffer (x * (mode.bpp >>> 3) + y * mode.pitch) (rgb hexColor)

/-- `drawRectangle`; the loops count from the initial position with `uint64_t` variables. -/
def drawRectangle (width height initialPosX initialPosY : Nat) (framebuffer : Memory) : Memory :=
  (List.range height).foldl (fun framebuffer dy =>
    (List.range width).foldl (fun framebuffer dx =>
      putPixel mode hexColor ((initialPosX + dx) % 2 ^ 64) ((initialPosY + dy) % 2 ^ 64) framebuffer)
      framebuffer) framebuffer

/-- The body of the loops of `drawCircle`, with `x` and `y` counted from `-radius`. -/
def circlePixel (topLeftX topLeftY radius i j : Nat) (framebuffer : Memory) : Memory :=
  let centerX : Int := Int.bmod (topLeftX + radius : Nat) (2 ^ 64)
  let centerY : Int := Int.bmod (topLeftY + radius : Nat) (2 ^ 64)
  let y : Int := i - radius
  let x : Int := j - radius
  if x * x + y * y ≤ radius * radius then
    putPixel mode hexColor (toUInt64 (centerX + x)) (toUInt64 (centerY + y)) framebuffer
  else framebuffer

/-- `drawCircle`; the loops run from `-radius` up to `radius`, which is left out. -/
def drawCircle (topLeftX topLeftY diameter : Nat) (framebuffer : Memory) : Memory :=
  (List.range (2 * (diameter / 2))).foldl (fun framebuffer i =>
    (List.range (2 * (diameter / 2))).foldl (fun framebuffer j =>
      circlePixel mode hexColor topLeftX topLeftY (diameter / 2) i j framebuffer)
      framebuffer) framebuffer

/-- `fillVideoMemory`. -/
def fillVideoMemory (framebuffer : Memory) : Memory :=
  (List.range mode.height).foldl (fun framebuffer y =>
    (List.range mode.width).foldl (fun framebuffer x =>
      setBytes framebuffer (x * (mode.bpp >>> 3) + y * mode.pitch) (rgb hexColor))
      framebuffer) framebuffer

/-- `scrollVideoMemoryUp`. The bound `height - scroll` of the first loop is an `int`, the start of the second
    one a `uint16_t`. -/
def scrollVideoMemoryUp (scroll : Nat) (framebuffer : Memory) : Memory :=
  let framebuffer := (List.range (mode.height - scroll)).foldl (fun framebuffer y =>
    (List.range mode.width).foldl (fun framebuffer x =>
      let xo := x * (mode.bpp >>> 3)
      moveBytes framebuffer (xo + y * mode.pitch) (xo + (y + scroll) * mode.pitch))
      framebuffer) framebuffer
  let start := (mode.height + 2 ^ 16 - scroll) % 2 ^ 16
  (List.range' start (mode.height - start)).foldl (fun framebuffer y =>
    (List.range mode.width).foldl (fun framebuffer x =>
      setBytes framebuffer (x * (mode.bpp >>> 3) + y * mode.pitch) (rgb hexColor))
      framebuffer) framebuffer

end

/-! ## Offsets -/

/-- The pixels of a mode. -/
def VbeMode.grid (mode : VbeMode) : Grid where
  width := mode.width
  height := mode.height
  bytes := mode.bpp / 8
  pitch := mode.pitch
  bytes_ge := by
    have hbpp := mode.bpp_ge
    omega
  row_le := mode.row_le

variable {mode : VbeMode} {hexColor : BitVec 32} {framebuffer : Memory} {x y : Nat}

theorem VbeMode.offset_eq (mode : VbeMode) (x y : Nat) :
    x * (mode.bpp >>> 3) + y * mode.pitch = mode.grid.offset x y := by
  rw [Nat.shiftRight_eq_div_pow]
  rfl

theorem VbeMode.offset_lt (mode : VbeMode) (h : mode.grid.Inside x y) :
    mode.grid.offset x y + 3 ≤ 2 ^ 31 := by
  have hrow := mode.grid.offset_add_le (y := y) h.1
  have hrows : (y + 1) * mode.pitch ≤ mode.height * mode.pitch := Nat.mul_le_mul_right _ h.2
  exact (hrow.trans hrows).trans mode.size_lt.le

theorem setBytes_eq (framebuffer : Memory) {offset : Nat} (c : Rgb) (h : offset + 3 ≤ 2 ^ 31) :
    setBytes framebuffer offset c = store framebuffer offset c := by
  simp only [setBytes]
  rw [Nat.mod_eq_of_lt (by omega), Nat.mod_eq_of_lt (by omega), Nat.mod_eq_of_lt (by omega)]
  rfl

theorem moveBytes_eq (framebuffer : Memory) {offset newOffset : Nat} (h : offset + 3 ≤ 2 ^ 31)
    (h' : newOffset + 3 ≤ 2 ^ 31) :
    moveBytes framebuffer offset newOffset = copyPixel framebuffer offset newOffset := by
  simp only [moveBytes, copyPixel]
  rw [Nat.mod_eq_of_lt (by omega), Nat.mod_eq_of_lt (by omega), Nat.mod_eq_of_lt (by omega),
    Nat.mod_eq_of_lt (by omega), Nat.mod_eq_of_lt (by omega), Nat.mod_eq_of_lt (by omega)]

/-! ## Painting -/

/-- The stores of one pixel paint it. -/
theorem setBytes_paints (h : mode.grid.Inside x y) :
    mode.grid.Paints (rgb hexColor) (fun x' y' => x' = x ∧ y' = y) fun framebuffer =>
      setBytes framebuffer (x * (mode.bpp >>> 3) + y * mode.pitch) (rgb hexColor) := by
  have heq (framebuffer : Memory) :=
    setBytes_eq framebuffer (rgb hexColor) (mode.offset_lt h)
  simp only [mode.offset_eq, heq]
  exact .store h _

theorem putPixel_paints (h : mode.grid.Inside x y) :
    mode.grid.Paints (rgb hexColor) (fun x' y' => x' = x ∧ y' = y) (putPixel mode hexColor x y) :=
  setBytes_paints h

theorem drawRectangle_paints {width height left top : Nat} (hx : left + width ≤ mode.width)
    (hy : top + height ≤ mode.height) :
    mode.grid.Paints (rgb hexColor)
      (fun x y => (left ≤ x ∧ x < left + width) ∧ top ≤ y ∧ y < top + height)
      (drawRectangle mode hexColor width height left top) := by
  have hwidth := mode.width_lt
  have hheight := mode.height_lt
  refine (Grid.Paints.foldl fun dy hdy => Grid.Paints.foldl fun dx hdx =>
    @putPixel_paints mode hexColor ((left + dx) % 2 ^ 64) ((top + dy) % 2 ^ 64) ?_).congr ?_
  · rw [List.mem_range] at hdx hdy
    rw [Nat.mod_eq_of_lt (by omega), Nat.mod_eq_of_lt (by omega)]
    exact ⟨show left + dx < mode.width by omega, show top + dy < mode.height by omega⟩
  · intro x y hin
    have hxin : x < mode.width := hin.1
    have hyin : y < mode.height := hin.2
    simp only [List.mem_range]
    constructor
    · rintro ⟨dy, hdy, dx, hdx, rfl, rfl⟩
      omega
    · rintro ⟨⟨hx0, hx1⟩, hy0, hy1⟩
      exact ⟨y - top, by omega, x - left, by omega, by omega, by omega⟩

/-- The disc of a radius about the origin. -/
def InDisc (radius : Nat) (x y : Int) : Prop := x * x + y * y ≤ radius * radius

instance (radius : Nat) (x y : Int) : Decidable (InDisc radius x y) :=
  inferInstanceAs (Decidable (_ ≤ _))

/-- The pixels of a circle: its square of `2 * radius` pixels a side leaves out the last column and the
    last row of the disc. -/
def InCircle (topLeftX topLeftY radius x y : Nat) : Prop :=
  (topLeftX ≤ x ∧ x < topLeftX + 2 * radius) ∧ (topLeftY ≤ y ∧ y < topLeftY + 2 * radius) ∧
    InDisc radius (x - (topLeftX + radius : Nat)) (y - (topLeftY + radius : Nat))

instance (topLeftX topLeftY radius x y : Nat) : Decidable (InCircle topLeftX topLeftY radius x y) :=
  inferInstanceAs (Decidable (_ ∧ _ ∧ _))

theorem toUInt64_center {topLeft radius bound i : Nat} (hbound : bound < 2 ^ 16)
    (h : topLeft + 2 * radius ≤ bound) (hi : i < 2 * radius) :
    toUInt64 (Int.bmod (topLeft + radius : Nat) (2 ^ 64) + (i - radius : Int)) = topLeft + i := by
  have hcenter : Int.bmod (topLeft + radius : Nat) (2 ^ 64) = (topLeft + radius : Nat) :=
    Int.bmod_eq_of_le (by omega) (by omega)
  rw [hcenter, toUInt64]
  omega

theorem circlePixel_paints {left top radius i j : Nat} (hx : left + 2 * radius ≤ mode.width)
    (hy : top + 2 * radius ≤ mode.height) (hi : i < 2 * radius) (hj : j < 2 * radius) :
    mode.grid.Paints (rgb hexColor)
      (fun x y => InDisc radius (j - radius) (i - radius) ∧ x = left + j ∧ y = top + i)
      (circlePixel mode hexColor left top radius i j) := by
  have hin : mode.grid.Inside (left + j) (top + i) :=
    ⟨show left + j < mode.width by omega, show top + i < mode.height by omega⟩
  by_cases hdisc : InDisc radius (j - radius) (i - radius)
  · have heq : circlePixel mode hexColor left top radius i j =
        putPixel mode hexColor (left + j) (top + i) := by
      funext framebuffer
      rw [circlePixel, toUInt64_center mode.width_lt hx hj, toUInt64_center mode.height_lt hy hi]
      exact if_pos hdisc
    rw [heq]
    exact (putPixel_paints hin).congr (by simp [hdisc])
  · have heq : circlePixel mode hexColor left top radius i j = id := by
      funext framebuffer
      exact if_neg hdisc
    rw [heq]
    exact (Grid.Paints.nothing _).congr (by simp [hdisc])

theorem drawCircle_paints {left top diameter : Nat} (hx : left + 2 * (diameter / 2) ≤ mode.width)
    (hy : top + 2 * (diameter / 2) ≤ mode.height) :
    mode.grid.Paints (rgb hexColor) (InCircle left top (diameter / 2))
      (drawCircle mode hexColor left top diameter) := by
  refine (Grid.Paints.foldl fun i hi => Grid.Paints.foldl fun j hj => circlePixel_paints hx hy
    (List.mem_range.mp hi) (List.mem_range.mp hj)).congr fun x y hin => ?_
  have hfrom (left i radius : Nat) : ((left + i : Nat) : Int) - (left + radius : Nat) = i - radius := by
    omega
  simp only [List.mem_range]
  constructor
  · rintro ⟨i, hi, j, hj, hdisc, rfl, rfl⟩
    refine ⟨by omega, by omega, ?_⟩
    rw [hfrom, hfrom]
    exact hdisc
  · rintro ⟨⟨hx0, hx1⟩, ⟨hy0, hy1⟩, hdisc⟩
    obtain ⟨j, rfl⟩ := Nat.exists_eq_add_of_le hx0
    obtain ⟨i, rfl⟩ := Nat.exists_eq_add_of_le hy0
    rw [hfrom, hfrom] at hdisc
    exact ⟨i, by omega, j, by omega, hdisc, rfl, rfl⟩

/-- The loops that fill the rows from `start` on. -/
def fillRows (mode : VbeMode) (hexColor : BitVec 32) (start count : Nat) (framebuffer : Memory) : Memory :=
  (List.range' start count).foldl (fun framebuffer y =>
    (List.range mode.width).foldl (fun framebuffer x =>
      setBytes framebuffer (x * (mode.bpp >>> 3) + y * mode.pitch) (rgb hexColor))
      framebuffer) framebuffer

theorem fillRows_paints {start count : Nat} (h : count = 0 ∨ start + count ≤ mode.height) :
    mode.grid.Paints (rgb hexColor) (fun _ y => start ≤ y ∧ y < start + count)
      (fillRows mode hexColor start count) := by
  refine (Grid.Paints.foldl fun y hy => Grid.Paints.foldl fun x hx => setBytes_paints ?_).congr ?_
  · rw [List.mem_range'_1] at hy
    exact ⟨List.mem_range.mp hx, show y < mode.height by omega⟩
  · intro x y hin
    simp only [List.mem_range, List.mem_range'_1]
    constructor
    · rintro ⟨y', hy', x', hx', rfl, rfl⟩
      exact hy'
    · exact fun hy => ⟨y, hy, x, hin.1, rfl, rfl⟩

theorem fillVideoMemory_eq (mode : VbeMode) (hexColor : BitVec 32) :
    fillVideoMemory mode hexColor = fillRows mode hexColor 0 mode.height := by
  funext framebuffer
  rw [fillVideoMemory, fillRows, ← List.range_eq_range']

theorem fillVideoMemory_paints :
    mode.grid.Paints (rgb hexColor) (fun _ _ => True) (fillVideoMemory mode hexColor) := by
  rw [fillVideoMemory_eq]
  refine (fillRows_paints (.inr (by omega))).congr fun x y hin => ?_
  have hy : y < mode.height := hin.2
  simp [hy]

/-! ## Scrolling -/

/-- The pixels that the first loop of `scrollVideoMemoryUp` overwrites, in its order. -/
def scrolledPixels (mode : VbeMode) (scroll : Nat) : List (Nat × Nat) :=
  (List.range (mode.height - scroll)).flatMap fun y => (List.range mode.width).map fun x => (x, y)

theorem mem_scrolledPixels {scroll : Nat} {p : Nat × Nat} :
    p ∈ scrolledPixels mode scroll ↔ p.1 < mode.width ∧ p.2 + scroll < mode.height := by
  simp only [scrolledPixels, List.mem_flatMap, List.mem_map, List.mem_range]
  constructor
  · rintro ⟨y, hy, x, hx, rfl⟩
    exact ⟨hx, show y + scroll < mode.height by omega⟩
  · exact fun h => ⟨p.2, by omega, p.1, h.1, rfl⟩

/-- Rows are overwritten from the top, so that each is read before. -/
theorem scrolledPixels_fresh (mode : VbeMode) (scroll : Nat) :
    (scrolledPixels mode scroll).Pairwise fun p q =>
      (q.1, q.2 + scroll) = p → (p.1, p.2 + scroll) = p := by
  have hrows : (scrolledPixels mode scroll).Pairwise fun p q => p.2 ≤ q.2 := by
    rw [scrolledPixels, List.pairwise_flatMap]
    constructor
    · intro y _
      rw [List.pairwise_map]
      exact List.pairwise_of_forall fun _ _ => le_rfl
    · refine List.pairwise_lt_range.imp fun hlt p hp q hq => ?_
      obtain ⟨_, _, rfl⟩ := List.mem_map.mp hp
      obtain ⟨_, _, rfl⟩ := List.mem_map.mp hq
      exact Nat.le_of_lt hlt
  refine hrows.imp fun {p q} hle heq => ?_
  have hrow : q.2 + scroll = p.2 := congrArg Prod.snd heq
  exact Prod.ext rfl (show p.2 + scroll = p.2 by omega)

/-- The first loop of `scrollVideoMemoryUp`. -/
def scrollRows (mode : VbeMode) (scroll : Nat) (framebuffer : Memory) : Memory :=
  (List.range (mode.height - scroll)).foldl (fun framebuffer y =>
    (List.range mode.width).foldl (fun framebuffer x =>
      moveBytes framebuffer (x * (mode.bpp >>> 3) + y * mode.pitch)
        (x * (mode.bpp >>> 3) + (y + scroll) * mode.pitch)) framebuffer) framebuffer

theorem scrollRows_eq (mode : VbeMode) (scroll : Nat) (framebuffer : Memory) :
    scrollRows mode scroll framebuffer = (scrolledPixels mode scroll).foldl (fun framebuffer p =>
      copyPixel framebuffer (mode.grid.offset p.1 p.2) (mode.grid.offset p.1 (p.2 + scroll)))
      framebuffer := by
  rw [scrolledPixels, List.foldl_flatMap, scrollRows]
  refine List.foldl_ext _ _ _ fun framebuffer y hy => ?_
  rw [List.foldl_map]
  refine List.foldl_ext _ _ _ fun framebuffer x hx => ?_
  rw [List.mem_range] at hx hy
  simp only [mode.offset_eq]
  apply moveBytes_eq
  · exact mode.offset_lt ⟨hx, show y < mode.height by omega⟩
  · exact mode.offset_lt ⟨hx, show y + scroll < mode.height by omega⟩

theorem scrollRows_pixel (scroll : Nat) (framebuffer : Memory) (h : mode.grid.Inside x y) :
    mode.grid.pixel (scrollRows mode scroll framebuffer) x y =
      if y + scroll < mode.height then mode.grid.pixel framebuffer x (y + scroll)
      else mode.grid.pixel framebuffer x y := by
  have hx : x < mode.width := h.1
  rw [scrollRows_eq, mode.grid.pixel_foldl_copy (fun p => (p.1, p.2 + scroll))
    (fun p hp => ⟨(mem_scrolledPixels.mp hp).1, (mem_scrolledPixels.mp hp).1⟩)
    (scrolledPixels_fresh mode scroll) framebuffer (x, y) h.1]
  simp only [mem_scrolledPixels, hx, true_and]

theorem scrollRows_frame (scroll : Nat) (framebuffer : Memory) {a : Nat} (ha : ¬ mode.grid.Owns a) :
    scrollRows mode scroll framebuffer a = framebuffer a := by
  rw [scrollRows_eq]
  refine mode.grid.frame_foldl_copy (fun p => (p.1, p.2 + scroll)) (fun p hp => ?_) framebuffer ha
  obtain ⟨hx, hy⟩ := mem_scrolledPixels.mp hp
  exact ⟨⟨hx, show p.2 < mode.height by omega⟩, hx⟩

/-- The second loop fills the rows left free. When it would start before the first row, its start wraps
    to a row below the window. -/
theorem scrollVideoMemoryUp_eq {scroll : Nat} (hscroll : scroll < 2 ^ 16) (framebuffer : Memory) :
    scrollVideoMemoryUp mode hexColor scroll framebuffer =
      fillRows mode hexColor (mode.height - scroll) (if scroll ≤ mode.height then scroll else 0)
        (scrollRows mode scroll framebuffer) := by
  have hheight := mode.height_lt
  have hunfold : scrollVideoMemoryUp mode hexColor scroll framebuffer =
      fillRows mode hexColor ((mode.height + 2 ^ 16 - scroll) % 2 ^ 16)
        (mode.height - (mode.height + 2 ^ 16 - scroll) % 2 ^ 16) (scrollRows mode scroll framebuffer) := rfl
  rw [hunfold]
  split
  · next hle =>
    have hstart : (mode.height + 2 ^ 16 - scroll) % 2 ^ 16 = mode.height - scroll := by omega
    have hcount : mode.height - (mode.height - scroll) = scroll := by omega
    rw [hstart, hcount]
  · next hgt =>
    have hcount : mode.height - (mode.height + 2 ^ 16 - scroll) % 2 ^ 16 = 0 := by omega
    rw [hcount]
    rfl

theorem scrollFill_paints (mode : VbeMode) (hexColor : BitVec 32) (scroll : Nat) :
    mode.grid.Paints (rgb hexColor) (fun _ y => scroll ≤ mode.height ∧ mode.height ≤ y + scroll)
      (fillRows mode hexColor (mode.height - scroll) (if scroll ≤ mode.height then scroll else 0)) := by
  refine (fillRows_paints ?_).congr fun x y hin => ?_
  · split <;> omega
  · have hy : y < mode.height := hin.2
    split <;> omega

/-- **Scrolling.** Rows move up, and those left free are filled; more than the whole window is not
    scrolled at all. -/
theorem scrollVideoMemoryUp_pixel {scroll : Nat} (hscroll : scroll < 2 ^ 16) (framebuffer : Memory)
    (h : mode.grid.Inside x y) :
    mode.grid.pixel (scrollVideoMemoryUp mode hexColor scroll framebuffer) x y =
      if y + scroll < mode.height then mode.grid.pixel framebuffer x (y + scroll)
      else if scroll ≤ mode.height then rgb hexColor else mode.grid.pixel framebuffer x y := by
  have hfill := scrollFill_paints mode hexColor scroll
  have hy : y < mode.height := h.2
  rw [scrollVideoMemoryUp_eq hscroll]
  by_cases hfilled : scroll ≤ mode.height ∧ mode.height ≤ y + scroll
  · rw [hfill.within _ x y h hfilled, if_neg (by omega), if_pos hfilled.1]
  · rw [hfill.without _ x y h hfilled, scrollRows_pixel scroll framebuffer h]
    split
    · rfl
    · rw [if_neg (by omega)]

theorem scrollVideoMemoryUp_frame {scroll : Nat} (hscroll : scroll < 2 ^ 16) (framebuffer : Memory)
    {a : Nat} (ha : ¬ mode.grid.Owns a) :
    scrollVideoMemoryUp mode hexColor scroll framebuffer a = framebuffer a := by
  rw [scrollVideoMemoryUp_eq hscroll, (scrollFill_paints mode hexColor scroll).frame _ a ha,
    scrollRows_frame scroll framebuffer ha]

/-! ## Histories of calls -/

/-- A call into the driver. -/
inductive VideoCall
  | putPixel (hexColor : BitVec 32) (x y : Nat)
  | drawRectangle (hexColor : BitVec 32) (width height initialPosX initialPosY : Nat)
  | drawCircle (hexColor : BitVec 32) (topLeftX topLeftY diameter : Nat)
  | fillVideoMemory (hexColor : BitVec 32)
  | scrollVideoMemoryUp (scroll : Nat) (fillColor : BitVec 32)

/-- What a call does to the frame buffer. -/
def VideoCall.exec (mode : VbeMode) : VideoCall → Memory → Memory
  | .putPixel hexColor x y => Terminal.putPixel mode hexColor x y
  | .drawRectangle hexColor width height x y => Terminal.drawRectangle mode hexColor width height x y
  | .drawCircle hexColor x y diameter => Terminal.drawCircle mode hexColor x y diameter
  | .fillVideoMemory hexColor => Terminal.fillVideoMemory mode hexColor
  | .scrollVideoMemoryUp scroll fillColor => Terminal.scrollVideoMemoryUp mode fillColor scroll

/-- The frame buffer after a history of calls. -/
def execCalls (mode : VbeMode) (calls : List VideoCall) (framebuffer : Memory) : Memory :=
  calls.foldl (fun framebuffer c => c.exec mode framebuffer) framebuffer

/-- The call draws within the window, and scrolls by less than its height. -/
def VideoCall.Inside (w : Window) : VideoCall → Prop
  | .putPixel _ x y => x < w.width ∧ y < w.height
  | .drawRectangle _ width height x y => x + width ≤ w.width ∧ y + height ≤ w.height
  | .drawCircle _ x y diameter =>
    x + 2 * (diameter / 2) ≤ w.width ∧ y + 2 * (diameter / 2) ≤ w.height
  | .fillVideoMemory _ => True
  | .scrollVideoMemoryUp scroll _ => scroll ≤ w.height

/-- A roll of paper with no end, of which the window shows the part from row `top` on. -/
structure Roll where
  paper : Nat → Nat → Rgb
  top : Nat

/-- Colour the points of a region that is given from the top of the window. -/
def Roll.paint (r : Roll) (c : Rgb) (R : Nat → Nat → Prop) [∀ x y, Decidable (R x y)] : Roll :=
  { r with paper := fun x y => if r.top ≤ y ∧ R x (y - r.top) then c else r.paper x y }

/-- The call on the roll: scrolling draws nothing but the paper that comes into the window. -/
def VideoCall.draw (w : Window) : VideoCall → Roll → Roll
  | .putPixel hexColor x y, r => r.paint (rgb hexColor) fun x' y' => x' = x ∧ y' = y
  | .drawRectangle hexColor width height left top, r =>
    r.paint (rgb hexColor) fun x y => (left ≤ x ∧ x < left + width) ∧ top ≤ y ∧ y < top + height
  | .drawCircle hexColor left top diameter, r =>
    r.paint (rgb hexColor) (InCircle left top (diameter / 2))
  | .fillVideoMemory hexColor, r => r.paint (rgb hexColor) fun _ _ => True
  | .scrollVideoMemoryUp scroll fillColor, r =>
    { r.paint (rgb fillColor) (fun _ y => w.height ≤ y) with top := r.top + scroll }

def drawCalls (w : Window) (calls : List VideoCall) (r : Roll) : Roll :=
  calls.foldl (fun r c => c.draw w r) r

/-- The window shows the roll from its top on, and the bytes that belong to no pixel are as they were. -/
structure Roll.ShownBy (mode : VbeMode) (before : Memory) (r : Roll) (framebuffer : Memory) : Prop where
  pixel : ∀ x y, mode.grid.Inside x y → mode.grid.pixel framebuffer x y = r.paper x (r.top + y)
  frame : ∀ a, ¬ mode.grid.Owns a → framebuffer a = before a

variable {before : Memory} {r : Roll}

theorem Roll.ShownBy.paint (h : r.ShownBy mode before framebuffer) {c : Rgb} {R : Nat → Nat → Prop}
    [∀ x y, Decidable (R x y)] {f : Memory → Memory} (hf : mode.grid.Paints c R f) :
    (r.paint c R).ShownBy mode before (f framebuffer) where
  pixel x y hin := by
    have hrow : r.top + y - r.top = y := by omega
    simp only [Roll.paint, Nat.le_add_right, true_and, hrow]
    split
    · next hR => exact hf.within _ x y hin hR
    · next hR => rw [hf.without _ x y hin hR, h.pixel x y hin]
  frame a ha := by rw [hf.frame _ a ha, h.frame a ha]

/-- **Step.** A call within the window does to the pixels what it does to the roll. -/
theorem Roll.ShownBy.exec (h : r.ShownBy mode before framebuffer) {c : VideoCall}
    (hin : c.Inside mode.toWindow) :
    (c.draw mode.toWindow r).ShownBy mode before (c.exec mode framebuffer) := by
  have hheight := mode.height_lt
  cases c with
  | putPixel hexColor x y => exact h.paint (putPixel_paints hin)
  | drawRectangle hexColor width height left top => exact h.paint (drawRectangle_paints hin.1 hin.2)
  | drawCircle hexColor left top diameter => exact h.paint (drawCircle_paints hin.1 hin.2)
  | fillVideoMemory hexColor => exact h.paint fillVideoMemory_paints
  | scrollVideoMemoryUp scroll fillColor =>
    have hle : scroll ≤ mode.height := hin
    have hscroll : scroll < 2 ^ 16 := by omega
    constructor
    · intro x y hxy
      have hy : y < mode.height := hxy.2
      have hrow : r.top + scroll + y - r.top = y + scroll := by omega
      simp only [VideoCall.exec, VideoCall.draw, Roll.paint, hrow]
      rw [scrollVideoMemoryUp_pixel hscroll framebuffer hxy]
      by_cases hmoves : y + scroll < mode.height
      · rw [if_pos hmoves, if_neg (by omega), h.pixel x (y + scroll) ⟨hxy.1, hmoves⟩]
        congr 1
        omega
      · rw [if_neg hmoves, if_pos hle, if_pos ⟨by omega, by omega⟩]
    · intro a ha
      rw [← h.frame a ha]
      exact scrollVideoMemoryUp_frame hscroll framebuffer ha

theorem Roll.ShownBy.execCalls (h : r.ShownBy mode before framebuffer) {calls : List VideoCall}
    (hin : ∀ c ∈ calls, c.Inside mode.toWindow) :
    (drawCalls mode.toWindow calls r).ShownBy mode before (execCalls mode calls framebuffer) := by
  induction calls generalizing r framebuffer with
  | nil => exact h
  | cons c calls ih =>
    exact ih (h.exec (hin c List.mem_cons_self)) fun c' hc' => hin c' (List.mem_cons_of_mem c hc')

/-- The roll that a frame buffer shows at first. -/
def Roll.of (mode : VbeMode) (framebuffer : Memory) : Roll := ⟨mode.grid.pixel framebuffer, 0⟩

theorem Roll.shownBy_of (mode : VbeMode) (framebuffer : Memory) :
    (Roll.of mode framebuffer).ShownBy mode framebuffer framebuffer where
  pixel x y _ := by rw [Roll.of, Nat.zero_add]
  frame _ _ := rfl

/-- **The frame buffer shows the roll**: in every history of calls that stay within the window, each pixel is
    what the calls draw at its place on the roll, and no byte that belongs to no pixel is changed. -/
theorem video_calls_draw {calls : List VideoCall} (h : ∀ c ∈ calls, c.Inside mode.toWindow)
    (framebuffer : Memory) :
    (∀ x y, x < mode.width → y < mode.height →
      mode.grid.pixel (execCalls mode calls framebuffer) x y =
        (drawCalls mode.toWindow calls (.of mode framebuffer)).paper x
          ((drawCalls mode.toWindow calls (.of mode framebuffer)).top + y)) ∧
    ∀ a, ¬ mode.grid.Owns a → execCalls mode calls framebuffer a = framebuffer a := by
  have hshown := (Roll.shownBy_of mode framebuffer).execCalls h
  exact ⟨fun x y hx hy => hshown.pixel x y ⟨hx, hy⟩, hshown.frame⟩

/-- The mode that the boot loader sets. -/
def bootMode : VbeMode where
  width := 1024
  height := 768
  pitch := 3072
  bpp := 24
  width_lt := by decide
  height_lt := by decide
  pitch_lt := by decide
  bpp_lt := by decide
  bpp_ge := by decide
  row_le := by decide
  size_lt := by decide

/-- A circle is drawn and scrolled up by eight rows: its centre is found there. -/
theorem video_calls_draw_circle :
    bootMode.grid.pixel (execCalls bootMode [.fillVideoMemory 0, .drawCircle 0xDE382B 100 200 40,
      .scrollVideoMemoryUp 8 0] fun _ => 7) 120 212 = ⟨0x2B, 0x38, 0xDE⟩ := by
  have hinside : ∀ c ∈ [VideoCall.fillVideoMemory 0, .drawCircle 0xDE382B 100 200 40,
      .scrollVideoMemoryUp 8 0], c.Inside bootMode.toWindow := by
    simp [VideoCall.Inside, bootMode]
  rw [(video_calls_draw hinside _).1 120 212 (by decide) (by decide)]
  simp [drawCalls, VideoCall.draw, Roll.paint, Roll.of, InCircle, InDisc, bootMode, rgb]
  decide

end TpSo.Terminal
