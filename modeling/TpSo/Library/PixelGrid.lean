import TpSo.Library.Bytes

set_option autoImplicit false

/-! # Grids of pixels in a byte memory

A grid lays `width * height` pixels out in memory, row by row; the first three bytes of a pixel are its
colour. A function on memories *paints* a region when it gives the pixels of the region one colour and
leaves every other byte alone. Loops of paints paint the union of their regions, and a loop of copies
moves the picture when no pixel is read after it was overwritten. -/

namespace PixelGrid

open Bytes (Memory)

structure Rgb where
  blue : UInt8
  green : UInt8
  red : UInt8
  deriving DecidableEq

/-- Where the pixels lie: a pixel takes `bytes` bytes, and the rows are `pitch` bytes apart. -/
structure Grid where
  width : Nat
  height : Nat
  bytes : Nat
  pitch : Nat
  bytes_ge : 3 ≤ bytes
  row_le : width * bytes ≤ pitch

/-- The place of a pixel from the start of the grid. -/
def Grid.offset (g : Grid) (x y : Nat) : Nat := x * g.bytes + y * g.pitch

def Grid.Inside (g : Grid) (x y : Nat) : Prop := x < g.width ∧ y < g.height

/-- The colour of the pixel at an offset. -/
def load (mem : Memory) (o : Nat) : Rgb := ⟨mem o, mem (o + 1), mem (o + 2)⟩

/-- Colour the pixel at an offset. -/
def store (mem : Memory) (o : Nat) (c : Rgb) : Memory :=
  Bytes.write mem o [c.blue, c.green, c.red]

/-- What the pixel at `x`, `y` looks like. -/
def Grid.pixel (g : Grid) (mem : Memory) (x y : Nat) : Rgb := load mem (g.offset x y)

/-- The byte `a` belongs to the colour of a pixel. -/
def Grid.Owns (g : Grid) (a : Nat) : Prop :=
  ∃ x y, g.Inside x y ∧ g.offset x y ≤ a ∧ a < g.offset x y + 3

variable {g : Grid} {mem : Memory} {x y x' y' : Nat}

/-! ## Pixels -/

theorem load_store_self (mem : Memory) (o : Nat) (c : Rgb) : load (store mem o c) o = c := by
  have hholds := Bytes.holds_write mem o [c.blue, c.green, c.red]
  simp only [Bytes.Holds] at hholds
  obtain ⟨hblue, hgreen, hred, -⟩ := hholds
  simp only [load, store, hblue, hgreen, hred]

theorem store_outside (mem : Memory) {o a : Nat} (c : Rgb) (h : a < o ∨ o + 3 ≤ a) :
    store mem o c a = mem a :=
  Bytes.write_outside mem _ h

theorem load_store_of_apart (mem : Memory) {o o' : Nat} (c : Rgb) (h : o + 3 ≤ o' ∨ o' + 3 ≤ o) :
    load (store mem o c) o' = load mem o' := by
  simp only [load]
  rw [store_outside _ _ (by omega), store_outside _ _ (by omega), store_outside _ _ (by omega)]

/-- A row ends before the next one begins. -/
theorem Grid.offset_add_le (g : Grid) (hx : x < g.width) : g.offset x y + 3 ≤ (y + 1) * g.pitch := by
  have hbytes := g.bytes_ge
  have hcolumn : (x + 1) * g.bytes ≤ g.width * g.bytes := Nat.mul_le_mul_right _ hx
  have hrow := g.row_le
  simp only [Grid.offset, Nat.add_mul, one_mul] at hcolumn ⊢
  omega

theorem Grid.offset_row_le (g : Grid) (h : y < y') (hx : x < g.width) :
    g.offset x y + 3 ≤ g.offset x' y' := by
  have hend := g.offset_add_le (y := y) hx
  have hrows : (y + 1) * g.pitch ≤ y' * g.pitch := Nat.mul_le_mul_right _ h
  simp only [Grid.offset] at hend ⊢
  omega

theorem Grid.offset_column_le (g : Grid) (h : x < x') : g.offset x y + 3 ≤ g.offset x' y := by
  have hbytes := g.bytes_ge
  have hcolumns : (x + 1) * g.bytes ≤ x' * g.bytes := Nat.mul_le_mul_right _ h
  simp only [Grid.offset, Nat.add_mul, one_mul] at hcolumns ⊢
  omega

/-- Two pixels of the grid share no byte. -/
theorem Grid.offset_apart (g : Grid) (hx : x < g.width) (hx' : x' < g.width)
    (h : ¬ (x' = x ∧ y' = y)) :
    g.offset x y + 3 ≤ g.offset x' y' ∨ g.offset x' y' + 3 ≤ g.offset x y := by
  rcases Nat.lt_trichotomy y y' with hlt | rfl | hgt
  · exact .inl (g.offset_row_le hlt hx)
  · rcases Nat.lt_trichotomy x x' with hlt | rfl | hgt
    · exact .inl (g.offset_column_le hlt)
    · exact absurd ⟨rfl, rfl⟩ h
    · exact .inr (g.offset_column_le hgt)
  · exact .inr (g.offset_row_le hgt hx')

theorem Grid.pixel_store_of_ne (g : Grid) (mem : Memory) (c : Rgb) (hx : x < g.width)
    (hx' : x' < g.width) (h : ¬ (x' = x ∧ y' = y)) :
    g.pixel (store mem (g.offset x y) c) x' y' = g.pixel mem x' y' :=
  load_store_of_apart mem c (g.offset_apart hx hx' h)

theorem Grid.store_frame (g : Grid) (mem : Memory) (c : Rgb) (h : g.Inside x y) {a : Nat}
    (ha : ¬ g.Owns a) : store mem (g.offset x y) c a = mem a := by
  apply store_outside
  by_contra hin
  exact ha ⟨x, y, h, by omega, by omega⟩

/-! ## Painting -/

/-- `f` gives the pixels of the region `R` the colour `c` and changes nothing else. -/
structure Grid.Paints (g : Grid) (c : Rgb) (R : Nat → Nat → Prop) (f : Memory → Memory) : Prop where
  within : ∀ mem x y, g.Inside x y → R x y → g.pixel (f mem) x y = c
  without : ∀ mem x y, g.Inside x y → ¬ R x y → g.pixel (f mem) x y = g.pixel mem x y
  frame : ∀ mem a, ¬ g.Owns a → f mem a = mem a

namespace Grid.Paints

variable {c : Rgb} {R R' : Nat → Nat → Prop} {f : Memory → Memory}

theorem store (h : g.Inside x y) (c : Rgb) :
    g.Paints c (fun x' y' => x' = x ∧ y' = y) (fun mem => store mem (g.offset x y) c) where
  within := by
    rintro mem x' y' - ⟨rfl, rfl⟩
    exact load_store_self _ _ _
  without mem _ _ hin hne := g.pixel_store_of_ne mem c h.1 hin.1 hne
  frame mem _ ha := g.store_frame mem c h ha

theorem nothing (c : Rgb) : g.Paints c (fun _ _ => False) id where
  within _ _ _ _ := False.elim
  without _ _ _ _ _ := rfl
  frame _ _ _ := rfl

theorem congr (h : g.Paints c R f) (hiff : ∀ x y, g.Inside x y → (R x y ↔ R' x y)) :
    g.Paints c R' f where
  within mem x y hin hR' := h.within mem x y hin ((hiff x y hin).mpr hR')
  without mem x y hin hR' := h.without mem x y hin (fun hR => hR' ((hiff x y hin).mp hR))
  frame := h.frame

theorem comp {f' : Memory → Memory} (h : g.Paints c R f) (h' : g.Paints c R' f') :
    g.Paints c (fun x y => R x y ∨ R' x y) (fun mem => f' (f mem)) where
  within mem x y hin hor := by
    by_cases hR' : R' x y
    · exact h'.within _ x y hin hR'
    · rw [h'.without _ x y hin hR']
      exact h.within mem x y hin (hor.resolve_right hR')
  without mem x y hin hnor := by
    rw [not_or] at hnor
    rw [h'.without _ x y hin hnor.2, h.without mem x y hin hnor.1]
  frame mem a ha := by rw [h'.frame _ a ha, h.frame mem a ha]

/-- **Loops.** A loop paints what its rounds paint. -/
theorem foldl {α : Type} {l : List α} {f : Memory → α → Memory} {R : α → Nat → Nat → Prop}
    (h : ∀ a ∈ l, g.Paints c (R a) (fun mem => f mem a)) :
    g.Paints c (fun x y => ∃ a ∈ l, R a x y) (fun mem => l.foldl f mem) := by
  induction l with
  | nil => exact (nothing c).congr (by simp)
  | cons a l ih =>
    have hhead := h a List.mem_cons_self
    have htail := ih fun b hb => h b (List.mem_cons_of_mem a hb)
    exact (hhead.comp htail).congr (by simp)

end Grid.Paints

/-! ## Copying -/

/-- Copy the pixel at `src` to `dst`, a byte at a time. -/
def copyPixel (mem : Memory) (dst src : Nat) : Memory :=
  let mem := Function.update mem dst (mem src)
  let mem := Function.update mem (dst + 1) (mem (src + 1))
  Function.update mem (dst + 2) (mem (src + 2))

/-- Of two pixels that are apart, or one and the same, the bytes are copied at once. -/
theorem copyPixel_eq (mem : Memory) {dst src : Nat} (h : dst = src ∨ dst + 3 ≤ src ∨ src + 3 ≤ dst) :
    copyPixel mem dst src = store mem dst (load mem src) := by
  have hsecond : Function.update mem dst (mem src) (src + 1) = mem (src + 1) :=
    Function.update_of_ne (by omega) _ _
  have hthird (b : UInt8) : Function.update (Function.update mem dst (mem src)) (dst + 1) b (src + 2) =
      mem (src + 2) := by
    rw [Function.update_of_ne (by omega), Function.update_of_ne (by omega)]
  simp only [copyPixel, hsecond, hthird]
  rfl

theorem Grid.copyPixel_offset (g : Grid) (mem : Memory) (hx : x < g.width) (hx' : x' < g.width) :
    copyPixel mem (g.offset x y) (g.offset x' y') =
      PixelGrid.store mem (g.offset x y) (g.pixel mem x' y') := by
  apply copyPixel_eq
  by_cases hsame : x' = x ∧ y' = y
  · obtain ⟨rfl, rfl⟩ := hsame
    exact .inl rfl
  · exact .inr (g.offset_apart hx hx' hsame)

/-- **Loops of copies.** When no pixel is read after it was overwritten, every pixel of the list shows
    what was at its source before the loop. -/
theorem Grid.pixel_foldl_copy (g : Grid) {ps : List (Nat × Nat)} (src : Nat × Nat → Nat × Nat)
    (hin : ∀ p ∈ ps, p.1 < g.width ∧ (src p).1 < g.width)
    (hfresh : ps.Pairwise fun p q => src q = p → src p = p) (mem : Memory) (q : Nat × Nat)
    (hq : q.1 < g.width) :
    g.pixel (ps.foldl (fun mem p => copyPixel mem (g.offset p.1 p.2) (g.offset (src p).1 (src p).2)) mem)
        q.1 q.2 = if q ∈ ps then g.pixel mem (src q).1 (src q).2 else g.pixel mem q.1 q.2 := by
  induction ps generalizing mem with
  | nil => simp
  | cons p ps ih =>
    rw [List.pairwise_cons] at hfresh
    obtain ⟨hpx, hsx⟩ := hin p List.mem_cons_self
    have hrest : ∀ q ∈ ps, q.1 < g.width ∧ (src q).1 < g.width :=
      fun q hq => hin q (List.mem_cons_of_mem p hq)
    -- what the first copy leaves of a pixel
    have hfirst (r : Nat × Nat) (hr : r.1 < g.width) :
        g.pixel (PixelGrid.store mem (g.offset p.1 p.2) (g.pixel mem (src p).1 (src p).2)) r.1 r.2 =
          if r = p then g.pixel mem (src p).1 (src p).2 else g.pixel mem r.1 r.2 := by
      split
      · next heq =>
        subst heq
        exact load_store_self _ _ _
      · next hne =>
        exact g.pixel_store_of_ne mem _ hpx hr (fun heq => hne (Prod.ext heq.1 heq.2))
    rw [List.foldl_cons, ih hrest hfresh.2, g.copyPixel_offset mem hpx hsx]
    by_cases hmem : q ∈ ps
    · rw [if_pos hmem, if_pos (List.mem_cons_of_mem p hmem), hfirst _ (hrest q hmem).2]
      split
      · next heq => rw [hfresh.1 q hmem heq, heq]
      · rfl
    · rw [if_neg hmem, hfirst q hq]
      simp only [List.mem_cons, hmem, or_false]
      split
      · next heq => rw [heq]
      · rfl

theorem Grid.frame_foldl_copy (g : Grid) {ps : List (Nat × Nat)} (src : Nat × Nat → Nat × Nat)
    (hin : ∀ p ∈ ps, g.Inside p.1 p.2 ∧ (src p).1 < g.width) (mem : Memory) {a : Nat}
    (ha : ¬ g.Owns a) :
    ps.foldl (fun mem p => copyPixel mem (g.offset p.1 p.2) (g.offset (src p).1 (src p).2)) mem a =
      mem a := by
  induction ps generalizing mem with
  | nil => rfl
  | cons p ps ih =>
    obtain ⟨hp, hsrc⟩ := hin p List.mem_cons_self
    rw [List.foldl_cons, ih (fun q hq => hin q (List.mem_cons_of_mem p hq)),
      g.copyPixel_offset mem hp.1 hsrc, g.store_frame mem _ hp ha]

end PixelGrid
