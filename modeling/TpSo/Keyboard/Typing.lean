import TpSo.Kernel.Keyboard

set_option autoImplicit false

/-! # Typing text

The scancodes of a text on the layout of `scancodeMap`, and what `keyboardHandler` sends to `STDIN` when they come
in. -/

namespace TpSo

deriving instance DecidableEq for Key

/-- `keyboardHandler` for scancodes that come in one after the other: the modifiers afterwards, and what it has
    made of the keys. -/
def Keyboard.run (kb : Keyboard) : List UInt8 → Keyboard × List Key
  | [] => (kb, [])
  | scancode :: rest =>
    let handled := keyboardHandler kb scancode
    let later := handled.1.run rest
    (later.1, handled.2.toList ++ later.2)

theorem Keyboard.run_append (kb : Keyboard) (first second : List UInt8) :
    kb.run (first ++ second) =
      (((kb.run first).1.run second).1, (kb.run first).2 ++ ((kb.run first).1.run second).2) := by
  induction first generalizing kb with
  | nil => simp [Keyboard.run]
  | cons scancode rest ih => simp only [List.cons_append, Keyboard.run, ih, List.append_assoc]

/-! ## A character on the layout -/

/-- A key, and whether a shift key is held with it. -/
structure Stroke where
  scancode : UInt8
  shifted : Bool

/-- The scancodes of pressing and releasing it. -/
def Stroke.scancodes (s : Stroke) : List UInt8 :=
  if s.shifted then [SHIFT_KEY_L, s.scancode, s.scancode ||| 0x80, SHIFT_KEY_L ||| 0x80]
  else [s.scancode, s.scancode ||| 0x80]

/-- The keys of `scancodeMap`, without and with shift. -/
def keyLayout : List Stroke :=
  (List.range 0x59).flatMap fun n => [⟨n.toUInt8, false⟩, ⟨n.toUInt8, true⟩]

/-- The character that stands on the key. -/
def Stroke.character (s : Stroke) : UInt8 :=
  if s.scancode = BACKSPACE_KEY then 8
  else ({ shiftKeyPressed := s.shifted } : Keyboard).typed s.scancode

/-- A key with this character. -/
def strokeOf (c : UInt8) : Option Stroke :=
  keyLayout.find? fun s => (s.scancode == BACKSPACE_KEY || isPrintable { shiftKeyPressed := s.shifted } s.scancode) &&
    s.character == c

/-- The scancodes of a text. -/
def typing (text : List UInt8) : List UInt8 :=
  text.flatMap fun c => ((strokeOf c).map Stroke.scancodes).getD []

/-- The characters of the layout: the printable ones, and backspace, tabulator and return. -/
def OnLayout (c : UInt8) : Prop := 32 ≤ c ∧ c ≤ 126 ∨ c = 8 ∨ c = 9 ∨ c = 10

instance (c : UInt8) : Decidable (OnLayout c) := inferInstanceAs (Decidable (_ ∨ _))

/-- What a finite check of all bytes shows. -/
theorem forall_byte {P : UInt8 → Prop} (h : ∀ n < 256, P n.toUInt8) (c : UInt8) : P c := by
  have hc := h c.toNat c.toNat_lt
  rwa [show c.toNat.toUInt8 = c from UInt8.ofNat_toNat] at hc

/-! ## What the keyboard can type -/

/-- No modifier is held, and caps lock may be on. -/
def Keyboard.resting (caps : Bool) : Keyboard := { capsLockKeyPressed := caps }

/-- A character as it comes in with caps lock. -/
def withCaps (caps : Bool) (c : UInt8) : UInt8 := if caps then toUpper c else c

def strokeTypes (caps : Bool) (c : UInt8) : Bool :=
  match strokeOf c with
  | none => false
  | some s =>
    let handled := (Keyboard.resting caps).run s.scancodes
    !handled.1.shiftKeyPressed && handled.1.capsLockKeyPressed == caps && !handled.1.controlKeyPressed &&
      handled.2 == [.char (withCaps caps c)]

set_option maxRecDepth 10000 in
theorem strokeTypes_all (caps : Bool) : ∀ n < 256, OnLayout n.toUInt8 → strokeTypes caps n.toUInt8 = true := by
  cases caps <;> decide +kernel

/-- Each character is typed by its stroke, which leaves the modifiers as they were. -/
theorem run_stroke (caps : Bool) {c : UInt8} (h : OnLayout c) :
    (Keyboard.resting caps).run (((strokeOf c).map Stroke.scancodes).getD []) =
      (Keyboard.resting caps, [.char (withCaps caps c)]) := by
  have htypes := forall_byte (P := fun c => OnLayout c → strokeTypes caps c = true) (strokeTypes_all caps) c h
  unfold strokeTypes at htypes
  cases hs : strokeOf c with
  | none =>
    rw [hs] at htypes
    cases htypes
  | some s =>
    rw [hs] at htypes
    simp only [Bool.and_eq_true, Bool.not_eq_true', beq_iff_eq] at htypes
    obtain ⟨⟨⟨hshift, hcaps⟩, hcontrol⟩, hkeys⟩ := htypes
    refine Prod.ext ?_ hkeys
    show ((Keyboard.resting caps).run s.scancodes).1 = _
    generalize ((Keyboard.resting caps).run s.scancodes).1 = kb at hshift hcaps hcontrol
    obtain ⟨shift, caps', control⟩ := kb
    obtain rfl : shift = false := hshift
    obtain rfl : caps' = caps := hcaps
    obtain rfl : control = false := hcontrol
    rfl

/-- A text is typed by its strokes. -/
theorem run_typing (caps : Bool) {text : List UInt8} (h : ∀ c ∈ text, OnLayout c) :
    (Keyboard.resting caps).run (typing text) = (Keyboard.resting caps, text.map fun c => .char (withCaps caps c)) := by
  induction text with
  | nil => rfl
  | cons c text ih =>
    have hfirst := run_stroke caps (h c List.mem_cons_self)
    have hrest := ih fun c' hc' => h c' (List.mem_cons_of_mem c hc')
    rw [typing, List.flatMap_cons, Keyboard.run_append, hfirst]
    rw [typing] at hrest
    rw [hrest]
    rfl

/-! ## And nothing else -/

/-- What a key sends is a character of the layout or that of Ctrl+D, and no small letter under caps lock. -/
def sendsOnly (kb : Keyboard) (scancode : UInt8) : Bool :=
  match (keyboardHandler kb scancode).2 with
  | some (.char c) =>
    decide (OnLayout c ∨ c = 4) && (!kb.capsLockKeyPressed || makeCode scancode == CAPS_LOCK_KEY || !isAlpha c)
  | _ => true

set_option maxRecDepth 10000 in
theorem sendsOnly_all (kb : Keyboard) : ∀ n < 256, sendsOnly kb n.toUInt8 = true := by
  obtain ⟨shift, caps, control⟩ := kb
  cases shift <;> cases caps <;> cases control <;> decide +kernel

/-- Only its own key changes caps lock. -/
theorem keyboardHandler_caps (kb : Keyboard) {scancode : UInt8} (h : makeCode scancode ≠ CAPS_LOCK_KEY) :
    (keyboardHandler kb scancode).1.capsLockKeyPressed = kb.capsLockKeyPressed := by
  have hmodify : (kb.modify scancode).capsLockKeyPressed = kb.capsLockKeyPressed := by
    simp only [Keyboard.modify, if_neg h]
    split_ifs <;> rfl
  simp only [keyboardHandler]
  split_ifs <;> exact hmodify

/-- **The keyboard.** With no modifier held each text of the layout comes in as it is typed, in capitals under caps
    lock; and whatever scancodes come in, nothing else is sent but the character of Ctrl+D, and no small letter
    while caps lock stays on. -/
theorem keyboard_types :
    (∀ caps text, (∀ c ∈ text, OnLayout c) →
      (Keyboard.resting caps).run (typing text) = (Keyboard.resting caps, text.map fun c => .char (withCaps caps c))) ∧
    ∀ (kb : Keyboard) scancodes c, .char c ∈ (kb.run scancodes).2 → (OnLayout c ∨ c = 4) ∧
      (kb.capsLockKeyPressed = true → (∀ s ∈ scancodes, makeCode s ≠ CAPS_LOCK_KEY) → isAlpha c = false) := by
  refine ⟨fun caps text h => run_typing caps h, ?_⟩
  intro kb scancodes c hc
  induction scancodes generalizing kb with
  | nil => exact absurd hc List.not_mem_nil
  | cons scancode rest ih =>
    rcases List.mem_append.mp hc with hfirst | hlater
    · have honly := forall_byte (P := fun n => sendsOnly kb n = true) (sendsOnly_all kb) scancode
      rw [Option.mem_toList] at hfirst
      rw [sendsOnly, hfirst] at honly
      simp only [Bool.and_eq_true, decide_eq_true_eq, Bool.or_eq_true, Bool.not_eq_true', beq_iff_eq] at honly
      refine ⟨honly.1, fun hcaps hnever => ?_⟩
      rcases honly.2 with (hoff | hkey) | hcapital
      · exact absurd hcaps (by rw [hoff]; decide)
      · exact absurd hkey (hnever scancode List.mem_cons_self)
      · exact hcapital
    · obtain ⟨hlayout, hcapital⟩ := ih (keyboardHandler kb scancode).1 hlater
      refine ⟨hlayout, fun hcaps hnever => hcapital ?_ fun s hs => hnever s (List.mem_cons_of_mem _ hs)⟩
      rw [keyboardHandler_caps kb (hnever scancode List.mem_cons_self)]
      exact hcaps

/-- `"hi!"` and return under caps lock; and even with shift held no small letter comes in. -/
theorem keyboard_types_caps :
    (Keyboard.resting true).run (typing [104, 105, 33, 10]) =
      (Keyboard.resting true, [.char 72, .char 73, .char 33, .char 10]) ∧
    ∀ c, .char c ∈ ((Keyboard.resting true).run [42, 30, 158, 170]).2 → isAlpha c = false :=
  ⟨(keyboard_types.1 true [104, 105, 33, 10] (by simp [OnLayout])).trans rfl,
    fun c hc => (keyboard_types.2 (Keyboard.resting true) [42, 30, 158, 170] c hc).2 rfl
      (by simp only [List.forall_mem_cons, List.not_mem_nil, false_implies, implies_true]; decide)⟩

end TpSo
