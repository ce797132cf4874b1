import TpSo.Kernel.Machine

set_option autoImplicit false

/-! # The keyboard driver (`keyboard.c`)

`keyboardHandler` turns a scancode into something typed on `STDIN`, into Ctrl+C, or into nothing but
a changed modifier. The function a process may have registered for a key is user code and not part
of the model. -/

namespace TpSo

/-- `SHIFT_KEY_PRESSED`, `CAPS_LOCK_KEY_PRESSED` and `CONTROL_KEY_PRESSED`. -/
structure Keyboard where
  shiftKeyPressed : Bool := false
  capsLockKeyPressed : Bool := false
  controlKeyPressed : Bool := false

def ESCAPE_KEY : UInt8 := 0x01
def BACKSPACE_KEY : UInt8 := 0x0E
def TABULATOR_KEY : UInt8 := 0x0F
def RETURN_KEY : UInt8 := 0x1C
def CONTROL_KEY_L : UInt8 := 0x1D
def D_KEY : UInt8 := 0x20
def SHIFT_KEY_L : UInt8 := 0x2A
def C_KEY : UInt8 := 0x2E
def SHIFT_KEY_R : UInt8 := 0x36
def CAPS_LOCK_KEY : UInt8 := 0x3A
def F12_KEY : UInt8 := 0x58
def NEW_LINE_CHAR : UInt8 := 10
def TABULATOR_CHAR : UInt8 := 9

/-- A character of the map. -/
def ch (c : Char) : UInt8 := c.toNat.toUInt8

/-- `scancodeMap`, without and with shift. -/
def scancodeMap : List (UInt8 × UInt8) :=
  [(0, 0), (0x01, 0x01), (ch '1', ch '!'), (ch '2', ch '@'), (ch '3', ch '#'), (ch '4', ch '$'),
    (ch '5', ch '%'), (ch '6', ch '^'), (ch '7', ch '&'), (ch '8', ch '*'), (ch '9', ch '('),
    (ch '0', ch ')'), (ch '-', ch '_'), (ch '=', ch '+'), (0x0E, 0x0E), (0x0F, 0x0F),
    (ch 'q', ch 'Q'), (ch 'w', ch 'W'), (ch 'e', ch 'E'), (ch 'r', ch 'R'), (ch 't', ch 'T'),
    (ch 'y', ch 'Y'), (ch 'u', ch 'U'), (ch 'i', ch 'I'), (ch 'o', ch 'O'), (ch 'p', ch 'P'),
    (ch '[', 123), (ch ']', 125), (0x1C, 0x1C), (0x1D, 0x1D),
    (ch 'a', ch 'A'), (ch 's', ch 'S'), (ch 'd', ch 'D'), (ch 'f', ch 'F'), (ch 'g', ch 'G'),
    (ch 'h', ch 'H'), (ch 'j', ch 'J'), (ch 'k', ch 'K'), (ch 'l', ch 'L'), (ch ';', ch ':'),
    (39, 34), (96, ch '~'), (0x2A, 0x2A), (92, ch '|'),
    (ch 'z', ch 'Z'), (ch 'x', ch 'X'), (ch 'c', ch 'C'), (ch 'v', ch 'V'), (ch 'b', ch 'B'),
    (ch 'n', ch 'N'), (ch 'm', ch 'M'), (ch ',', ch '<'), (ch '.', ch '>'), (ch '/', 63),
    (0x36, 0x36), (ch '*', ch '*'), (0x38, 0xB8), (ch ' ', ch ' '), (0x3A, 0x3A),
    (0x3B, 0x3B), (0x3C, 0x3C), (0x3D, 0x3D), (0x3E, 0x3E), (0x3F, 0x3F), (0x40, 0x40),
    (0x41, 0x41), (0x42, 0x42), (0x43, 0x43), (0x44, 0x44), (0x45, 0x45), (0x46, 0x46),
    (0x47, ch '7'), (0x48, ch '8'), (0x49, ch '9'), (ch '-', ch '-'), (0x4B, ch '4'),
    (0x4C, ch '5'), (0x4D, ch '6'), (ch '+', ch '+'), (0x4F, ch '1'), (0x50, ch '2'),
    (0x51, ch '3'), (0x52, ch '0'), (0x53, ch '.'), (0, 0), (0, 0), (ch '-', ch '-'),
    (0x57, 0x57), (0x58, 0x58)]

/-- `IS_ALPHA`. -/
def isAlpha (c : UInt8) : Bool := decide (97 ≤ c ∧ c ≤ 122)

/-- `TO_UPPER`. -/
def toUpper (c : UInt8) : UInt8 := if isAlpha c then c - 97 + 65 else c

/-- `IS_KEYCODE`. -/
def isKeycode (c : UInt8) : Bool := decide (ESCAPE_KEY ≤ c ∧ c ≤ F12_KEY)

/-- `IS_PRINTABLE`. -/
def isPrintable (kb : Keyboard) (c : UInt8) : Bool :=
  isKeycode c && (decide (0x02 ≤ c ∧ c ≤ 0x0D) || decide (0x0F ≤ c ∧ c ≤ 0x1C) ||
    decide (0x1E ≤ c ∧ c ≤ 0x29) || decide (0x2B ≤ c ∧ c ≤ 0x35) || c == 0x37 || c == 0x39 ||
    kb.shiftKeyPressed && decide (0x47 ≤ c ∧ c ≤ 0x53) || c == 0x4A || c == 0x4E || c == 0x56)

/-- `isPressed`. -/
def isPressed (scancode : UInt8) : Bool := scancode &&& 0x80 == 0

/-- `makeCode`. -/
def makeCode (scancode : UInt8) : UInt8 := scancode &&& 0x7F

/-- The `switch` of `keyboardHandler`: the modifiers. -/
def Keyboard.modify (kb : Keyboard) (scancode : UInt8) : Keyboard :=
  let make := makeCode scancode
  if make = SHIFT_KEY_L ∨ make = SHIFT_KEY_R then { kb with shiftKeyPressed := isPressed scancode }
  else if make = CONTROL_KEY_L then { kb with controlKeyPressed := isPressed scancode }
  else if make = CAPS_LOCK_KEY then
    if isPressed scancode then { kb with capsLockKeyPressed := !kb.capsLockKeyPressed } else kb
  else kb

/-- The character of a printable key. -/
def Keyboard.typed (kb : Keyboard) (scancode : UInt8) : UInt8 :=
  let entry := scancodeMap.getD scancode.toNat (0, 0)
  let c := if kb.shiftKeyPressed then entry.2 else entry.1
  let c := if kb.capsLockKeyPressed ∧ isAlpha c then toUpper c else c
  if c = RETURN_KEY then NEW_LINE_CHAR else if c = TABULATOR_KEY then TABULATOR_CHAR else c

/-- `keyboardHandler`: the modifiers afterwards, and what it makes of the key. -/
def keyboardHandler (kb : Keyboard) (scancode : UInt8) : Keyboard × Option Key :=
  let kb := kb.modify scancode
  let make := makeCode scancode
  if ¬ (isPressed scancode ∧ isKeycode scancode) then (kb, none)
  else if make = BACKSPACE_KEY then (kb, some (.char 8))
  else if kb.controlKeyPressed ∧ make = C_KEY then (kb, some .ctrlC)
  else if kb.controlKeyPressed ∧ make = D_KEY then (kb, some (.char 0x04))
  else if isPrintable kb scancode then (kb, some (.char (kb.typed scancode)))
  else (kb, none)

example : (keyboardHandler { shiftKeyPressed := true } 0x1E).2 = some (.char (ch 'A')) := rfl

end TpSo
