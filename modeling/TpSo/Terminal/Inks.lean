set_option autoImplicit false

/-! # The colours of the terminal

`printToFd` of `fonts.c` draws a character in the colours that are set, and starts from those of its descriptor
when the last character was printed to another one. -/

namespace TpSo.Terminal

def FD_STDOUT : Int := 1
def FD_STDERR : Int := 2
def DEFAULT_TEXT_COLOR : BitVec 32 := 0x00FFFFFF
def DEFAULT_ERROR_COLOR : BitVec 32 := 0x00DE382B
def DEFAULT_BACKGROUND_COLOR : BitVec 32 := 0

/-- The static variables `file_descriptor`, `text_color` and `background_color`. -/
structure Inks where
  fileDescriptor : Int
  textColor : BitVec 32
  backgroundColor : BitVec 32
  standard : fileDescriptor = FD_STDOUT ∨ fileDescriptor = FD_STDERR

/-- A character and the colours it is drawn in. -/
structure Cell where
  ascii : BitVec 8
  textColor : BitVec 32
  backgroundColor : BitVec 32
  deriving DecidableEq

namespace Inks

def setTextColor (color : BitVec 32) (k : Inks) : Inks := { k with textColor := color }

def setBackgroundColor (color : BitVec 32) (k : Inks) : Inks := { k with backgroundColor := color }

/-- What `printToFd` begins with; `none` if it returns -1. -/
def select (fd : Int) (k : Inks) : Option Inks :=
  if fd ≠ k.fileDescriptor then
    if hout : fd = FD_STDOUT then
      some { fileDescriptor := fd, textColor := DEFAULT_TEXT_COLOR,
             backgroundColor := DEFAULT_BACKGROUND_COLOR, standard := .inl hout }
    else if herr : fd = FD_STDERR then
      some { fileDescriptor := fd,
             textColor := if k.textColor = DEFAULT_TEXT_COLOR then DEFAULT_ERROR_COLOR else k.textColor
             backgroundColor := DEFAULT_BACKGROUND_COLOR, standard := .inr herr }
    else none
  else some k

/-- A character in these colours. -/
def cell (k : Inks) (ascii : BitVec 8) : Cell := ⟨ascii, k.textColor, k.backgroundColor⟩

/-- The variables as the program starts with them. -/
def boot : Inks where
  fileDescriptor := FD_STDOUT
  textColor := DEFAULT_TEXT_COLOR
  backgroundColor := DEFAULT_BACKGROUND_COLOR
  standard := .inl rfl

end Inks

/-- The characters printed so far, and the colours that are set. -/
structure Painting where
  inks : Inks
  cells : List Cell := []

namespace Painting

/-- `printToFd` of one character. -/
def print (fd : Int) (c : UInt8) (p : Painting) : Painting :=
  match p.inks.select fd with
  | none => p
  | some inks => { inks := inks, cells := p.cells ++ [inks.cell c.toBitVec] }

/-- A change of colours. -/
def onInks (f : Inks → Inks) (p : Painting) : Painting := { p with inks := f p.inks }

end Painting

end TpSo.Terminal
