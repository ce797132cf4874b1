import TpSo.Text.Format

set_option autoImplicit false

/-! # `vsscanf` and `atoi`

The input is indexed by `buf_i`, since a `%c` at its end steps behind the NUL. An argument is a pointer; the stores
through it are recorded with the number of the argument in the `va_list`. The `int` arithmetic wraps. -/

namespace TpSo.Stdio

/-- `buffer[i]`; the string ends with a NUL. -/
def charAt (buffer : List UInt8) (i : Nat) : Except Stop UInt8 :=
  if h : i < buffer.length then .ok buffer[i] else if i = buffer.length then .ok 0 else .error .pastEnd

def IsDigit (c : UInt8) : Prop := '0'.toUInt8 ≤ c ∧ c ≤ '9'.toUInt8

instance (c : UInt8) : Decidable (IsDigit c) := by
  unfold IsDigit
  infer_instance

/-- The conversion of a `char` to `int`. -/
def charToInt (c : UInt8) : BitVec 32 := c.toBitVec.signExtend 32

/-- A store through an argument. -/
inductive Store
  | int (arg : Nat) (value : BitVec 32)
  | char (arg offset : Nat) (c : UInt8)
  deriving DecidableEq

/-- The variables of `vsscanf`; `args` is the number of arguments taken from the `va_list`. -/
structure Scan where
  bufI : Nat := 0
  argsRead : Nat := 0
  args : Nat := 0
  stores : List Store := []
  deriving DecidableEq

/-- The loop of `%d`, over the input from `buf_i` on. -/
def scanDigits : List UInt8 → (num : BitVec 32) → (bufI : Nat) → (readNum : Bool) → BitVec 32 × Nat × Bool
  | [], num, bufI, readNum => (num, bufI, readNum)
  | c :: rest, num, bufI, readNum =>
    if IsDigit c then scanDigits rest (num * 10 + charToInt c - charToInt '0'.toUInt8) (bufI + 1) true
    else (num, bufI, readNum)

/-- `%d`. Where there is no number it takes no argument. -/
def scanInt (buffer : List UInt8) (s : Scan) : Except Stop Scan :=
  match charAt buffer s.bufI with
  | .error stop => .error stop
  | .ok c =>
    if c ≠ '-'.toUInt8 ∧ ¬ IsDigit c then .ok s
    else
      let negative := c = '-'.toUInt8
      let bufI := if negative then s.bufI + 1 else s.bufI
      let (num, bufI, readNum) := scanDigits (buffer.drop bufI) 0 bufI false
      .ok
        { bufI := bufI
          argsRead := s.argsRead + readNum.toNat
          args := s.args + 1
          stores := s.stores ++ [.int s.args (num * if negative then -1 else 1)] }

/-- `%c`. -/
def scanChar (buffer : List UInt8) (s : Scan) : Except Stop Scan :=
  match charAt buffer s.bufI with
  | .error stop => .error stop
  | .ok c =>
    .ok
      { bufI := s.bufI + 1
        argsRead := s.argsRead + 1
        args := s.args + 1
        stores := s.stores ++ [.char s.args 0 c] }

/-- A character that does not end a word. -/
def IsWord (c : UInt8) : Prop := c ≠ ' '.toUInt8 ∧ c ≠ '\n'.toUInt8

instance (c : UInt8) : Decidable (IsWord c) := by
  unfold IsWord
  infer_instance

/-- The loop of `%s`, over the input from `buf_i` on. It steps `str` twice for each character. -/
def scanWord (arg : Nat) : List UInt8 → (bufI str : Nat) → List Store → Nat × Nat × List Store
  | [], bufI, str, stores => (bufI, str, stores)
  | c :: rest, bufI, str, stores =>
    if IsWord c then scanWord arg rest (bufI + 1) (str + 1 + 1) (stores ++ [.char arg str c])
    else (bufI, str, stores)

/-- `%s`. -/
def scanString (buffer : List UInt8) (s : Scan) : Except Stop Scan :=
  match charAt buffer s.bufI with
  | .error stop => .error stop
  | .ok _ =>
    let (bufI, str, stores) := scanWord s.args (buffer.drop s.bufI) s.bufI 0 s.stores
    .ok
      { bufI := bufI
        argsRead := s.argsRead + 1
        args := s.args + 1
        stores := stores ++ [.char s.args str 0] }

/-- The inner `switch`. -/
def scanConversion (buffer : List UInt8) (conversion : UInt8) (s : Scan) : Except Stop Scan :=
  if conversion = 'd'.toUInt8 then scanInt buffer s
  else if conversion = 'c'.toUInt8 then scanChar buffer s
  else if conversion = 's'.toUInt8 then scanString buffer s
  else .ok s

/-- `vsscanf`, with all its variables; it returns `args_read`. Other characters of the format are skipped. -/
def vsscanf (buffer : List UInt8) : (format : List UInt8) → Scan → Except Stop Scan
  | [], s => .ok s
  | c :: format, s =>
    if c = '%'.toUInt8 then
      match format with
      | [] => .error .pastEnd
      | conversion :: format =>
        match scanConversion buffer conversion s with
        | .error stop => .error stop
        | .ok s => vsscanf buffer format s
    else vsscanf buffer format s

theorem vsscanf_conversion {buffer format : List UInt8} {conversion : UInt8} {s s' : Scan}
    (h : scanConversion buffer conversion s = .ok s') :
    vsscanf buffer ('%'.toUInt8 :: conversion :: format) s = vsscanf buffer format s' := by
  simp only [vsscanf, if_true, h]

/-- `sscanf`. -/
def sscanf (str format : List UInt8) : Except Stop Scan := vsscanf str format {}

/-- The last loop of `atoi`. -/
def atoiLoop : List UInt8 → (result : BitVec 32) → BitVec 32
  | [], result => result
  | c :: str, result =>
    if IsDigit c then atoiLoop str (result * 10 + (charToInt c - charToInt '0'.toUInt8)) else result

/-- `atoi`. -/
def atoi (str : List UInt8) : BitVec 32 :=
  match str.dropWhile fun c => c = ' '.toUInt8 ∨ c = '\t'.toUInt8 with
  | [] => 0
  | c :: rest =>
    if c = '-'.toUInt8 then -1 * atoiLoop rest 0
    else if c = '+'.toUInt8 then 1 * atoiLoop rest 0
    else 1 * atoiLoop (c :: rest) 0

end TpSo.Stdio
