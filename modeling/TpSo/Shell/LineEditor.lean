import Mathlib.Logic.Function.Iterate
import TpSo.Shell.Parsing

set_option autoImplicit false

/-! # Editing a line in the shell

The loop of `main` in `shell.c` with the handlers of the arrow keys: the line is edited in `buffer`, a
second copy of it in `command_history_buffer` outlives the parsing, and a line that could be parsed is kept
in a ring of ten. A key comes while the shell waits for one. -/

namespace TpSo

namespace Shell

def HISTORY_SIZE : Nat := 10
def CTRL_C : Char := '\x03'
def CTRL_D : Char := '\x04'
def BACKSPACE : Char := '\x08'
def DELETE : Char := '\x7f'

/-- `SUB_MOD(a, b, m)`. -/
def subMod (a b m : Nat) : Nat := if a < b then m - b + a else a - b

/-- What the shell prints while a line is edited; `print` is a `printf` of a string. -/
inductive Echo
  | putchar (c : Char)
  | clearScreenCharacter
  | prompt
  | print (s : Str)

/-- `strcpy(dest, src)`, with the string that `src` leads to. -/
def copyTo (dest : List Char) (s : Str) : List Char := s ++ NUL :: dest.drop (s.length + 1)

/-- A key, as `getchar` returns it with `processWaitChildren` reaping children after it or not, or an
    arrow with its handler. -/
inductive KeyPress
  | char (c : Char) (reaped : Bool)
  | up
  | down
  deriving DecidableEq

end Shell

/-- The variables of `shell.c` that editing is about; `buffer` is that of the `Shell`. -/
structure Editor where
  shell : Shell
  bufferDim : Nat := 0
  historyBuffer : List Char := List.replicate Shell.MAX_BUFFER_SIZE Shell.NUL
  history : List (List Char) :=
    List.replicate Shell.HISTORY_SIZE (List.replicate Shell.MAX_BUFFER_SIZE Shell.NUL)
  historyLast : Nat := 0
  lastArrowed : Nat := 0
  promptDirty : Bool := false
  echo : List Shell.Echo := []
  returned : Bool := false

namespace Editor

open Shell

/-- A row of `command_history`. -/
def row (e : Editor) (i : Nat) : List Char := e.history.getD i []

def print (e : Editor) (c : Echo) : Editor := { e with echo := e.echo ++ [c] }

def printPrompt (e : Editor) : Editor := { e.print .prompt with promptDirty := false }

def handleBackgroundChildren (e : Editor) (reaped : Bool) : Editor :=
  { e with promptDirty := e.promptDirty || reaped }

/-- Store a character at an index of `buffer` and of `command_history_buffer`. -/
def put (e : Editor) (i : Nat) (c : Char) : Editor :=
  { e with
    shell := { e.shell with buffer := e.shell.buffer.set i c }
    historyBuffer := e.historyBuffer.set i c }

def deleteCharacter (e : Editor) : Editor :=
  if e.bufferDim = 0 then e
  else ({ e with bufferDim := e.bufferDim - 1 }.put (e.bufferDim - 1) NUL).print .clearScreenCharacter

/-- `emptyScreenBuffer`: each round deletes a character. -/
def emptyScreenBuffer (e : Editor) : Editor := deleteCharacter^[e.bufferDim] e

/-- The empty line that a new round of the loop begins with. -/
def reset (e : Editor) : Editor := { e.put 0 NUL with bufferDim := 0 }

/-- Show a row of the history in place of the line. -/
def showRow (e : Editor) (i : Nat) : Editor :=
  let e := e.emptyScreenBuffer
  let s := strcpy (e.row i)
  { e with
    shell := { e.shell with buffer := copyTo e.shell.buffer s }
    historyBuffer := copyTo e.historyBuffer s
    bufferDim := strlen (e.row i) }.print (.print s)

/-- The handlers of both arrows, with what `last_command_arrowed` becomes. -/
def arrow (e : Editor) (i : Nat) : Editor :=
  let e := { e with lastArrowed := i }
  if (e.row i).headD NUL ≠ NUL then e.showRow i else e

def printPreviousCommand (e : Editor) : Editor := e.arrow (subMod e.lastArrowed 1 HISTORY_SIZE)

def printNextCommand (e : Editor) : Editor := e.arrow ((e.lastArrowed + 1) % HISTORY_SIZE)

/-- A new prompt before the first character, if something was printed behind the present one. -/
def promptIfDirty (e : Editor) : Editor :=
  if e.bufferDim = 0 ∧ e.promptDirty then (e.print (.putchar '\n')).printPrompt else e

def appendCharacter (e : Editor) (c : Char) : Editor :=
  if c = BACKSPACE ∨ c = DELETE then e.deleteCharacter
  else
    let e := e.promptIfDirty
    if e.bufferDim ≥ MAX_BUFFER_SIZE - 1 then e
    else { e.put e.bufferDim c with bufferDim := e.bufferDim + 1 }.print (.putchar c)

section

variable (os : Answers)

/-- The line could be parsed. -/
def accepts (e : Editor) : Bool := !((e.shell.cut e.bufferDim).parseLine os).1

/-- The row that a line is kept in. -/
def remember (e : Editor) : Editor :=
  let line := (copyTo (e.row e.historyLast) (strncpy (MAX_BUFFER_SIZE - 1) e.historyBuffer)).set e.bufferDim NUL
  let historyLast := (e.historyLast + 1) % HISTORY_SIZE
  { e with
    history := e.history.set e.historyLast line
    historyLast := historyLast
    lastArrowed := historyLast }

/-- The loop of `main` from the `'\n'` on, until the next prompt. -/
def submit (e : Editor) : Editor :=
  let e := e.print (.putchar '\n')
  let kept := { e with historyBuffer := e.historyBuffer.set e.bufferDim NUL }
  let kept := if e.accepts os then kept.remember else kept
  ({ kept with shell := e.shell.runLine os e.bufferDim }.reset).printPrompt

/-- A round of `main`'s inner loop. -/
def type (e : Editor) (c : Char) (reaped : Bool) : Editor :=
  if c = '\n' then e.submit os
  else
    let e := e.handleBackgroundChildren reaped
    if c = CTRL_C then e.emptyScreenBuffer.reset.printPrompt
    else if c = CTRL_D then
      if e.bufferDim = 0 then { e.print (.print ['\n', '^', 'D']) with returned := true } else e
    else e.appendCharacter c

def step (e : Editor) (k : KeyPress) : Editor :=
  if e.returned then e
  else
    match k with
    | .char c reaped => e.type os c reaped
    | .up => e.printPreviousCommand
    | .down => e.printNextCommand

def run (e : Editor) (keys : List KeyPress) : Editor := keys.foldl (fun e k => e.step os k) e

/-- The keys of a run, each with whether the line that it finds can be parsed. -/
def answered : Editor → List KeyPress → List (KeyPress × Bool)
  | _, [] => []
  | e, k :: keys => (k, e.accepts os) :: answered (e.step os k) keys

end

/-- The loop of `history`, with `left` rounds to go. -/
def historyFrom (e : Editor) : (left : Nat) → (last : Nat) → List Str
  | 0, _ => []
  | left + 1, last =>
    if (e.row last).headD NUL ≠ NUL then
      strcpy (e.row last) :: e.historyFrom left (subMod last 1 HISTORY_SIZE)
    else []

/-- The lines that `history` prints. -/
def listHistory (e : Editor) : List Str := e.historyFrom HISTORY_SIZE (subMod e.historyLast 1 HISTORY_SIZE)

/-- `main` when it comes to wait for the first key. -/
def start (s : Shell) : Editor := ({ shell := s : Editor }.reset).printPrompt

end Editor

/-! ## What editing is for -/

namespace Shell

/-- A line under edit, the lines accepted so far, newest first, and how far the arrows have gone back. -/
structure Draft where
  line : Str := []
  past : List Str := []
  back : Nat := 0
  done : Bool := false

namespace Draft

/-- Go to the line that was accepted `back` lines ago; there are ten to go back to, and ten steps lead
    around. -/
def goBack (d : Draft) (back : Nat) : Draft :=
  { d with line := (d.past[(back + 9) % HISTORY_SIZE]?).getD d.line, back := back }

/-- Type a character; `accepted` says whether a line that ends here can be parsed. -/
def type (d : Draft) (c : Char) (accepted : Bool) : Draft :=
  if c = '\n' then
    if accepted then { d with line := [], past := d.line :: d.past, back := 0 } else { d with line := [] }
  else if c = CTRL_C then { d with line := [] }
  else if c = CTRL_D then { d with done := d.line.isEmpty }
  else if c = BACKSPACE ∨ c = DELETE then { d with line := d.line.dropLast }
  else if d.line.length < MAX_BUFFER_SIZE - 1 then { d with line := d.line ++ [c] }
  else d

def step (d : Draft) (k : KeyPress) (accepted : Bool) : Draft :=
  if d.done then d
  else
    match k with
    | .char c _ => d.type c accepted
    | .up => d.goBack ((d.back + 1) % HISTORY_SIZE)
    | .down => d.goBack ((d.back + 9) % HISTORY_SIZE)

def run (d : Draft) (keys : List (KeyPress × Bool)) : Draft := keys.foldl (fun d k => d.step k.1 k.2) d

end Draft

end Shell

/-! ## Parsing stays in the line -/

namespace Shell

/-! ### What the string functions do not pass -/

/-- A string ends at the first NUL. -/
theorem strlen_le {b : List Char} {k : Nat} (h : b[k]? = some NUL) : strlen b ≤ k := by
  induction b generalizing k with
  | nil => cases h
  | cons c b ih =>
    rw [strlen]
    split
    · exact Nat.zero_le k
    · next hc =>
      cases k with
      | zero => exact absurd (Option.some.inj h) hc
      | succ k => exact Nat.succ_le_succ (ih h)

theorem skipWhitespace_le {b : List Char} {k : Nat} (h : b[k]? = some NUL) (p : Nat) :
    skipWhitespace b p ≤ p + k := by
  induction b generalizing k p with
  | nil => cases h
  | cons c b ih =>
    rw [skipWhitespace]
    split
    · next hc =>
      cases k with
      | zero => exact absurd (Option.some.inj h) hc.1
      | succ k =>
        have hle := ih h (p + 1)
        omega
    · exact Nat.le_add_right p k

theorem strchr_lt {b : List Char} {k : Nat} (h : b[k]? = some NUL) {c : Char} {p q : Nat}
    (hq : strchr c b p = some q) : q < p + k := by
  induction b generalizing k p with
  | nil => cases h
  | cons d b ih =>
    rw [strchr] at hq
    split at hq
    · cases hq
    · next hd =>
      cases k with
      | zero => exact absurd (Option.some.inj h) hd
      | succ k =>
        split at hq
        · cases hq
          omega
        · have hlt := ih h hq
          omega

theorem strtokLoop_lt {delims b : List Char} {p q : Nat} (hq : (strtokLoop delims b p).1 = some q) :
    p ≤ q ∧ q < p + b.length := by
  induction b generalizing p with
  | nil => cases hq
  | cons c b ih =>
    rw [strtokLoop] at hq
    rw [List.length_cons]
    split at hq
    · cases hq
    · split at hq
      · cases hq
        omega
      · have hlt := ih hq
        omega

theorem trimEnd_le (b : List Char) (start n : Nat) : trimEnd b start n ≤ start + n := by
  induction n with
  | zero => exact Nat.le_refl _
  | succ n ih =>
    rw [trimEnd]
    split
    · exact Nat.le_succ_of_le ih
    · exact Nat.le_refl _

/-! ### The array -/

variable (os : Answers) (s : Shell)

/-- The buffer, and whether it has been overrun. -/
def array (s : Shell) : List Char × Bool := (s.buffer, s.overrun)

@[simp] theorem record_array (e : Event) : (s.record e).array = s.array := rfl

@[simp] theorem malloc_array (size : Nat) : (s.malloc os size).2.array = s.array := by
  unfold malloc
  split <;> rfl

@[simp] theorem store_array (b : Block) (text : Str) : (s.store b text).array = s.array := rfl

@[simp] theorem free_array (b : Option Block) : (s.free b).array = s.array := by cases b <;> rfl

@[simp] theorem freeArgs_array (argv : Nat → Option Block) (n : Nat) : (s.freeArgs argv n).array = s.array := by
  induction n with
  | zero => rfl
  | succ n ih => rw [freeArgs, free_array, ih]

@[simp] theorem freeParsedCommands_array (cs : List ParsedCommand) :
    (s.freeParsedCommands cs).array = s.array := by
  induction cs generalizing s with
  | nil => rfl
  | cons c cs ih => rw [freeParsedCommands, ih, cleanupParsedCommand, freeArgs_array]

@[simp] theorem updateShellFdTargets_array (read write error : Nat) :
    (s.updateShellFdTargets os read write error).2.array = s.array := by
  unfold updateShellFdTargets
  dsimp only
  split <;> rfl

@[simp] theorem takeAmpersand_array (c : ParsedCommand) : (s.takeAmpersand c).2.2.array = s.array := by
  unfold takeAmpersand
  split
  · rfl
  · split <;> rfl

@[simp] theorem executeSingle_array (c : ParsedCommand) (background : Bool) :
    (s.executeSingle os c background).array = s.array := by
  unfold executeSingle
  dsimp only
  split_ifs <;> rfl

@[simp] theorem executePipe_array (left right : ParsedCommand) (background : Bool) :
    (s.executePipe os left right background).array = s.array := by
  unfold executePipe
  dsimp only
  split_ifs <;> simp [call, processCreate, processWaitPid]

theorem executeParsedCommands_array (cs : List ParsedCommand) :
    (s.executeParsedCommands os cs).2.array = s.array := by
  cases cs with
  | nil => rfl
  | cons first others =>
    simp only [executeParsedCommands]
    split
    · rfl
    · cases others with
      | nil => simp
      | cons second rest =>
        dsimp only
        split
        · simp
        · simp

/-! ### Stores -/

/-- The buffer keeps its length and is not overrun, and where there was a NUL there still is. -/
structure Confined (s s' : Shell) : Prop where
  length : s'.buffer.length = s.buffer.length
  overrun : s'.overrun = s.overrun
  ends : ∀ n : Nat, s.buffer[n]? = some NUL → s'.buffer[n]? = some NUL

namespace Confined

variable {s s' s'' : Shell} {os : Answers}

theorem trans (h : Confined s s') (h' : Confined s' s'') : Confined s s'' :=
  ⟨h'.length.trans h.length, h'.overrun.trans h.overrun, fun n hn => h'.ends n (h.ends n hn)⟩

theorem of_array (h : s'.array = s.array) : Confined s s' := by
  have hbuffer : s'.buffer = s.buffer := congrArg Prod.fst h
  exact ⟨congrArg List.length hbuffer, congrArg Prod.snd h, fun n hn => hbuffer ▸ hn⟩

theorem refl (s : Shell) : Confined s s := of_array rfl

theorem cut {p : Nat} (hp : p < s.buffer.length) : Confined s (s.cut p) := by
  refine ⟨List.length_set, ?_, fun n hn => ?_⟩
  · show (s.overrun || decide (s.buffer.length ≤ p)) = s.overrun
    rw [decide_eq_false (Nat.not_le.mpr hp), Bool.or_false]
  · show (s.buffer.set p NUL)[n]? = some NUL
    rw [List.getElem?_set]
    split
    · rfl
    · exact hn

theorem strtok (s : Shell) (s1 : Option Nat) (delims : Str) : Confined s (s.strtok s1 delims).2 := by
  unfold Shell.strtok
  split
  · exact refl s
  · dsimp only
    cases hfound : (strtokLoop delims (s.from_ (s1.getD s.last)) (s1.getD s.last)).1 with
    | none => exact of_array rfl
    | some p =>
      obtain ⟨hle, hlt⟩ := strtokLoop_lt hfound
      rw [from_, List.length_drop] at hlt
      exact (cut (by omega)).trans (of_array rfl)

/-- The string at `p`, which ends at `n` at the latest, is trimmed within its bounds. -/
theorem trimWhitespace {n p : Nat} (hn : s.buffer[n]? = some NUL) (hp : p ≤ n) :
    Confined s (s.trimWhitespace p).2 := by
  have hdrop : ∀ q ≤ n, (s.from_ q)[n - q]? = some NUL := by
    intro q hq
    rw [from_, List.getElem?_drop, Nat.add_sub_cancel' hq]
    exact hn
  have hstart := skipWhitespace_le (hdrop p hp) p
  have hle : skipWhitespace (s.from_ p) p ≤ n := by omega
  have hlen := strlen_le (hdrop _ hle)
  have hend := trimEnd_le s.buffer (skipWhitespace (s.from_ p) p)
    (strlen (s.from_ (skipWhitespace (s.from_ p) p)))
  have hlt := (List.getElem?_eq_some_iff.mp hn).1
  exact cut (by omega)

theorem skipBars (fuel : Nat) (token : Option Nat) (s : Shell) : Confined s (skipBars fuel token s).2 := by
  induction fuel generalizing token s with
  | zero => exact refl s
  | succ fuel ih =>
    cases token with
    | none => exact refl s
    | some t =>
      simp only [Shell.skipBars]
      split
      · exact (strtok s none [' ']).trans (ih _ _)
      · exact refl s

theorem parseArguments (left : Nat) (arg : Option Nat) (c : ParsedCommand) (s : Shell) :
    Confined s (parseArguments os left arg c s).2.2 := by
  induction left generalizing arg c s with
  | zero => exact refl s
  | succ left ih =>
    cases arg with
    | none => exact refl s
    | some a =>
      simp only [Shell.parseArguments]
      split
      · exact refl s
      · split
        · exact of_array (by rw [cleanupParsedCommand, freeArgs_array, malloc_array])
        · exact (of_array (by rw [store_array, malloc_array])).trans ((strtok _ none [' ']).trans (ih _ _ _))

theorem parseCommand (s : Shell) (buffer : Nat) : Confined s (s.parseCommand os buffer).2.2 := by
  have hskip := (strtok s (some buffer) [' ']).trans (skipBars (s.strtok (some buffer) [' ']).2.buffer.length
    (s.strtok (some buffer) [' ']).1 _)
  unfold Shell.parseCommand
  dsimp only
  split
  · exact hskip
  · split
    · exact hskip
    · split
      · exact hskip.trans (of_array (malloc_array ..))
      · refine hskip.trans ((of_array ?_).trans ((strtok _ none [' ']).trans (parseArguments _ _ _ _)))
        rw [store_array, malloc_array]

/-- **A line** is parsed within its bounds. -/
theorem parseLine {n : Nat} (hn : s.buffer[n]? = some NUL) : Confined s (s.parseLine os).2.2 := by
  have hsplit : Confined s s.splitPipe.2.2 ∧ ∀ p, s.splitPipe.1 = some p → p ≤ n := by
    unfold splitPipe
    cases hbar : strchr '|' s.buffer 0 with
    | none => exact ⟨refl s, nofun⟩
    | some p =>
      have hlt := strchr_lt hn hbar
      have hlength := (List.getElem?_eq_some_iff.mp hn).1
      refine ⟨cut (by omega), ?_⟩
      rintro q ⟨⟩
      omega
  obtain ⟨hsplit, hsecond⟩ := hsplit
  have hfirst := hsplit.trans (trimWhitespace (hsplit.ends n hn) (Nat.zero_le n))
  have hboth : Confined s ((s.splitPipe.2.2.trimWhitespace 0).2.trimSecond s.splitPipe.1).2 := by
    cases hp : s.splitPipe.1 with
    | none => exact hfirst
    | some p => exact hfirst.trans (trimWhitespace (hfirst.ends n hn) (hsecond p hp))
  unfold Shell.parseLine
  dsimp only
  split_ifs
  · exact hsplit
  · exact hboth
  · exact hboth.trans (parseCommand _ _)
  · split
    · exact hboth.trans (parseCommand _ _)
    · split_ifs
      · exact hboth.trans (parseCommand _ _)
      · exact hboth.trans ((parseCommand _ _).trans (parseCommand _ _))
      · exact hboth.trans ((parseCommand _ _).trans (parseCommand _ _))

/-- **The body of the loop** writes to no place behind the buffer. -/
theorem runLine {bufferDim : Nat} (h : bufferDim < s.buffer.length) : Confined s (s.runLine os bufferDim) := by
  have hcut := cut h
  have hends : (s.cut bufferDim).buffer[bufferDim]? = some NUL := by
    show (s.buffer.set bufferDim NUL)[bufferDim]? = some NUL
    rw [List.getElem?_set_self h]
  have hparsed : Confined s ((s.cut bufferDim).parseLine os).2.2 := hcut.trans (parseLine hends)
  have hlast : ∀ {t : Shell}, Confined s t → Confined s (t.cut 0) :=
    fun ht => ht.trans (cut (by rw [ht.length]; omega))
  unfold Shell.runLine
  dsimp only
  apply hlast
  split
  · exact hparsed.trans (of_array (freeParsedCommands_array ..))
  · exact hparsed.trans ((of_array (executeParsedCommands_array ..)).trans
      (of_array (freeParsedCommands_array ..)))

end Confined

end Shell

end TpSo
