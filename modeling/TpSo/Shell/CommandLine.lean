import TpSo.Library.BlockLedger
import TpSo.Shell.Strings
import Mathlib.Logic.Function.Basic

set_option autoImplicit false

/-! # The shell's handling of a line

The body of `main`'s loop in `shell.c` from the `'\n'` on, with `parseCommand`, `executeParsedCommands`
and their helpers. `malloc` and the system calls return what `Answers` says for the number of calls made
before, so that each of them may fail; a block is named by the number of the call it was obtained with.
What is printed and the history are left out. -/

namespace TpSo

namespace Shell

def MAX_BUFFER_SIZE : Nat := 1024
def MAX_ARGUMENT_COUNT : Nat := 64
def MAX_ARGUMENT_SIZE : Nat := 256

/-- A block of the heap. -/
abbrev Block := Nat

/-- What the shell calls. -/
inductive Event
  | malloc (size : Nat) (block : Option Block)
  | free (block : Block)
  | openPipe (ret : Int)
  | setFdTargets (read write error : Nat) (ret : Int)
  | processCreate (function : Str) (argv : List (Option Str)) (foreground : Bool) (ret : Int)
  | processWaitPid (pid ret : Int)
  | builtIn (function : Str) (argv : List (Option Str))

/-- What the calls return, by the number of events before them. -/
structure Answers where
  malloc : Nat → Bool
  openPipe : Nat → Int
  setFdTargets : Nat → Int
  processCreate : Nat → Int
  processWaitPid : Nat → Int

/-- `ParsedCommand`; `function` is the name of the command whose function it is. -/
structure ParsedCommand where
  name : Option Block := none
  function : Str := []
  argc : Nat := 0
  argv : Nat → Option Block := fun _ => none
  isBuiltIn : Bool := false

/-- `commands`: the names, and whether they are built in. -/
def commands : List (Str × Bool) :=
  [(['b', 'l', 'o', 'c', 'k'], false), (['c', 'a', 't'], false), (['c', 'l', 'e', 'a', 'r'], false),
   (['d', 'i', 'v', 'z', 'e', 'r', 'o'], false), (['e', 'x', 'i', 't'], true),
   (['f', 'i', 'l', 't', 'e', 'r'], false), (['f', 'o', 'n', 't'], false), (['h', 'e', 'l', 'p'], false),
   (['h', 'i', 's', 't', 'o', 'r', 'y'], true), (['i', 'n', 'v', 'o', 'p'], false),
   (['k', 'i', 'l', 'l'], false), (['l', 'o', 'o', 'p'], false), (['m', 'a', 'n'], false),
   (['m', 'e', 'm'], false), (['m', 'v', 'a', 'r'], false), (['n', 'i', 'c', 'e'], false),
   (['p', 's'], false), (['r', 'e', 'g', 's'], false), (['t', 'i', 'm', 'e'], false),
   (['t', 'm', 'm'], false), (['t', 'p', 'r', 'o', 'c'], false), (['t', 'p', 'r', 'i', 'o'], false),
   (['t', 's', 'y', 'n', 'c'], false), (['t', 'n', 'o', 's', 'y', 'n', 'c'], false), (['w', 'c'], false)]

end Shell

/-- The variables of the shell, the strings in its heap, and what it has called (newest first). -/
structure Shell where
  buffer : List Char
  /-- `last` of `strtok`. -/
  last : Nat := 0
  text : Shell.Block → Shell.Str := fun _ => []
  /-- `shell_fd_targets`. -/
  fdTargets : Nat × Nat × Nat := (0, 1, 2)
  log : List Shell.Event := []
  /-- Whether the shell has written behind the end of `buffer`, where the list ignores it. -/
  overrun : Bool := false

namespace Shell

variable (os : Answers)

/-! ## The buffer and the heap -/

/-- The array from `p` on. -/
def from_ (s : Shell) (p : Nat) : List Char := s.buffer.drop p

/-- Write a NUL. -/
def cut (s : Shell) (p : Nat) : Shell :=
  { s with buffer := s.buffer.set p NUL, overrun := s.overrun || decide (s.buffer.length ≤ p) }

def record (s : Shell) (e : Event) : Shell := { s with log := e :: s.log }

/-- A system call that returns as `answer` says, and its event. -/
def call (s : Shell) (answer : Nat → Int) (e : Int → Event) : Int × Shell :=
  (answer s.log.length, s.record (e (answer s.log.length)))

def malloc (s : Shell) (size : Nat) : Option Block × Shell :=
  if size = 0 then (none, s)
  else
    let block := if os.malloc s.log.length then some s.log.length else none
    (block, s.record (.malloc size block))

def free (s : Shell) : Option Block → Shell
  | none => s
  | some b => s.record (.free b)

/-- `strcpy` into a block. -/
def store (s : Shell) (b : Block) (text : Str) : Shell :=
  { s with text := Function.update s.text b text }

/-! ## `strtok` and `trimWhitespace` -/

/-- `strtok(s1, delims)`. -/
def strtok (s : Shell) (s1 : Option Nat) (delims : Str) : Option Nat × Shell :=
  if s1 = none ∧ (s.from_ s.last).headD NUL = NUL then (none, s)
  else
    let start := s1.getD s.last
    let found := strtokLoop delims (s.from_ start) start
    let s := match found.1 with
      | none => s
      | some p => s.cut p
    (some start, { s with last := found.2 })

/-- `trimWhitespace(str)`: the string begins at the index returned. -/
def trimWhitespace (s : Shell) (p : Nat) : Nat × Shell :=
  let start := skipWhitespace (s.from_ p) p
  (start, s.cut (trimEnd s.buffer start (strlen (s.from_ start))))

/-! ## `parseCommand` -/

/-- Free the first `n` entries of `argv`. -/
def freeArgs (s : Shell) (argv : Nat → Option Block) : Nat → Shell
  | 0 => s
  | n + 1 => (freeArgs s argv n).free (argv n)

def cleanupParsedCommand (s : Shell) (c : ParsedCommand) : ParsedCommand × Shell :=
  ({ argv := fun i => if i < c.argc then none else c.argv i }, s.freeArgs c.argv c.argc)

/-- `freeParsedCommands`. -/
def freeParsedCommands (s : Shell) : List ParsedCommand → Shell
  | [] => s
  | c :: commands => freeParsedCommands (s.cleanupParsedCommand c).2 commands

/-- The loop past tokens `"|"`. -/
def skipBars : (fuel : Nat) → Option Nat → Shell → Option Nat × Shell
  | 0, token, s => (token, s)
  | fuel + 1, token, s =>
    match token with
    | none => (none, s)
    | some t =>
      if strcmp (s.from_ t) ['|'] = 0 then
        let next := s.strtok none [' ']
        skipBars fuel next.1 next.2
      else (some t, s)

/-- The loop over the arguments, with room for `left` more. -/
def parseArguments : (left : Nat) → Option Nat → ParsedCommand → Shell → Int × ParsedCommand × Shell
  | 0, _, c, s => (1, { c with argv := Function.update c.argv c.argc none }, s)
  | left + 1, arg, c, s =>
    match arg with
    | none => (1, { c with argv := Function.update c.argv c.argc none }, s)
    | some a =>
      if strcmp (s.from_ a) ['|'] = 0 then
        (1, { c with argv := Function.update c.argv c.argc none }, s)
      else
        let copy := s.malloc os (strlen (s.from_ a) + 1)
        match copy.1 with
        | none => (-1, copy.2.cleanupParsedCommand c)
        | some b =>
          let s := copy.2.store b (strcpy (s.from_ a))
          let c := { c with argv := Function.update c.argv c.argc (some b), argc := c.argc + 1 }
          let next := s.strtok none [' ']
          parseArguments left next.1 c next.2

/-- `parseCommand(buffer, command, parsedCommand)`; `command` serves a message only afterwards. -/
def parseCommand (s : Shell) (buffer : Nat) : Int × ParsedCommand × Shell :=
  let first := s.strtok (some buffer) [' ']
  let token := skipBars first.2.buffer.length first.1 first.2
  let s := token.2
  match token.1 with
  | none => (0, {}, s)
  | some t =>
    let command := strncpy (MAX_ARGUMENT_SIZE - 1) (s.from_ t)
    match commands.find? (fun entry => strcmp entry.1 command == 0) with
    | none => (-1, {}, s)
    | some entry =>
      let copy := s.malloc os (strlen command + 1)
      match copy.1 with
      | none => (-1, {}, copy.2)
      | some b =>
        let s := copy.2.store b (strcpy command)
        let c : ParsedCommand :=
          { name := some b, function := entry.1, argc := 1
            argv := Function.update (fun _ => none) 0 (some b), isBuiltIn := entry.2 }
        let arg := s.strtok none [' ']
        parseArguments os (MAX_ARGUMENT_COUNT - 1 - 1) arg.1 c arg.2

/-! ## `executeParsedCommands` -/

/-- `updateShellFdTargets`. -/
def updateShellFdTargets (s : Shell) (read write error : Nat) : Bool × Shell :=
  let set := s.call os.setFdTargets (.setFdTargets read write error)
  if set.1 = 0 then (true, { set.2 with fdTargets := (read, write, error) }) else (false, set.2)

/-- The strings of `argv` up to `argc`. -/
def argvTexts (s : Shell) (c : ParsedCommand) : List (Option Str) :=
  (List.range c.argc).map (fun i => (c.argv i).map s.text)

/-- `processCreate(function, argc, argv, 1, foreground)`. -/
def processCreate (s : Shell) (c : ParsedCommand) (foreground : Bool) : Int × Shell :=
  s.call os.processCreate (.processCreate c.function (s.argvTexts c) foreground)

def processWaitPid (s : Shell) (pid : Int) : Shell := (s.call os.processWaitPid (.processWaitPid pid)).2

/-- The detection of a final `"&"`: whether there is one, and the command without it. -/
def takeAmpersand (s : Shell) (c : ParsedCommand) : Bool × ParsedCommand × Shell :=
  match c.argv (c.argc - 1) with
  | none => (false, c, s)
  | some b =>
    if c.argc > 0 ∧ strcmp (s.text b) ['&'] = 0 then
      (true, { c with argv := Function.update c.argv (c.argc - 1) none, argc := c.argc - 1 },
        s.free (some b))
    else (false, c, s)

/-- A single command that is not built in. -/
def executeSingle (s : Shell) (c : ParsedCommand) (background : Bool) : Shell :=
  let create := s.processCreate os c (!background)
  if create.1 < 0 then create.2
  else if background then create.2
  else create.2.processWaitPid os create.1

/-- Two commands that are not built in. -/
def executePipe (s : Shell) (left right : ParsedCommand) (background : Bool) : Shell :=
  let originalIn := s.fdTargets.1
  let originalOut := s.fdTargets.2.1
  let originalErr := s.fdTargets.2.2
  let restore (s : Shell) : Shell := (s.updateShellFdTargets os originalIn originalOut originalErr).2
  let pipe := s.call os.openPipe .openPipe
  if pipe.1 < 0 then pipe.2
  else
    let pipeFd := pipe.1.toNat % 256
    let writer := pipe.2.updateShellFdTargets os originalIn pipeFd originalErr
    if ¬ writer.1 then restore writer.2
    else
      let leftCreate := writer.2.processCreate os left (!background)
      let s := restore leftCreate.2
      if leftCreate.1 < 0 then s
      else
        let reader := s.updateShellFdTargets os pipeFd originalOut originalErr
        if ¬ reader.1 then restore reader.2
        else
          let rightCreate := reader.2.processCreate os right false
          let s := restore rightCreate.2
          if rightCreate.1 < 0 then s
          else if background then s
          else (s.processWaitPid os leftCreate.1).processWaitPid os rightCreate.1

/-- `executeParsedCommands`, with what it makes of the array. -/
def executeParsedCommands (s : Shell) : List ParsedCommand → List ParsedCommand × Shell
  | [] => ([], s)
  | first :: others =>
    if others = [] ∧ first.isBuiltIn then
      (first :: others, s.record (.builtIn first.function (s.argvTexts first)))
    else
      let taken := s.takeAmpersand first
      let first := taken.2.1
      match others with
      | [] => ([first], executeSingle os taken.2.2 first taken.1)
      | second :: rest =>
        if (first :: second :: rest).any (·.isBuiltIn) then (first :: second :: rest, taken.2.2)
        else (first :: second :: rest, executePipe os taken.2.2 first second taken.1)

/-! ## A line -/

/-- The search for the `'|'`: where the second command begins, if there is one, and whether there is a
    third. -/
def splitPipe (s : Shell) : Option Nat × Bool × Shell :=
  match strchr '|' s.buffer 0 with
  | none => (none, false, s)
  | some p =>
    let s := s.cut p
    (some (p + 1), (strchr '|' (s.from_ (p + 1)) (p + 1)).isSome, s)

/-- `trimWhitespace` of the second command. -/
def trimSecond (s : Shell) : Option Nat → Option Nat × Shell
  | none => (none, s)
  | some p =>
    let trimmed := s.trimWhitespace p
    (some trimmed.1, trimmed.2)

/-- `parse_error`, the commands parsed, and the shell. -/
def parseLine (s : Shell) : Bool × List ParsedCommand × Shell :=
  let split := s.splitPipe
  if split.2.1 then (true, [], split.2.2)
  else
    let first := split.2.2.trimWhitespace 0
    let second := first.2.trimSecond split.1
    let s := second.2
    if (s.from_ first.1).headD NUL = NUL then (true, [], s)
    else
      let left := s.parseCommand os first.1
      if left.1 ≤ 0 then (true, [], left.2.2)
      else
        match second.1 with
        | none => (false, [left.2.1], left.2.2)
        | some p =>
          if (left.2.2.from_ p).headD NUL = NUL then (true, [left.2.1], left.2.2)
          else
            let right := left.2.2.parseCommand os p
            if right.1 ≤ 0 then (true, [left.2.1], right.2.2)
            else (false, [left.2.1, right.2.1], right.2.2)

/-- The body of `main`'s loop for a line of `bufferDim` characters. -/
def runLine (s : Shell) (bufferDim : Nat) : Shell :=
  let parsed := (s.cut bufferDim).parseLine os
  let s :=
    if parsed.1 then parsed.2.2.freeParsedCommands parsed.2.1
    else
      let executed := parsed.2.2.executeParsedCommands os parsed.2.1
      executed.2.freeParsedCommands executed.1
  s.cut 0

end Shell

end TpSo
