import TpSo.Shell.CommandLine

set_option autoImplicit false

/-! # The shell gives back what a line has cost

`parseCommand` obtains one block for each entry of `argv`; `cleanupParsedCommand`, the removal of a
final `"&"` and `freeParsedCommands` give them back. The invariant says which blocks are owned by the
commands parsed so far, whatever the calls have returned. -/

namespace TpSo

namespace Shell

/-- The blocks `malloc` and `free` speak of. -/
def heap : BlockEvents Event Block where
  obtains
    | .malloc _ block => block
    | _ => none
  releases
    | .free block => some block
    | _ => none

/-- A call that has nothing to do with the heap. -/
def Event.IsCall (e : Event) : Prop := heap.obtains e = none ∧ heap.releases e = none

/-- Since the log was `before`, the blocks obtained are those given back and those in `owned`. -/
def Ledger (before log : List Event) (owned : List Block) : Prop :=
  ∃ new, log = new ++ before ∧ heap.Owns new owned ∧
    ∀ b ∈ heap.obtained new, before.length ≤ b ∧ b < log.length

namespace Ledger

variable {before : List Event} (os : Answers) {s : Shell} {owned : List Block}

theorem start (s : Shell) : Ledger s.log s.log [] := ⟨[], rfl, .nil, fun _ hb => absurd hb List.not_mem_nil⟩

theorem perm {log : List Event} {owned' : List Block} (h : Ledger before log owned)
    (hp : owned.Perm owned') : Ledger before log owned' := by
  obtain ⟨new, hlog, howns, hids⟩ := h
  exact ⟨new, hlog, howns.perm hp, hids⟩

theorem other {e : Event} (h : Ledger before s.log owned) (he : e.IsCall) :
    Ledger before (e :: s.log) owned := by
  obtain ⟨new, hlog, howns, hids⟩ := h
  refine ⟨e :: new, congrArg _ hlog, howns.other he.1 he.2, fun b hb => ?_⟩
  rw [show heap.obtained (e :: new) = heap.obtained new from List.filterMap_cons_none he.1] at hb
  exact ⟨(hids b hb).1, Nat.lt_succ_of_lt (hids b hb).2⟩

/-- A system call. -/
theorem call {answer : Nat → Int} {e : Int → Event} (h : Ledger before s.log owned)
    (he : ∀ ret, (e ret).IsCall) : Ledger before (s.call answer e).2.log owned := h.other (he _)

/-- `malloc` fails, or the new block is owned. -/
theorem malloc (h : Ledger before s.log owned) (size : Nat) :
    Ledger before (s.malloc os size).2.log ((s.malloc os size).1.toList ++ owned) := by
  unfold Shell.malloc
  split
  · exact h
  by_cases hgot : os.malloc s.log.length
  swap
  · simp only [if_neg hgot]
    exact h.other ⟨rfl, rfl⟩
  simp only [if_pos hgot]
  obtain ⟨new, hlog, howns, hids⟩ := h
  have hbefore : before.length ≤ s.log.length := by
    rw [hlog, List.length_append]
    exact Nat.le_add_left _ _
  refine ⟨.malloc size (some s.log.length) :: new, congrArg _ hlog,
    howns.obtain rfl rfl fun hmem => Nat.lt_irrefl _ (hids _ hmem).2, fun b hb => ?_⟩
  rw [show heap.obtained (.malloc size (some s.log.length) :: new) = s.log.length :: heap.obtained new
    from List.filterMap_cons_some rfl, List.mem_cons] at hb
  rcases hb with rfl | hb
  · exact ⟨hbefore, Nat.lt_succ_self _⟩
  · exact ⟨(hids b hb).1, Nat.lt_succ_of_lt (hids b hb).2⟩

/-- `free` of an owned block, or of `NULL`. -/
theorem free {b : Option Block} (h : Ledger before s.log (b.toList ++ owned)) :
    Ledger before (s.free b).log owned := by
  cases b with
  | none => exact h
  | some b =>
      obtain ⟨new, hlog, howns, hids⟩ := h
      refine ⟨.free b :: new, congrArg _ hlog, howns.release rfl rfl, fun a ha => ?_⟩
      rw [show heap.obtained (.free b :: new) = heap.obtained new from List.filterMap_cons_none rfl] at ha
      exact ⟨(hids a ha).1, Nat.lt_succ_of_lt (hids a ha).2⟩

/-- The first `n` entries of `argv` are given back. -/
theorem freeArgs {argv : Nat → Option Block} (n : Nat)
    (h : Ledger before s.log ((List.range n).filterMap argv ++ owned)) :
    Ledger before (s.freeArgs argv n).log owned := by
  induction n generalizing owned with
  | zero => exact h
  | succ n ih =>
      rw [List.range_succ, List.filterMap_append, List.append_assoc] at h
      refine free (ih ?_)
      cases hn : argv n with
      | none => simpa [hn] using h
      | some b => simpa [hn] using h

end Ledger

/-! ## What leaves the heap alone -/

section Log

variable (s : Shell)

@[simp] theorem cut_log (p : Nat) : (s.cut p).log = s.log := rfl

@[simp] theorem store_log (b : Block) (text : Str) : (s.store b text).log = s.log := rfl

@[simp] theorem strtok_log (s1 : Option Nat) (delims : Str) : (s.strtok s1 delims).2.log = s.log := by
  unfold strtok
  split
  · rfl
  · dsimp only
    cases (strtokLoop delims (s.from_ (s1.getD s.last)) (s1.getD s.last)).1 <;> rfl

@[simp] theorem trimWhitespace_log (p : Nat) : (s.trimWhitespace p).2.log = s.log := rfl

@[simp] theorem trimSecond_log (second : Option Nat) : (s.trimSecond second).2.log = s.log := by
  cases second <;> rfl

@[simp] theorem splitPipe_log : s.splitPipe.2.2.log = s.log := by
  unfold splitPipe
  cases strchr '|' s.buffer 0 <;> rfl

theorem skipBars_log (fuel : Nat) (token : Option Nat) : (skipBars fuel token s).2.log = s.log := by
  induction fuel generalizing token s with
  | zero => rfl
  | succ fuel ih =>
      cases token with
      | none => rfl
      | some t =>
          simp only [skipBars]
          split
          · rw [ih, strtok_log]
          · rfl

end Log

/-! ## The blocks of a command -/

/-- The blocks of its arguments; `name` is the first of them. -/
def ParsedCommand.blocks (c : ParsedCommand) : List Block := (List.range c.argc).filterMap c.argv

namespace ParsedCommand

variable (c : ParsedCommand)

/-- An entry from `argc` on does not count. -/
theorem filterMap_range_update (b : Option Block) :
    (List.range c.argc).filterMap (Function.update c.argv c.argc b) = c.blocks := by
  refine List.filterMap_congr fun i hi => ?_
  rw [Function.update_of_ne (Nat.ne_of_lt (List.mem_range.mp hi))]

theorem blocks_terminated : { c with argv := Function.update c.argv c.argc none }.blocks = c.blocks :=
  c.filterMap_range_update none

/-- An argument is added. -/
theorem blocks_push (b : Block) :
    { c with argv := Function.update c.argv c.argc (some b), argc := c.argc + 1 }.blocks =
      c.blocks ++ [b] := by
  show (List.range (c.argc + 1)).filterMap (Function.update c.argv c.argc (some b)) = _
  rw [List.range_succ, List.filterMap_append, filterMap_range_update]
  simp

/-- The last argument. -/
theorem blocks_eq {b : Block} (hpos : 0 < c.argc) (hlast : c.argv (c.argc - 1) = some b) :
    c.blocks = { c with argv := Function.update c.argv (c.argc - 1) none, argc := c.argc - 1 }.blocks ++
      [b] := by
  obtain ⟨n, hn⟩ : ∃ n, c.argc = n + 1 := ⟨c.argc - 1, by omega⟩
  have hrest : { c with argv := Function.update c.argv (c.argc - 1) none, argc := c.argc - 1 }.blocks =
      (List.range n).filterMap c.argv := by
    show (List.range (c.argc - 1)).filterMap (Function.update c.argv (c.argc - 1) none) = _
    rw [hn, Nat.add_sub_cancel]
    refine List.filterMap_congr fun i hi => ?_
    rw [Function.update_of_ne (Nat.ne_of_lt (List.mem_range.mp hi))]
  rw [hn, Nat.add_sub_cancel] at hlast
  rw [hrest, blocks, hn, List.range_succ, List.filterMap_append]
  simp [hlast]

end ParsedCommand

/-- The blocks of the commands of a line. -/
def blocksOf (cs : List ParsedCommand) : List Block := cs.flatMap ParsedCommand.blocks

variable {before : List Event} (os : Answers) {s : Shell} {owned : List Block}

theorem Ledger.cleanup {c : ParsedCommand} (h : Ledger before s.log (c.blocks ++ owned)) :
    Ledger before (s.cleanupParsedCommand c).2.log owned := h.freeArgs c.argc

theorem Ledger.freeParsedCommands (cs : List ParsedCommand) (h : Ledger before s.log (blocksOf cs)) :
    Ledger before (s.freeParsedCommands cs).log [] := by
  induction cs generalizing s with
  | nil => exact h
  | cons c cs ih =>
      rw [blocksOf, List.flatMap_cons] at h
      exact ih h.cleanup

/-! ## `parseCommand` -/

/-- The command owns its blocks if it has been parsed; otherwise nothing is left of it. -/
def ParseLedger (before : List Event) (owned : List Block) (r : Int × ParsedCommand × Shell) : Prop :=
  Ledger before r.2.2.log (if r.1 ≤ 0 then owned else r.2.1.blocks ++ owned)

theorem ParseLedger.parsed {c : ParsedCommand} (h : Ledger before s.log (c.blocks ++ owned)) :
    ParseLedger before owned (1, { c with argv := Function.update c.argv c.argc none }, s) := by
  show Ledger before s.log (if (1 : Int) ≤ 0 then owned else _)
  rwa [if_neg (by decide), c.blocks_terminated]

theorem parseArguments_ledger (left : Nat) (arg : Option Nat) (c : ParsedCommand)
    (h : Ledger before s.log (c.blocks ++ owned)) :
    ParseLedger before owned (parseArguments os left arg c s) := by
  induction left generalizing arg c s with
  | zero => exact .parsed h
  | succ left ih =>
      cases arg with
      | none => exact .parsed h
      | some a =>
          simp only [parseArguments]
          split
          · exact .parsed h
          · have hmalloc := h.malloc os (strlen (s.from_ a) + 1)
            split
            · next hnone =>
              rw [hnone] at hmalloc
              exact Ledger.cleanup hmalloc
            · next b hsome =>
              rw [hsome] at hmalloc
              refine ih _ _ ?_
              rw [strtok_log, store_log, c.blocks_push]
              refine hmalloc.perm ?_
              rw [List.append_assoc]
              exact (@List.perm_middle _ b c.blocks owned).symm

theorem parseCommand_ledger (buffer : Nat) (h : Ledger before s.log owned) :
    ParseLedger before owned (s.parseCommand os buffer) := by
  unfold parseCommand
  dsimp only
  set token := skipBars (s.strtok (some buffer) [' ']).2.buffer.length (s.strtok (some buffer) [' ']).1
    (s.strtok (some buffer) [' ']).2 with htoken
  have hlog : token.2.log = s.log := by rw [htoken, skipBars_log, strtok_log]
  rw [← hlog] at h
  split
  · exact h
  next t ht =>
  split
  · exact h
  have hmalloc := h.malloc os (strlen (strncpy (MAX_ARGUMENT_SIZE - 1) (token.2.from_ t)) + 1)
  split
  · next hnone =>
    rw [hnone] at hmalloc
    exact hmalloc
  · next b hsome =>
    rw [hsome] at hmalloc
    refine parseArguments_ledger os _ _ _ ?_
    rw [strtok_log, store_log]
    exact hmalloc

/-! ## `executeParsedCommands` -/

theorem Ledger.takeAmpersand {c : ParsedCommand} (h : Ledger before s.log (c.blocks ++ owned)) :
    Ledger before (s.takeAmpersand c).2.2.log ((s.takeAmpersand c).2.1.blocks ++ owned) := by
  unfold Shell.takeAmpersand
  split
  · exact h
  · next b hlast =>
    split
    · next hcond =>
      rw [c.blocks_eq hcond.1 hlast, List.append_assoc] at h
      exact free (h.perm List.perm_middle)
    · exact h

theorem Ledger.updateShellFdTargets (h : Ledger before s.log owned) (read write error : Nat) :
    Ledger before (s.updateShellFdTargets os read write error).2.log owned := by
  unfold Shell.updateShellFdTargets
  dsimp only
  split <;> exact h.call fun _ => ⟨rfl, rfl⟩

theorem Ledger.processCreate (h : Ledger before s.log owned) (c : ParsedCommand) (foreground : Bool) :
    Ledger before (s.processCreate os c foreground).2.log owned := h.call fun _ => ⟨rfl, rfl⟩

theorem Ledger.processWaitPid (h : Ledger before s.log owned) (pid : Int) :
    Ledger before (s.processWaitPid os pid).log owned := h.call fun _ => ⟨rfl, rfl⟩

theorem Ledger.executeSingle (h : Ledger before s.log owned) (c : ParsedCommand) (background : Bool) :
    Ledger before (s.executeSingle os c background).log owned := by
  unfold Shell.executeSingle
  dsimp only
  split
  · exact h.processCreate os c _
  split
  · exact h.processCreate os c _
  · exact (h.processCreate os c _).processWaitPid os _

theorem Ledger.executePipe (h : Ledger before s.log owned) (left right : ParsedCommand)
    (background : Bool) : Ledger before (s.executePipe os left right background).log owned := by
  unfold Shell.executePipe
  dsimp only
  have hpipe : Ledger before (s.call os.openPipe .openPipe).2.log owned := h.call fun _ => ⟨rfl, rfl⟩
  split
  · exact hpipe
  split
  · exact (hpipe.updateShellFdTargets os _ _ _).updateShellFdTargets os _ _ _
  have hleft := ((hpipe.updateShellFdTargets os s.fdTargets.1
    ((s.call os.openPipe .openPipe).1.toNat % 256) s.fdTargets.2.2).processCreate os left
    (!background)).updateShellFdTargets os s.fdTargets.1 s.fdTargets.2.1 s.fdTargets.2.2
  split
  · exact hleft
  split
  · exact (hleft.updateShellFdTargets os _ _ _).updateShellFdTargets os _ _ _
  have hright := ((hleft.updateShellFdTargets os ((s.call os.openPipe .openPipe).1.toNat % 256)
    s.fdTargets.2.1 s.fdTargets.2.2).processCreate os right false).updateShellFdTargets os
    s.fdTargets.1 s.fdTargets.2.1 s.fdTargets.2.2
  split
  · exact hright
  split
  · exact hright
  · exact (hright.processWaitPid os _).processWaitPid os _

theorem executeParsedCommands_ledger (cs : List ParsedCommand) (h : Ledger before s.log (blocksOf cs)) :
    Ledger before (s.executeParsedCommands os cs).2.log
      (blocksOf (s.executeParsedCommands os cs).1) := by
  cases cs with
  | nil => exact h
  | cons first others =>
      rw [blocksOf, List.flatMap_cons] at h
      simp only [executeParsedCommands]
      split
      · exact h.other ⟨rfl, rfl⟩
      · have htaken := h.takeAmpersand
        cases others with
        | nil => exact htaken.executeSingle os _ _
        | cons second rest =>
            dsimp only
            split
            · exact htaken
            · exact htaken.executePipe os _ _ _

/-! ## A line -/

theorem parseLine_ledger (h : Ledger before s.log []) :
    Ledger before (s.parseLine os).2.2.log (blocksOf (s.parseLine os).2.1) := by
  unfold parseLine
  dsimp only
  split
  · simpa [blocksOf] using h
  set first := s.splitPipe.2.2.trimWhitespace 0 with hfirst
  set second := first.2.trimSecond s.splitPipe.1 with hsecond
  have hlog : second.2.log = s.log := by
    rw [hsecond, trimSecond_log, hfirst, trimWhitespace_log, splitPipe_log]
  rw [← hlog] at h
  split
  · exact h
  have hleft := parseCommand_ledger os first.1 h
  set left := second.2.parseCommand os first.1
  split
  · next hfailed =>
    rw [ParseLedger, if_pos hfailed] at hleft
    exact hleft
  next hparsed =>
  rw [ParseLedger, if_neg hparsed] at hleft
  split
  · simpa [blocksOf] using hleft
  next p hp =>
  split
  · simpa [blocksOf] using hleft
  have hright := parseCommand_ledger os p hleft
  split
  · next hfailed =>
    rw [ParseLedger, if_pos hfailed] at hright
    simpa [blocksOf] using hright
  · next hparsed' =>
    rw [ParseLedger, if_neg hparsed'] at hright
    refine hright.perm ?_
    simp only [blocksOf, List.flatMap_cons, List.flatMap_nil, List.append_nil]
    exact List.perm_append_comm

theorem runLine_ledger (bufferDim : Nat) (h : Ledger before s.log []) :
    Ledger before (s.runLine os bufferDim).log [] := by
  have hparsed := @parseLine_ledger _ os (s.cut bufferDim) h
  unfold runLine
  dsimp only
  rw [cut_log]
  split
  · exact Ledger.freeParsedCommands _ hparsed
  · exact Ledger.freeParsedCommands _ (executeParsedCommands_ledger os _ hparsed)

/-- **A line is heap-neutral**: whatever the buffer holds and whatever the calls return, each block obtained
    while the line is handled is given back exactly once, and no other block is. -/
theorem line_heap_neutral (os : Answers) (s : Shell) (bufferDim : Nat) :
    ∃ new, (s.runLine os bufferDim).log = new ++ s.log ∧ (heap.obtained new).Nodup ∧
      (∀ b ∈ heap.obtained new, s.log.length ≤ b) ∧
      ∀ b, (heap.released new).count b = if b ∈ heap.obtained new then 1 else 0 := by
  obtain ⟨new, hlog, howns, hids⟩ := runLine_ledger os bufferDim (.start s)
  exact ⟨new, hlog, howns.nodup, fun b hb => (hids b hb).1, howns.settled⟩

end Shell

end TpSo
