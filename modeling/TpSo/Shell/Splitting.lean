import TpSo.Shell.Parsing

set_option autoImplicit false

/-! # How the shell splits a line

`strtok` does not skip delimiters, so that two spaces in a row make an empty argument, and the final
`"&"` is looked for in the first command only. The specification is `words`, the maximal runs of
non-space characters of each side of the `'|'`. -/

namespace TpSo

namespace Shell

open CString

/-! ## What is asked of a line -/

/-- What is left and right of the `'|'`. -/
def sides (line : Str) : List Str := line.splitOn '|'

/-- The last word of the line is `"&"`. -/
def background (line : Str) : Bool :=
  decide ((sides line).getLast?.bind (fun side => (words ' ' side).getLast?) = some ['&'])

/-- Without a final `"&"`. -/
def dropAmpersand (ws : List Str) : List Str := if ws.getLast? = some ['&'] then ws.dropLast else ws

/-- The words of the sides, the last side without its final `"&"`. -/
def jobsOf : List (List Str) → List (List Str)
  | [] => []
  | [last] => [dropAmpersand last]
  | ws :: rest => ws :: jobsOf rest

def jobs (line : Str) : List (List Str) := jobsOf ((sides line).map (words ' '))

/-- A line of one or two sides, each of which begins with the name of an external command. -/
structure Plain (line : Str) : Prop where
  length : line.length < MAX_BUFFER_SIZE
  nul : NUL ∉ line
  spaces : ∀ c ∈ line, isspace c → c = ' '
  bars : (sides line).length ≤ 2
  external : ∀ side ∈ sides line, ∃ name args, words ' ' side = name :: args ∧ (name, false) ∈ commands
  count : ∀ side ∈ sides line, (words ' ' side).length ≤ 62

/-! ## What a line comes to -/

/-- The line has come to these processes and these waits: each process has the words of its side, the first
    one is in the foreground unless the line ends in `"&"`, and if no call fails there is one for each side
    and they are waited for unless the line ends in `"&"`. -/
structure SplitRight (os : Answers) (line : Str) (started : List (List (Option Str) × Bool))
    (waits : List Int) : Prop where
  argvs : started.map Prod.fst <+: (jobs line).map (List.map some)
  all : os.Succeed → started.map Prod.fst = (jobs line).map (List.map some)
  foreground : ∀ job ∈ started.head?, job.2 = !background line
  waits : os.Succeed → (waits = [] ↔ background line = true)

/-- Nothing between two words of a side but one space. -/
def SingleSpaced (line : Str) : Prop := ∀ side ∈ sides line, ¬ [' ', ' '] <:+: trim side

/-- No side of a `'|'` ends in `"&"`. -/
def NoPipedAmpersand (line : Str) : Prop :=
  (sides line).length = 2 → ∀ side ∈ sides line, (words ' ' side).getLast? ≠ some ['&']

/-! ## The execution of parsed commands -/

section Execution

variable {os : Answers} {q : Nat} {s : Shell}

/-- The final `"&"` is found and taken away. -/
theorem takeAmpersand_spec {c : ParsedCommand} {texts : List Str} (h : Reads s c texts)
    (hnil : texts ≠ []) (hnul : ∀ t ∈ texts, NUL ∉ t) :
    (s.takeAmpersand c).1 = decide (texts.getLast? = some ['&']) ∧
      Quiet q s (s.takeAmpersand c).2.2 ∧
      Reads (s.takeAmpersand c).2.2 (s.takeAmpersand c).2.1 (dropAmpersand texts) ∧
      (s.takeAmpersand c).2.1.isBuiltIn = c.isBuiltIn := by
  obtain ⟨init, last, rfl⟩ : ∃ init last, texts = init ++ [last] :=
    ⟨_, _, (List.dropLast_concat_getLast hnil).symm⟩
  have hargc : c.argc = init.length + 1 := by rw [h.argc, List.length_append, List.length_singleton]
  obtain ⟨b, hb, hlt, htext⟩ := h.argv init.length last (by simp)
  have hcmp : strcmp (s.text b) ['&'] = 0 ↔ last = ['&'] := by
    rw [htext]
    exact (strcmp_eq_zero (hnul last (by simp)) (by decide) []).1
  unfold takeAmpersand dropAmpersand
  rw [hargc, Nat.add_sub_cancel, hb]
  simp only [List.getLast?_append, List.getLast?_singleton, Option.some_or, Option.some.injEq]
  by_cases hamp : last = ['&']
  · rw [if_pos ⟨Nat.succ_pos _, hcmp.mpr hamp⟩, if_pos hamp, List.dropLast_concat]
    have hfree : Quiet q s (s.free (some b)) := .free _
    refine ⟨by simp [hamp], hfree, ⟨rfl, fun i t hi => ?_⟩, rfl⟩
    have hi' : i < init.length := (List.getElem?_eq_some_iff.mp hi).1
    obtain ⟨d, hd, hdlt, hdtext⟩ := h.argv i t (by rwa [List.getElem?_append_left hi'])
    refine ⟨d, ?_, Nat.lt_succ_of_lt hdlt, hdtext⟩
    show Function.update c.argv init.length none i = some d
    rwa [Function.update_of_ne (Nat.ne_of_lt hi')]
  · rw [if_neg fun hcond => hamp (hcmp.mp hcond.2), if_neg hamp]
    exact ⟨by simp [hamp], .refl s, h, rfl⟩

theorem updateShellFdTargets_quiet (read write error : Nat) :
    Quiet q s (s.updateShellFdTargets os read write error).2 ∧
      (os.Succeed → (s.updateShellFdTargets os read write error).1 = true) := by
  have hrecord : Quiet q s (s.record (.setFdTargets read write error (os.setFdTargets s.log.length))) :=
    .record (.setFdTargets read write error _)
  unfold updateShellFdTargets call
  dsimp only
  split
  · exact ⟨⟨hrecord.grows, hrecord.created, hrecord.waited, hrecord.text, hrecord.buffer⟩, fun _ => rfl⟩
  · next hne => exact ⟨hrecord, fun hall => absurd (hall.setFdTargets _) hne⟩

theorem processCreate_starts {c : ParsedCommand} {texts : List Str} (h : Reads s c texts)
    (foreground : Bool) : Starts q [(texts.map some, foreground)] [] s (s.processCreate os c foreground).2 := by
  rw [← h.argvTexts]
  exact .record (.processCreate c.function (s.argvTexts c) foreground _)

theorem processWaitPid_starts (pid : Int) : Starts q [] [pid] s (s.processWaitPid os pid) :=
  .record (.processWaitPid pid _)

/-- The calls of `processCreate` for these `argv` lists: the first process is in the foreground unless the line
    runs in the background, the second one never is. -/
def planned (background : Bool) : List (List Str) → List (List (Option Str) × Bool)
  | [] => []
  | first :: rest => (first.map some, !background) :: rest.map (fun argv => (argv.map some, false))

/-- Processes have been created for a part of `argvs`, for all of it if no call fails, and waited for unless
    they are in the background. -/
def Executes (os : Answers) (q : Nat) (argvs : List (List Str)) (background : Bool) (s s' : Shell) : Prop :=
  ∃ started pids, Starts q started pids s s' ∧ started <+: planned background argvs ∧
    (os.Succeed → started = planned background argvs ∧ (pids = [] ↔ background = true))

theorem Executes.between {argvs : List (List Str)} {background : Bool} {s s1 s2 s3 : Shell}
    (hbefore : Quiet q s s1) (h : Executes os q argvs background s1 s2) (hbehind : Quiet q s2 s3) :
    Executes os q argvs background s s3 := by
  obtain ⟨started, pids, hstarts, hrest⟩ := h
  have hall := (hbefore.trans hstarts).trans hbehind
  rw [List.nil_append, List.nil_append, List.append_nil, List.append_nil] at hall
  exact ⟨started, pids, hall, hrest⟩

theorem executeSingle_spec {c : ParsedCommand} {texts : List Str} (h : Reads s c texts) (background : Bool) :
    Executes os q [texts] background s (s.executeSingle os c background) := by
  have hcreate := @processCreate_starts os q s c texts h (!background)
  unfold executeSingle
  dsimp only
  split
  · next hneg =>
    exact ⟨_, _, hcreate, List.prefix_refl _, fun hall => absurd hneg (Int.not_lt.mpr (hall.processCreate _))⟩
  · cases background with
    | true => exact ⟨_, _, hcreate, List.prefix_refl _, fun _ => ⟨rfl, by simp⟩⟩
    | false => exact ⟨_, _, hcreate.trans (processWaitPid_starts _), List.prefix_refl _, fun _ => ⟨rfl, by simp⟩⟩

theorem executePipe_spec {left right : ParsedCommand} {leftTexts rightTexts : List Str}
    (hleft : Reads s left leftTexts) (hright : Reads s right rightTexts) (background : Bool) :
    Executes os q [leftTexts, rightTexts] background s (s.executePipe os left right background) := by
  unfold executePipe
  dsimp only
  set targets := s.fdTargets
  have hpipe : Quiet q s (s.call os.openPipe .openPipe).2 := .record (.openPipe _)
  split
  · next hneg =>
    exact ⟨_, _, hpipe, List.nil_prefix, fun hall => absurd hneg (Int.not_lt.mpr (hall.openPipe _))⟩
  set pipe := s.call os.openPipe .openPipe
  obtain ⟨hwriter, hwriterOk⟩ := @updateShellFdTargets_quiet os q pipe.2 targets.1 (pipe.1.toNat % 256)
    targets.2.2
  split
  · next hfailed =>
    exact ⟨_, _, (hpipe.trans hwriter).trans (updateShellFdTargets_quiet ..).1, List.nil_prefix,
      fun hall => absurd (hwriterOk hall) hfailed⟩
  set writer := pipe.2.updateShellFdTargets os targets.1 (pipe.1.toNat % 256) targets.2.2
  have hcreate := ((hpipe.trans hwriter).trans (@processCreate_starts os q _ _ _
    (hleft.later (hpipe.trans hwriter)) (!background))).trans
    (@updateShellFdTargets_quiet os q _ targets.1 targets.2.1 targets.2.2).1
  set create := writer.2.processCreate os left (!background)
  set s1 := (create.2.updateShellFdTargets os targets.1 targets.2.1 targets.2.2).2
  have hone : [(leftTexts.map some, !background)] <+: planned background [leftTexts, rightTexts] := by
    simp [planned]
  split
  · next hneg =>
    exact ⟨_, _, hcreate, hone, fun hall => absurd hneg (Int.not_lt.mpr (hall.processCreate _))⟩
  obtain ⟨hreader, hreaderOk⟩ := @updateShellFdTargets_quiet os q s1 (pipe.1.toNat % 256) targets.2.1
    targets.2.2
  split
  · next hfailed =>
    exact ⟨_, _, (hcreate.trans hreader).trans (updateShellFdTargets_quiet ..).1, hone,
      fun hall => absurd (hreaderOk hall) hfailed⟩
  set reader := s1.updateShellFdTargets os (pipe.1.toNat % 256) targets.2.1 targets.2.2
  have hboth := ((hcreate.trans hreader).trans (@processCreate_starts os q _ _ _
    (hright.later (hcreate.trans hreader)) false)).trans
    (@updateShellFdTargets_quiet os q _ targets.1 targets.2.1 targets.2.2).1
  split
  · next hneg =>
    exact ⟨_, _, hboth, List.prefix_refl _, fun hall => absurd hneg (Int.not_lt.mpr (hall.processCreate _))⟩
  cases background with
  | true => exact ⟨_, _, hboth, List.prefix_refl _, fun _ => ⟨rfl, by simp⟩⟩
  | false =>
      exact ⟨_, _, (hboth.trans (processWaitPid_starts _)).trans (processWaitPid_starts _),
        List.prefix_refl _, fun _ => ⟨rfl, by simp⟩⟩

/-- **`executeParsedCommands`** of a single command. -/
theorem executeParsedCommands_single {c : ParsedCommand} {texts : List Str} (h : Reads s c texts)
    (hbuiltIn : c.isBuiltIn = false) (hnil : texts ≠ []) (hnul : ∀ t ∈ texts, NUL ∉ t) :
    Executes os q [dropAmpersand texts] (decide (texts.getLast? = some ['&'])) s
      (s.executeParsedCommands os [c]).2 := by
  obtain ⟨hfound, hquiet, hreads, -⟩ := @takeAmpersand_spec q s c texts h hnil hnul
  have hexec := @executeSingle_spec os q _ _ _ hreads (s.takeAmpersand c).1
  rw [hfound] at hexec
  simp only [executeParsedCommands, hbuiltIn, Bool.false_eq_true, and_false, if_false, hfound]
  exact .between hquiet hexec (.refl _)

/-- **`executeParsedCommands`** of two commands. -/
theorem executeParsedCommands_pipe {left right : ParsedCommand} {leftTexts rightTexts : List Str}
    (hleft : Reads s left leftTexts) (hright : Reads s right rightTexts) (hl : left.isBuiltIn = false)
    (hr : right.isBuiltIn = false) (hnil : leftTexts ≠ []) (hnul : ∀ t ∈ leftTexts, NUL ∉ t) :
    Executes os q [dropAmpersand leftTexts, rightTexts] (decide (leftTexts.getLast? = some ['&'])) s
      (s.executeParsedCommands os [left, right]).2 := by
  obtain ⟨hfound, hquiet, hreads, hbuiltIn⟩ := @takeAmpersand_spec q s left leftTexts hleft hnil hnul
  have hexec := @executePipe_spec os q _ _ _ _ _ hreads (hright.later hquiet) (s.takeAmpersand left).1
  rw [hfound] at hexec
  simp only [executeParsedCommands, List.cons_ne_nil, false_and, if_false, List.any_cons, List.any_nil,
    hbuiltIn, hl, hr, Bool.or_self, Bool.false_eq_true, hfound]
  exact .between hquiet hexec (.refl _)

end Execution

/-! ## The sides of a line -/

/-- There is one side, or two. -/
theorem Plain.cases {line : Str} (h : Plain line) :
    ('|' ∉ line ∧ sides line = [line]) ∨
      ∃ left right, line = left ++ '|' :: right ∧ '|' ∉ left ∧ '|' ∉ right ∧ sides line = [left, right] := by
  by_cases hbar : '|' ∈ line
  · obtain ⟨left, right, rfl, hleft⟩ := List.eq_append_cons_of_mem hbar
    have hsides : sides (left ++ '|' :: right) = left :: sides right :=
      List.splitOn_append_cons_self_of_not_mem hleft right
    have hright : '|' ∉ right := by
      intro hmem
      obtain ⟨l, r, rfl, hl⟩ := List.eq_append_cons_of_mem hmem
      have hsides' : sides (l ++ '|' :: r) = l :: sides r :=
        List.splitOn_append_cons_self_of_not_mem hl r
      have hbars := h.bars
      have hpos := List.length_pos_of_ne_nil (List.splitOn_ne_nil '|' r)
      rw [hsides, hsides', List.length_cons, List.length_cons] at hbars
      change 0 < (sides r).length at hpos
      omega
    refine .inr ⟨left, right, rfl, hleft, hright, ?_⟩
    rw [hsides, sides, List.splitOn_eq_singleton hright]
  · exact .inl ⟨hbar, List.splitOn_eq_singleton hbar⟩

/-- What the shell makes of a side. -/
structure Side (side : Str) : Prop where
  trimmed : words ' ' (trim side) = words ' ' side
  nil : trim side ≠ []
  bar : '|' ∉ trim side
  nul : NUL ∉ trim side
  named : ∃ name args, fields (trim side) = name :: args ∧ (name, false) ∈ commands

theorem fields_of_ne_nil {u : Str} (hu : u ≠ []) : fields u = u.splitOn ' ' := if_neg hu

theorem Plain.side {line side : Str} (h : Plain line) (hside : side ∈ sides line) : Side side := by
  have hmem : ∀ c ∈ side, c ∈ line := fun c hc => mem_of_mem_splitOn hside hc
  have hspaces : ∀ c ∈ side, isspace c → c = ' ' := fun c hc => h.spaces c (hmem c hc)
  have hwords : words ' ' (trim side) = words ' ' side := by
    rw [trim, words_rdropWhile fun c hc => hspaces c ((List.dropWhile_sublist _).mem hc),
      words_dropWhile hspaces]
  obtain ⟨name, args, hname, hknown⟩ := h.external side hside
  have hnil : trim side ≠ [] := by
    intro hnil
    rw [← hwords, hnil] at hname
    cases hname
  refine ⟨hwords, hnil, fun hbar => ?_, fun hnul => h.nul (hmem _ (mem_of_mem_trim hnul)), ?_⟩
  · have hbar' : '|' ∈ side := mem_of_mem_trim hbar
    rcases h.cases with ⟨hno, hone⟩ | ⟨left, right, -, hleft, hright, htwo⟩
    · rw [hone, List.mem_singleton] at hside
      exact hno (hside ▸ hbar')
    · rw [htwo] at hside
      rcases List.mem_cons.mp hside with rfl | hside
      · exact hleft hbar'
      · rw [List.mem_singleton] at hside
        exact hright (hside ▸ hbar')
  · obtain ⟨w, ws, hws⟩ := List.exists_cons_of_ne_nil (List.splitOn_ne_nil ' ' (trim side))
    -- a trimmed string does not begin with a space, so its first field is its first word
    have hw : w ≠ [] := by
      rw [Ne, splitOn_head_eq_nil hws]
      rintro (hempty | ⟨t, ht⟩)
      · exact hnil hempty
      · exact trim_head side t ht
    rw [← hwords, words, hws, List.filter_cons_of_pos (by simpa using hw)] at hname
    obtain ⟨rfl, -⟩ := List.cons.inj hname
    exact ⟨w, ws, (fields_of_ne_nil hnil).trans hws, hknown⟩

/-- The strings the shell puts into `argv` for a side. -/
def argvOf (side : Str) : List Str := (fields (trim side)).take (MAX_ARGUMENT_COUNT - 1)

/-! ## The line -/

/-- The commands have been parsed into `texts`, none of them built in, or a `malloc` has failed. -/
def ParsesLine (os : Answers) (q : Nat) (s : Shell) (texts : List (List Str))
    (r : Bool × List ParsedCommand × Shell) : Prop :=
  Quiet q s r.2.2 ∧
    (r.1 = false ∧ List.Forall₂ (fun c t => Reads r.2.2 c t ∧ c.isBuiltIn = false) r.2.1 texts ∨
      r.1 = true ∧ ¬ os.Succeed)

variable {os : Answers} {q : Nat} {s : Shell}

theorem parseLine_single {line : Str} (hside : Side line) (hbar : '|' ∉ line)
    (hat : At NUL s.buffer 0 line) (hq : line.length < q) :
    ParsesLine os q s [argvOf line] (s.parseLine os) := by
  have hsplit : s.splitPipe = (none, false, s) := by
    have hnone := strchr_absent hat hbar 0
    rw [List.drop_zero] at hnone
    unfold splitPipe
    rw [hnone]
  obtain ⟨htrim, hquiet, -, hlen, -⟩ := @trimWhitespace_at _ 0 q line hat (by omega)
  obtain ⟨name, args, hname, hknown⟩ := hside.named
  have hparse := parseCommand_spec os q htrim hside.nil (trim_getLast line) hside.bar hname hknown (by omega)
  unfold parseLine
  simp only [hsplit, trimSecond, Bool.false_eq_true, if_false]
  rw [if_neg (by rw [from_, head_at htrim]; exact hside.nil)]
  obtain ⟨hquiet', ⟨hret, hreads, hbuiltIn⟩ | ⟨hret, hfailed⟩⟩ := hparse
  · rw [if_neg (by rw [hret]; decide)]
    exact ⟨hquiet.trans hquiet', .inl ⟨rfl, .cons ⟨hreads, hbuiltIn⟩ .nil⟩⟩
  · rw [if_pos hret]
    exact ⟨hquiet.trans hquiet', .inr ⟨rfl, hfailed⟩⟩

theorem parseLine_pipe {left right : Str} (hleft : Side left) (hright : Side right) (hbarl : '|' ∉ left)
    (hbarr : '|' ∉ right) (hat : At NUL s.buffer 0 (left ++ '|' :: right))
    (hq : (left ++ '|' :: right).length < q) :
    ParsesLine os q s [argvOf left, argvOf right] (s.parseLine os) := by
  rw [List.length_append, List.length_cons] at hq
  have hcutl : At NUL (s.cut left.length).buffer 0 left := by
    have h := hat.truncate
    rwa [Nat.zero_add] at h
  have hcutr : At NUL (s.cut left.length).buffer (left.length + 1) right := by
    have h := hat.cut
    rwa [Nat.zero_add] at h
  -- the bar becomes a NUL, so both sides are strings of their own in the one buffer
  have hsplit : s.splitPipe = (some (left.length + 1), false, s.cut left.length) := by
    have hfound := strchr_found hat hbarl 0
    rw [List.drop_zero, Nat.zero_add] at hfound
    unfold splitPipe
    rw [hfound]
    simp only [from_, strchr_absent hcutr hbarr, Option.isSome_none]
  have hquiet0 : Quiet q s (s.cut left.length) := .cut (by omega) s.last
  obtain ⟨htriml, hquiet1, -, hlenl, -⟩ := @trimWhitespace_at _ 0 (left.length + 1) left hcutl (by omega)
  have hat1 := hquiet1.at_ hcutr
  obtain ⟨htrimr, hquiet2, hler, hlenr, hbefore⟩ := @trimWhitespace_at _ _ q right hat1 (by omega)
  have htriml2 := hbefore _ _ htriml (by omega)
  set first := (s.cut left.length).trimWhitespace 0
  set second := first.2.trimWhitespace (left.length + 1)
  obtain ⟨name, args, hname, hknown⟩ := hleft.named
  have hparse := parseCommand_spec os (left.length + 1) htriml2 hleft.nil (trim_getLast left) hleft.bar
    hname hknown (by omega)
  unfold parseLine
  simp only [hsplit, trimSecond, Bool.false_eq_true, if_false]
  rw [if_neg (by rw [from_, head_at htriml2]; exact hleft.nil)]
  have hquiet : Quiet q s second.2 :=
    (hquiet0.trans (hquiet1.mono (by omega))).trans hquiet2
  obtain ⟨hquiet3, ⟨hret, hreads, hbuiltIn⟩ | ⟨hret, hfailed⟩⟩ := hparse
  swap
  · rw [if_pos hret]
    exact ⟨hquiet.trans (hquiet3.mono (by omega)), .inr ⟨rfl, hfailed⟩⟩
  rw [if_neg (by rw [hret]; decide)]
  have htrimr3 := (hquiet3.mono hler).at_ htrimr
  rw [if_neg (by rw [from_, head_at htrimr3]; exact hright.nil)]
  obtain ⟨name', args', hname', hknown'⟩ := hright.named
  obtain ⟨hquiet4, ⟨hret', hreads', hbuiltIn'⟩ | ⟨hret', hfailed⟩⟩ := parseCommand_spec os q htrimr3 hright.nil
    (trim_getLast right) hright.bar hname' hknown' (by omega)
  · rw [if_neg (by rw [hret']; decide)]
    exact ⟨(hquiet.trans (hquiet3.mono (by omega))).trans hquiet4,
      .inl ⟨rfl, .cons ⟨hreads.later hquiet4, hbuiltIn⟩ (.cons ⟨hreads', hbuiltIn'⟩ .nil)⟩⟩
  · rw [if_pos hret']
    exact ⟨(hquiet.trans (hquiet3.mono (by omega))).trans hquiet4, .inr ⟨rfl, hfailed⟩⟩

/-! ## What the line comes to -/

/-- The `argv` lists of the processes the shell creates if no call fails. -/
def codeJobs (line : Str) : List (List Str) :=
  match sides line with
  | [] => []
  | first :: rest => dropAmpersand (argvOf first) :: rest.map argvOf

/-- `run_in_background`. -/
def codeBackground (line : Str) : Bool :=
  decide ((sides line).head?.bind (fun side => (argvOf side).getLast?) = some ['&'])

theorem argvOf_ne_nil {side : Str} (h : Side side) : argvOf side ≠ [] := by
  obtain ⟨name, args, hname, -⟩ := h.named
  rw [argvOf, hname]
  exact List.cons_ne_nil _ _

theorem nul_of_mem_argvOf {side t : Str} (h : Side side) (ht : t ∈ argvOf side) : NUL ∉ t := by
  intro hnul
  have hmem := List.mem_of_mem_take ht
  rw [fields_of_ne_nil h.nil] at hmem
  exact h.nul (mem_of_mem_splitOn hmem hnul)

/-- The line is read from the buffer, whatever comes behind it there. -/
theorem Plain.at_ {line : Str} (h : Plain line) (hlen : s.buffer.length = MAX_BUFFER_SIZE)
    (hline : line <+: s.buffer) : At NUL (s.cut line.length).buffer 0 line := by
  obtain ⟨rest, hrest⟩ := hline
  have hpos : rest ≠ [] := by
    rintro rfl
    rw [List.append_nil] at hrest
    rw [← hrest] at hlen
    exact absurd h.length (Nat.not_lt.mpr (Nat.le_of_eq hlen.symm))
  obtain ⟨c, rest, rfl⟩ := List.exists_cons_of_ne_nil hpos
  refine ⟨rest, ?_, h.nul⟩
  show (s.buffer.set line.length NUL).drop 0 = _
  rw [← hrest, List.drop_zero, List.set_append_right _ _ (Nat.le_refl _), Nat.sub_self]
  rfl

/-- **What the shell does with a line.** -/
theorem runLine_spec {line : Str} (h : Plain line) (hlen : s.buffer.length = MAX_BUFFER_SIZE)
    (hline : line <+: s.buffer) :
    Executes os (line.length + 1) (codeJobs line) (codeBackground line) s (s.runLine os line.length) := by
  set q := line.length + 1
  have hcut : Quiet q s (s.cut line.length) := .cut (Nat.lt_succ_self _) s.last
  have hat := h.at_ hlen hline
  set r := (s.cut line.length).parseLine os with hr
  -- whatever has been executed, the blocks are freed and the buffer is emptied
  have hend : ∀ (s1 : Shell) cs, Quiet q s1 ((s1.freeParsedCommands cs).cut 0) := fun s1 cs =>
    (Starts.freeParsedCommands cs).trans (.cut (Nat.succ_pos _) _)
  have hfail : Quiet q (s.cut line.length) r.2.2 → r.1 = true → ¬ os.Succeed →
      Executes os q (codeJobs line) (codeBackground line) s (s.runLine os line.length) := by
    intro hquiet htrue hfailed
    unfold runLine
    simp only [← hr, htrue, if_true]
    exact ⟨_, _, (hcut.trans hquiet).trans (hend _ _), List.nil_prefix, fun hall => absurd hall hfailed⟩
  have hdone : Quiet q (s.cut line.length) r.2.2 → r.1 = false →
      Executes os q (codeJobs line) (codeBackground line) r.2.2 (r.2.2.executeParsedCommands os r.2.1).2 →
      Executes os q (codeJobs line) (codeBackground line) s (s.runLine os line.length) := by
    intro hquiet hfalse hexec
    unfold runLine
    simp only [← hr, hfalse, Bool.false_eq_true, if_false]
    exact .between (hcut.trans hquiet) hexec (hend _ _)
  rcases h.cases with ⟨hbar, hone⟩ | ⟨left, right, hlr, hbarl, hbarr, htwo⟩
  · have hside := h.side (by rw [hone]; exact List.mem_singleton.mpr rfl)
    obtain ⟨hquiet, ⟨hfalse, hcommands⟩ | ⟨htrue, hfailed⟩⟩ :=
      @parseLine_single os q _ line hside hbar hat (Nat.lt_succ_self _)
    · refine hdone hquiet hfalse ?_
      rw [← hr] at hcommands
      simp only [codeJobs, codeBackground, hone, List.map_nil, List.head?_cons, Option.bind_some]
      cases hcs : r.2.1 with
      | nil => rw [hcs] at hcommands; cases hcommands
      | cons c cs =>
          rw [hcs] at hcommands
          obtain ⟨⟨hreads, hbuiltIn⟩, hnil⟩ := List.forall₂_cons.mp hcommands
          obtain rfl : cs = [] := List.forall₂_nil_right_iff.mp hnil
          exact executeParsedCommands_single hreads hbuiltIn (argvOf_ne_nil hside)
            fun t ht => nul_of_mem_argvOf hside ht
    · exact hfail hquiet htrue hfailed
  · have hleft := h.side (by rw [htwo]; exact List.mem_cons_self)
    have hright := h.side (show right ∈ sides line by rw [htwo]; simp)
    obtain ⟨hquiet, ⟨hfalse, hcommands⟩ | ⟨htrue, hfailed⟩⟩ :=
      @parseLine_pipe os q (s.cut line.length) left right hleft hright hbarl hbarr (hlr ▸ hat)
        (by rw [← hlr]; exact Nat.lt_succ_self _)
    · refine hdone hquiet hfalse ?_
      rw [← hr] at hcommands
      simp only [codeJobs, codeBackground, htwo, List.map_cons, List.map_nil, List.head?_cons,
        Option.bind_some]
      cases hcs : r.2.1 with
      | nil => rw [hcs] at hcommands; cases hcommands
      | cons c cs =>
          rw [hcs] at hcommands
          obtain ⟨⟨hreads, hbuiltIn⟩, htail⟩ := List.forall₂_cons.mp hcommands
          cases cs with
          | nil => cases htail
          | cons c' cs =>
              obtain ⟨⟨hreads', hbuiltIn'⟩, hnil⟩ := List.forall₂_cons.mp htail
              obtain rfl : cs = [] := List.forall₂_nil_right_iff.mp hnil
              exact executeParsedCommands_pipe hreads hreads' hbuiltIn hbuiltIn' (argvOf_ne_nil hleft)
                fun t ht => nul_of_mem_argvOf hleft ht
    · exact hfail hquiet htrue hfailed

/-! ## Where that is what was asked -/

theorem dropAmpersand_sublist (ws : List Str) : (dropAmpersand ws).Sublist ws := by
  unfold dropAmpersand
  split
  · exact List.dropLast_sublist ws
  · exact .refl ws

theorem nil_mem_dropAmpersand {ws : List Str} (h : [] ∈ ws) : [] ∈ dropAmpersand ws := by
  unfold dropAmpersand
  split
  · next hlast =>
    have hne : ws ≠ [] := List.ne_nil_of_mem h
    rw [List.getLast?_eq_some_getLast hne] at hlast
    rw [← List.dropLast_concat_getLast hne, Option.some.inj hlast] at h
    simpa using h
  · exact h

theorem dropAmpersand_eq_self_iff {ws : List Str} : dropAmpersand ws = ws ↔ ws.getLast? ≠ some ['&'] := by
  constructor
  · intro h hlast
    rw [dropAmpersand, if_pos hlast] at h
    have hlen := congrArg List.length h
    have hpos : ws ≠ [] := by
      rintro rfl
      cases hlast
    have hpos' := List.length_pos_of_ne_nil hpos
    rw [List.length_dropLast] at hlen
    omega
  · exact fun h => if_neg h

theorem nil_notMem_words (side : Str) : [] ∉ words ' ' side := fun h => ne_nil_of_mem_words h rfl

/-- An empty field comes from two spaces in a row. -/
theorem Side.nil_mem_fields {side : Str} (h : Side side) :
    [] ∈ fields (trim side) ↔ [' ', ' '] <:+: trim side := by
  obtain ⟨w, ws, hws⟩ := List.exists_cons_of_ne_nil (List.splitOn_ne_nil ' ' (trim side))
  have hw : [] ≠ w := by
    rw [Ne, eq_comm, splitOn_head_eq_nil hws]
    rintro (hempty | ⟨t, ht⟩)
    · exact h.nil hempty
    · exact trim_head side t ht
  have htail := @nil_mem_splitOn_tail _ (trim side) _ ' '
  rw [hws, List.tail_cons, or_iff_left (trim_getLast side)] at htail
  rw [fields_of_ne_nil h.nil, hws, List.mem_cons, or_iff_right hw, htail]

/-- `MAX_ARGUMENT_COUNT` does not cut it off. -/
theorem Side.nil_mem_argvOf {side : Str} (h : Side side) (hcount : (words ' ' side).length ≤ 62)
    (hmem : [] ∈ fields (trim side)) : [] ∈ argvOf side := by
  obtain ⟨init, rest, hfields, hinit⟩ := List.eq_append_cons_of_mem hmem
  have hfilter : init.filter (fun w => !w.isEmpty) = init := by
    refine List.filter_eq_self.mpr fun w hw => ?_
    cases w with
    | nil => exact absurd hw hinit
    | cons c w => rfl
  have hle : init.length ≤ 62 := by
    refine Nat.le_trans ?_ hcount
    rw [← h.trimmed, words, ← fields_of_ne_nil h.nil, hfields, List.filter_append, hfilter,
      List.length_append]
    exact Nat.le_add_right _ _
  have hlt : init.length < MAX_ARGUMENT_COUNT - 1 := Nat.lt_succ_of_le hle
  obtain ⟨n, hn⟩ : ∃ n, MAX_ARGUMENT_COUNT - 1 - init.length = n + 1 :=
    Nat.exists_eq_succ_of_ne_zero (Nat.sub_ne_zero_of_lt hlt)
  rw [argvOf, hfields, List.take_append, hn, List.take_succ_cons]
  exact List.mem_append_right _ List.mem_cons_self

/-- Without two spaces in a row the fields are the words. -/
theorem Side.argvOf_eq {side : Str} (h : Side side) (hcount : (words ' ' side).length ≤ 62)
    (hspaces : ¬ [' ', ' '] <:+: trim side) : argvOf side = words ' ' side := by
  have hfields : fields (trim side) = words ' ' side := by
    rw [← h.nil_mem_fields, fields_of_ne_nil h.nil] at hspaces
    rw [fields_of_ne_nil h.nil, splitOn_eq_words_iff.mpr hspaces, h.trimmed]
  rw [argvOf, hfields]
  exact List.take_of_length_le (Nat.le_succ_of_le hcount)

/-- `argv` without empty arguments. -/
theorem Side.single_of_notMem {side : Str} (h : Side side) (hcount : (words ' ' side).length ≤ 62)
    (hmem : [] ∉ argvOf side) : ¬ [' ', ' '] <:+: trim side := by
  intro hspaces
  exact hmem (h.nil_mem_argvOf hcount (h.nil_mem_fields.mpr hspaces))

/-- **The condition is exact**: the shell means to create the right processes exactly where it holds. -/
theorem codeJobs_eq_iff {line : Str} (h : Plain line) :
    codeJobs line = jobs line ↔ SingleSpaced line ∧ NoPipedAmpersand line := by
  rcases h.cases with ⟨-, hone⟩ | ⟨left, right, -, -, -, htwo⟩
  · have hmem : line ∈ sides line := by rw [hone]; exact List.mem_singleton.mpr rfl
    have hside := h.side hmem
    simp only [codeJobs, jobs, jobsOf, SingleSpaced, NoPipedAmpersand, hone, List.map_nil, List.map_cons,
      List.cons.injEq, and_true, List.mem_singleton, forall_eq, List.length_singleton]
    constructor
    · intro heq
      refine ⟨hside.single_of_notMem (h.count _ hmem) fun hnil => ?_, fun htwo => absurd htwo (by decide)⟩
      have hdrop := nil_mem_dropAmpersand hnil
      rw [heq] at hdrop
      exact nil_notMem_words line ((dropAmpersand_sublist _).mem hdrop)
    · exact fun hcond => by rw [hside.argvOf_eq (h.count _ hmem) hcond.1]
  · have hmeml : left ∈ sides line := by rw [htwo]; exact List.mem_cons_self
    have hmemr : right ∈ sides line := by rw [htwo]; simp
    have hleft := h.side hmeml
    have hright := h.side hmemr
    have hcountl := h.count left hmeml
    have hcountr := h.count right hmemr
    simp only [codeJobs, jobs, jobsOf, SingleSpaced, NoPipedAmpersand, htwo, List.map_nil, List.map_cons,
      List.cons.injEq, and_true, List.length_cons, List.length_nil, List.mem_cons, List.not_mem_nil,
      or_false, forall_eq_or_imp, forall_eq, forall_const]
    constructor
    · rintro ⟨heql, heqr⟩
      have hspl : ¬ [' ', ' '] <:+: trim left := hleft.single_of_notMem hcountl fun hnil => by
        have hdrop := nil_mem_dropAmpersand hnil
        rw [heql] at hdrop
        exact nil_notMem_words left hdrop
      have hspr : ¬ [' ', ' '] <:+: trim right := hright.single_of_notMem hcountr fun hnil => by
        rw [heqr] at hnil
        exact nil_notMem_words right ((dropAmpersand_sublist _).mem hnil)
      rw [hleft.argvOf_eq hcountl hspl] at heql
      rw [hright.argvOf_eq hcountr hspr] at heqr
      exact ⟨⟨hspl, hspr⟩, dropAmpersand_eq_self_iff.mp heql, dropAmpersand_eq_self_iff.mp heqr.symm⟩
    · rintro ⟨⟨hspl, hspr⟩, hampl, hampr⟩
      rw [hleft.argvOf_eq hcountl hspl, hright.argvOf_eq hcountr hspr,
        dropAmpersand_eq_self_iff.mpr hampl, dropAmpersand_eq_self_iff.mpr hampr]
      exact ⟨rfl, rfl⟩

theorem codeBackground_eq {line : Str} (h : Plain line) (hsingle : SingleSpaced line)
    (hpipe : NoPipedAmpersand line) : codeBackground line = background line := by
  rcases h.cases with ⟨-, hone⟩ | ⟨left, right, -, -, -, htwo⟩
  · have hmem : line ∈ sides line := by rw [hone]; exact List.mem_singleton.mpr rfl
    have hargv := (h.side hmem).argvOf_eq (h.count _ hmem) (hsingle _ hmem)
    simp only [codeBackground, background, hone, List.head?_cons, List.getLast?_singleton,
      Option.bind_some, hargv]
  · have hmeml : left ∈ sides line := by rw [htwo]; exact List.mem_cons_self
    have hmemr : right ∈ sides line := by rw [htwo]; simp
    have hargv := (h.side hmeml).argvOf_eq (h.count _ hmeml) (hsingle _ hmeml)
    have hno := hpipe (by rw [htwo]; rfl)
    simp only [codeBackground, background, htwo, List.head?_cons, List.getLast?_cons_cons,
      List.getLast?_singleton, Option.bind_some, hargv, decide_eq_false (hno left hmeml),
      decide_eq_false (hno right hmemr)]

/-! ## The claim about a line -/

/-- The processes created from `s` to `s'`, and those waited for. -/
def startedBy (s s' : Shell) : List (List (Option Str) × Bool) := s'.created.drop s.created.length

def waitedBy (s s' : Shell) : List Int := s'.waited.drop s.waited.length

/-- Whatever the calls return, the line comes to what was asked. -/
def SplitsRight (line : Str) : Prop :=
  ∀ (os : Answers) (s : Shell), s.buffer.length = MAX_BUFFER_SIZE → line <+: s.buffer →
    SplitRight os line (startedBy s (s.runLine os line.length)) (waitedBy s (s.runLine os line.length))

theorem planned_fst (b : Bool) (argvs : List (List Str)) :
    (planned b argvs).map Prod.fst = argvs.map (List.map some) := by
  cases argvs with
  | nil => rfl
  | cons first rest => simp [planned, Function.comp_def]

/-- Answers with which no call fails. -/
def allSucceed : Answers where
  malloc _ := true
  openPipe _ := 3
  setFdTargets _ := 0
  processCreate _ := 3
  processWaitPid _ := 0

theorem allSucceed_succeed : allSucceed.Succeed :=
  ⟨fun _ => rfl, fun _ => show (0 : Int) ≤ 3 by decide, fun _ => rfl, fun _ => show (0 : Int) ≤ 3 by decide⟩

/-- **The shell splits a line as asked exactly if** nothing but single spaces separates the words of a side and
    no side of a pipe ends in `"&"`. -/
theorem splits_right_iff {line : Str} (h : Plain line) :
    SplitsRight line ↔ SingleSpaced line ∧ NoPipedAmpersand line := by
  rw [← codeJobs_eq_iff h]
  constructor
  · intro hall
    set s : Shell := { buffer := line ++ List.replicate (MAX_BUFFER_SIZE - line.length) NUL } with hs
    have hlen : s.buffer.length = MAX_BUFFER_SIZE := by
      rw [hs, List.length_append, List.length_replicate]
      exact Nat.add_sub_cancel' (Nat.le_of_lt h.length)
    have hline : line <+: s.buffer := ⟨_, rfl⟩
    obtain ⟨started, pids, hstarts, -, hsucceed⟩ := @runLine_spec allSucceed s line h hlen hline
    have hjobs := (hall allSucceed s hlen hline).all allSucceed_succeed
    rw [startedBy, hstarts.created, List.drop_left, (hsucceed allSucceed_succeed).1, planned_fst] at hjobs
    exact List.map_injective_iff.mpr (List.map_injective_iff.mpr fun _ _ => Option.some.inj) hjobs
  · intro hjobs os s hlen hline
    obtain ⟨hsingle, hpipe⟩ := (codeJobs_eq_iff h).mp hjobs
    obtain ⟨started, pids, hstarts, hpre, hsucceed⟩ := @runLine_spec os s line h hlen hline
    rw [codeBackground_eq h hsingle hpipe, hjobs] at hpre hsucceed
    rw [startedBy, hstarts.created, List.drop_left, waitedBy, hstarts.waited, List.drop_left]
    refine ⟨?_, fun hall => ?_, fun job hjob => ?_, fun hall => (hsucceed hall).2⟩
    · rw [← planned_fst (background line)]
      exact hpre.map _
    · rw [(hsucceed hall).1, planned_fst]
    · cases started with
      | nil => cases hjob
      | cons first rest =>
          cases hplan : jobs line with
          | nil =>
              rw [hplan] at hpre
              exact absurd (List.prefix_nil.mp hpre) (List.cons_ne_nil _ _)
          | cons argv argvs =>
              rw [hplan, planned, List.cons_prefix_cons] at hpre
              cases hjob
              rw [hpre.1]

/-- `ps &` runs in the background. -/
theorem splits_right_iff_background : SplitsRight ['p', 's', ' ', '&'] := by
  have hsides : sides ['p', 's', ' ', '&'] = [['p', 's', ' ', '&']] := by decide
  have hplain : Plain ['p', 's', ' ', '&'] := by
    refine ⟨by decide, by decide, by simp [isspace], by decide, ?_, ?_⟩ <;> intro side hside <;>
      rw [hsides, List.mem_singleton] at hside <;> subst hside
    · exact ⟨['p', 's'], [['&']], by decide, by decide⟩
    · decide
  refine (splits_right_iff hplain).mpr ⟨fun side hside => ?_, fun htwo => absurd htwo (by decide)⟩
  rw [hsides, List.mem_singleton] at hside
  subst hside
  decide

set_option maxRecDepth 100000 in
/-- `ps|cat &` does not: `cat` is given the `"&"`. -/
theorem piped_ampersand_kept : ¬ ∀ line, Plain line → SplitsRight line := by
  intro hall
  have hsides : sides ['p', 's', '|', 'c', 'a', 't', ' ', '&'] = [['p', 's'], ['c', 'a', 't', ' ', '&']] := by
    decide
  have hplain : Plain ['p', 's', '|', 'c', 'a', 't', ' ', '&'] := by
    refine ⟨by decide, by decide, by simp [isspace], by decide, ?_, ?_⟩ <;> intro side hside <;>
      rw [hsides, List.mem_cons, List.mem_singleton] at hside <;> rcases hside with rfl | rfl
    · exact ⟨['p', 's'], [], by decide, by decide⟩
    · exact ⟨['c', 'a', 't'], [['&']], by decide, by decide⟩
    · decide
    · decide
  have hright := (hall _ hplain allSucceed
    { buffer := ['p', 's', '|', 'c', 'a', 't', ' ', '&'] ++ List.replicate 1016 NUL } (by decide +kernel)
    ⟨_, rfl⟩).all allSucceed_succeed
  exact absurd hright (by decide +kernel)

end Shell

end TpSo
