import TpSo.Shell.CommandLine

set_option autoImplicit false

/-! # What `parseCommand` makes of a string

`strtok` cuts the string into its fields at every space, empty ones among them. `Reads` ties a parsed
command to the strings of its `argv`; every step up to the execution is `Quiet`. -/

namespace TpSo

namespace Shell

open CString

/-! ## Processes created and waited for -/

/-- The calls of `processCreate`: `argv` and the foreground flag. -/
def Event.creation : Event → Option (List (Option Str) × Bool)
  | .processCreate _ argv foreground _ => some (argv, foreground)
  | _ => none

/-- The calls of `processWaitPid`. -/
def Event.waited : Event → Option Int
  | .processWaitPid pid _ => some pid
  | _ => none

/-- The processes created so far, the first one first. -/
def created (s : Shell) : List (List (Option Str) × Bool) := s.log.reverse.filterMap Event.creation

/-- And those waited for. -/
def waited (s : Shell) : List Int := s.log.reverse.filterMap Event.waited

/-- No call fails. -/
structure Answers.Succeed (os : Answers) : Prop where
  malloc : ∀ n, os.malloc n = true
  openPipe : ∀ n, 0 ≤ os.openPipe n
  setFdTargets : ∀ n, os.setFdTargets n = 0
  processCreate : ∀ n, 0 ≤ os.processCreate n

/-! ## What a stretch of code has called -/

/-- From `s` to `s'` the processes `started` have been created and `pids` waited for, and the strings of the
    blocks obtained before and the buffer from `q` on are as they were. -/
structure Starts (q : Nat) (started : List (List (Option Str) × Bool)) (pids : List Int) (s s' : Shell) :
    Prop where
  grows : s.log.length ≤ s'.log.length
  created : s'.created = s.created ++ started
  waited : s'.waited = s.waited ++ pids
  text : ∀ b, b < s.log.length → s'.text b = s.text b
  buffer : s'.buffer.drop q = s.buffer.drop q

/-- No process has been created or waited for. -/
abbrev Quiet (q : Nat) : Shell → Shell → Prop := Starts q [] []

theorem created_record (s : Shell) (e : Event) :
    (s.record e).created = s.created ++ e.creation.toList := by
  unfold created record
  rw [List.reverse_cons, List.filterMap_append]
  cases h : e.creation <;> simp [h]

theorem waited_record (s : Shell) (e : Event) : (s.record e).waited = s.waited ++ e.waited.toList := by
  unfold waited record
  rw [List.reverse_cons, List.filterMap_append]
  cases h : e.waited <;> simp [h]

namespace Starts

variable {q : Nat} {s s' s'' : Shell} {started started' : List (List (Option Str) × Bool)}
  {pids pids' : List Int}

theorem refl (s : Shell) : Quiet q s s :=
  ⟨Nat.le_refl _, (List.append_nil _).symm, (List.append_nil _).symm, fun _ _ => rfl, rfl⟩

theorem trans (h : Starts q started pids s s') (h' : Starts q started' pids' s' s'') :
    Starts q (started ++ started') (pids ++ pids') s s'' where
  grows := Nat.le_trans h.grows h'.grows
  created := by rw [h'.created, h.created, List.append_assoc]
  waited := by rw [h'.waited, h.waited, List.append_assoc]
  text b hb := (h'.text b (Nat.lt_of_lt_of_le hb h.grows)).trans (h.text b hb)
  buffer := h'.buffer.trans h.buffer

theorem mono {q' : Nat} (h : Starts q started pids s s') (hq : q ≤ q') :
    Starts q' started pids s s' where
  grows := h.grows
  created := h.created
  waited := h.waited
  text := h.text
  buffer := by
    obtain ⟨d, rfl⟩ := Nat.exists_eq_add_of_le hq
    rw [← List.drop_drop, ← List.drop_drop, h.buffer]

/-- A string from `q` on is still there. -/
theorem at_ {p : Nat} {t : Str} (h : Starts p started pids s s') (ht : At NUL s.buffer p t) :
    At NUL s'.buffer p t := ht.congr h.buffer

theorem cut {p : Nat} (hp : p < q) (last : Nat) : Quiet q s { s.cut p with last := last } :=
  ⟨Nat.le_refl _, (List.append_nil _).symm, (List.append_nil _).symm, fun _ _ => rfl,
    List.drop_set_of_lt hp⟩

theorem record (e : Event) : Starts q e.creation.toList e.waited.toList s (s.record e) :=
  ⟨Nat.le_succ _, created_record s e, waited_record s e, fun _ _ => rfl, rfl⟩

theorem free (b : Option Block) : Quiet q s (s.free b) := by
  cases b with
  | none => exact refl s
  | some b => exact record (.free b)

theorem freeArgs (argv : Nat → Option Block) (n : Nat) : Quiet q s (s.freeArgs argv n) := by
  induction n with
  | zero => exact refl s
  | succ n ih => exact ih.trans (free _)

theorem freeParsedCommands (cs : List ParsedCommand) : Quiet q s (s.freeParsedCommands cs) := by
  induction cs generalizing s with
  | nil => exact refl s
  | cons c cs ih => exact (freeArgs c.argv c.argc).trans ih

end Starts

/-! ## Fields -/

/-- What `strtok` takes a string apart into, if it does not end in a space. -/
def fields (u : Str) : List Str := if u = [] then [] else u.splitOn ' '

/-- The first token `w`, and what is left. -/
def FirstToken (u w rest : Str) : Prop := ' ' ∉ w ∧ (u = w ∧ rest = [] ∨ u = w ++ ' ' :: rest)

theorem fields_cases {u : Str} (hu : u ≠ []) (hlast : u.getLast? ≠ some ' ') :
    ∃ w rest, FirstToken u w rest ∧ fields u = w :: fields rest ∧ rest.getLast? ≠ some ' ' := by
  by_cases hspace : ' ' ∈ u
  · obtain ⟨w, rest, rfl, hw⟩ := List.eq_append_cons_of_mem hspace
    have hrest : rest ≠ [] := by
      rintro rfl
      exact hlast (by simp)
    refine ⟨w, rest, ⟨hw, .inr rfl⟩, ?_, ?_⟩
    · rw [fields, if_neg hu, List.splitOn_append_cons_self_of_not_mem hw, fields, if_neg hrest]
    · rwa [← List.getLast?_cons_of_ne_nil (x := ' ') hrest, ← List.getLast?_append_cons w]
  · refine ⟨u, [], ⟨hspace, .inl ⟨rfl, rfl⟩⟩, ?_, by simp⟩
    rw [fields, if_neg hu, List.splitOn_eq_singleton hspace]
    rfl

/-- **`strtok`** hands out the first token and goes on behind it. -/
theorem strtok_at {s : Shell} (s1 : Option Nat) {u w rest : Str} {q : Nat}
    (h : At NUL s.buffer (s1.getD s.last) u) (hs1 : s1 = none → u ≠ []) (htok : FirstToken u w rest)
    (hq : s1.getD s.last + u.length < q) :
    ∃ s', s.strtok s1 [' '] = (some (s1.getD s.last), s') ∧ Quiet q s s' ∧
      At NUL s'.buffer (s1.getD s.last) w ∧ At NUL s'.buffer s'.last rest ∧
      s'.last + rest.length = s1.getD s.last + u.length := by
  have hstarts : ¬ (s1 = none ∧ (s.from_ s.last).headD NUL = NUL) := by
    rintro ⟨rfl, hhead⟩
    exact hs1 rfl ((head_at h).mp hhead)
  unfold strtok
  rw [if_neg hstarts]
  obtain ⟨hw, ⟨rfl, rfl⟩ | rfl⟩ := htok
  · have hloop := strtokLoop_absent h hw (s1.getD s.last)
    have hend : At NUL s.buffer (s1.getD s.last + u.length) [] := by
      refine At.suffix ?_
      rwa [List.append_nil]
    refine ⟨{ s with last := s1.getD s.last + u.length }, ?_, ?_, h, hend, rfl⟩
    swap
    · exact ⟨Nat.le_refl _, (List.append_nil _).symm, (List.append_nil _).symm, fun _ _ => rfl, rfl⟩
    simp only [from_, hloop]
  · have hloop := strtokLoop_found h hw (s1.getD s.last)
    rw [List.length_append, List.length_cons] at hq ⊢
    refine ⟨{ s.cut (s1.getD s.last + w.length) with last := s1.getD s.last + w.length + 1 }, ?_,
      .cut (by omega) _, h.truncate, h.cut, by show _ + _ + 1 + _ = _; omega⟩
    simp only [from_, hloop]

/-- At the end of the string there are no more. -/
theorem strtok_end {s : Shell} (h : At NUL s.buffer s.last []) : s.strtok none [' '] = (none, s) := by
  unfold strtok
  rw [if_pos ⟨rfl, (head_at h).mpr rfl⟩]

/-! ## `trimWhitespace` -/

/-- The characters of `side` without the whitespace at its ends. -/
def trim (side : Str) : Str := (side.dropWhile isspace).rdropWhile isspace

theorem mem_of_mem_trim {side : Str} {c : Char} (h : c ∈ trim side) : c ∈ side :=
  (List.dropWhile_sublist _).mem ((List.rdropWhile_prefix _ _).mem h)

/-- It does not end in a space. -/
theorem trim_getLast (side : Str) : (trim side).getLast? ≠ some ' ' := by
  intro h
  have hne : trim side ≠ [] := by
    intro hnil
    rw [hnil] at h
    cases h
  rw [List.getLast?_eq_some_getLast hne] at h
  have hlast := List.rdropWhile_last_not isspace (side.dropWhile isspace) hne
  rw [show ((side.dropWhile isspace).rdropWhile isspace).getLast hne = ' ' from Option.some.inj h] at hlast
  exact hlast (by decide)

/-- It does not begin with one either. -/
theorem trim_head (side : Str) : ∀ t, trim side ≠ ' ' :: t := by
  intro t h
  obtain ⟨rest, hrest⟩ := List.rdropWhile_prefix isspace (side.dropWhile isspace)
  have hcons : side.dropWhile isspace = ' ' :: (t ++ rest) := by
    rw [← hrest, show (side.dropWhile isspace).rdropWhile isspace = ' ' :: t from h, List.cons_append]
  have hhead := List.head_dropWhile_not isspace (l := side) (by rw [hcons]; exact List.cons_ne_nil _ _)
  simp only [hcons, List.head_cons] at hhead
  exact absurd hhead (by decide)

theorem trimWhitespace_at {s : Shell} {p q : Nat} {side : Str} (h : At NUL s.buffer p side)
    (hq : p + side.length < q) :
    At NUL (s.trimWhitespace p).2.buffer (s.trimWhitespace p).1 (trim side) ∧
      Quiet q s (s.trimWhitespace p).2 ∧ p ≤ (s.trimWhitespace p).1 ∧
      (s.trimWhitespace p).1 + (trim side).length ≤ p + side.length ∧
      ∀ p' t, At NUL s.buffer p' t → p' + t.length < p → At NUL (s.trimWhitespace p).2.buffer p' t := by
  have hsplit := @List.takeWhile_append_dropWhile _ isspace side
  set skipped := side.takeWhile isspace
  set core := side.dropWhile isspace with hcore
  have hlen := congrArg List.length hsplit
  have hshort : (trim side).length ≤ core.length := (List.rdropWhile_prefix isspace core).length_le
  rw [List.length_append] at hlen
  have hat : At NUL s.buffer (p + skipped.length) core := At.suffix (by rwa [hsplit])
  have hstart : skipWhitespace (s.from_ p) p = p + skipped.length := skipWhitespace_at h p
  have hlength : strlen (s.from_ (p + skipped.length)) = core.length := strlen_at hat
  have hend : trimEnd s.buffer (p + skipped.length) core.length = p + skipped.length + (trim side).length :=
    @trimEnd_at _ _ _ [] (by rwa [List.append_nil])
  obtain ⟨rest, hrest⟩ := List.rdropWhile_prefix isspace core
  have htrim : s.trimWhitespace p =
      (p + skipped.length, s.cut (p + skipped.length + (trim side).length)) := by
    simp only [trimWhitespace, hstart, hlength, hend]
  rw [htrim]
  refine ⟨?_, .cut (by omega) s.last, by omega, by show _ + _ + _ ≤ _; omega, fun p' t ht hlt => ?_⟩
  · rw [← hrest] at hat
    exact hat.truncate
  · exact ht.set_behind (by omega) NUL

/-! ## A parsed command -/

/-- The strings of `argv`, in blocks obtained so far. -/
structure Reads (s : Shell) (c : ParsedCommand) (texts : List Str) : Prop where
  argc : c.argc = texts.length
  argv : ∀ i t, texts[i]? = some t → ∃ b, c.argv i = some b ∧ b < s.log.length ∧ s.text b = t

namespace Reads

variable {s s' : Shell} {c : ParsedCommand} {texts : List Str} {q : Nat}

theorem later {started : List (List (Option Str) × Bool)} {pids : List Int} (h : Reads s c texts)
    (hq : Starts q started pids s s') : Reads s' c texts where
  argc := h.argc
  argv i t hi := by
    obtain ⟨b, hb, hlt, htext⟩ := h.argv i t hi
    exact ⟨b, hb, Nat.lt_of_lt_of_le hlt hq.grows, (hq.text b hlt).trans htext⟩

theorem nil (s : Shell) (c : ParsedCommand) (h : c.argc = 0) : Reads s c [] where
  argc := h
  argv i t hi := by cases hi

/-- Another entry of `argv`, at `argc`. -/
theorem push (h : Reads s c texts) {b : Block} {t : Str} (hb : b < s.log.length) (ht : s.text b = t) :
    Reads s { c with argv := Function.update c.argv c.argc (some b), argc := c.argc + 1 }
      (texts ++ [t]) where
  argc := by rw [List.length_append, h.argc]; rfl
  argv i u hi := by
    rw [List.getElem?_append] at hi
    show ∃ d, Function.update c.argv c.argc (some b) i = some d ∧ _
    split at hi
    · next hlt =>
      rw [Function.update_of_ne (by rw [h.argc]; exact Nat.ne_of_lt hlt)]
      exact h.argv i u hi
    · next hlt =>
      rw [List.getElem?_singleton] at hi
      split at hi
      · cases hi
        rw [show i = c.argc by rw [h.argc]; omega, Function.update_self]
        exact ⟨b, rfl, hb, ht⟩
      · cases hi

/-- The entry at `argc` does not count. -/
theorem terminated (h : Reads s c texts) :
    Reads s { c with argv := Function.update c.argv c.argc none } texts where
  argc := h.argc
  argv i t hi := by
    show ∃ b, Function.update c.argv c.argc none i = some b ∧ _
    have hlt : i < texts.length := (List.getElem?_eq_some_iff.mp hi).1
    rw [Function.update_of_ne (by rw [h.argc]; exact Nat.ne_of_lt hlt)]
    exact h.argv i t hi

/-- What `processCreate` is given. -/
theorem argvTexts (h : Reads s c texts) : s.argvTexts c = texts.map some := by
  refine List.ext_getElem? fun i => ?_
  rw [Shell.argvTexts, List.getElem?_map, List.getElem?_map, h.argc]
  by_cases hi : i < texts.length
  · obtain ⟨b, hb, -, htext⟩ := h.argv i texts[i] (List.getElem?_eq_getElem hi)
    rw [List.getElem?_range hi, List.getElem?_eq_getElem hi]
    simp [hb, htext]
  · rw [List.getElem?_eq_none (by simpa using hi), List.getElem?_eq_none (by simpa using hi)]
    rfl

end Reads

/-! ## `parseCommand` -/

/-- The command has been parsed into `texts`, or a `malloc` has failed. -/
def ParsesTo (os : Answers) (q : Nat) (s : Shell) (texts : List Str) (isBuiltIn : Bool)
    (r : Int × ParsedCommand × Shell) : Prop :=
  Quiet q s r.2.2 ∧
    (r.1 = 1 ∧ Reads r.2.2 r.2.1 texts ∧ r.2.1.isBuiltIn = isBuiltIn ∨ r.1 ≤ 0 ∧ ¬ os.Succeed)

theorem ParsesTo.failed {os : Answers} {q : Nat} {s s' : Shell} {texts : List Str} {isBuiltIn : Bool}
    (c : ParsedCommand) (h : Quiet q s s') (hfailed : ¬ os.Succeed) :
    ParsesTo os q s texts isBuiltIn (-1, c, s') := ⟨h, .inr ⟨show (-1 : Int) ≤ 0 by decide, hfailed⟩⟩

variable (os : Answers) (q : Nat)

/-- The copy of a string in a new block. -/
theorem malloc_store (s : Shell) (size : Nat) (text : Str) (hsize : size ≠ 0) :
    ((s.malloc os size).1 = none ∧ Quiet q s (s.malloc os size).2 ∧ ¬ os.Succeed) ∨
      ∃ b, (s.malloc os size).1 = some b ∧ Quiet q s ((s.malloc os size).2.store b text) ∧
        b < ((s.malloc os size).2.store b text).log.length ∧
        ((s.malloc os size).2.store b text).text b = text := by
  unfold malloc
  rw [if_neg hsize]
  by_cases hgot : os.malloc s.log.length
  · refine .inr ⟨s.log.length, by simp [hgot], ⟨Nat.le_succ _, ?_, ?_, fun b hb => ?_, rfl⟩,
      Nat.lt_succ_self _, Function.update_self ..⟩
    · exact created_record s _
    · exact waited_record s _
    · exact Function.update_of_ne (Nat.ne_of_lt hb) ..
  · refine .inl ⟨by simp [hgot], .record (.malloc size _), fun h => hgot (h.malloc _)⟩

theorem parseArguments_spec (left : Nat) {s : Shell} {c : ParsedCommand} {texts : List Str} {u : Str}
    (hreads : Reads s c texts) (hu : At NUL s.buffer s.last u) (hlast : u.getLast? ≠ some ' ')
    (hbar : '|' ∉ u) (hq : s.last + u.length < q) :
    ParsesTo os q s (texts ++ (fields u).take left) c.isBuiltIn
      (parseArguments os left (s.strtok none [' ']).1 c (s.strtok none [' ']).2) := by
  -- on the arguments that still fit; each token is a field of what is left of the line
  induction left generalizing s c texts u with
  | zero =>
      rw [List.take_zero, List.append_nil]
      by_cases hnil : u = []
      · subst hnil
        rw [strtok_end hu]
        exact ⟨.refl s, .inl ⟨rfl, hreads.terminated, rfl⟩⟩
      · obtain ⟨w, rest, htok, -, -⟩ := fields_cases hnil hlast
        obtain ⟨s', hs', hquiet, -⟩ := strtok_at none hu (fun _ => hnil) htok hq
        rw [hs']
        exact ⟨hquiet, .inl ⟨rfl, (hreads.later hquiet).terminated, rfl⟩⟩
  | succ left ih =>
      by_cases hnil : u = []
      · subst hnil
        rw [strtok_end hu]
        refine ⟨.refl s, .inl ⟨rfl, ?_, rfl⟩⟩
        rw [fields, if_pos rfl, List.take_nil, List.append_nil]
        exact hreads.terminated
      obtain ⟨w, rest, htok, hfields, hlast'⟩ := fields_cases hnil hlast
      obtain ⟨s', hs', hquiet, hw, hrest, hlen⟩ := strtok_at none hu (fun _ => hnil) htok hq
      change At NUL s'.buffer s.last w at hw
      have hbars : '|' ∉ w ∧ '|' ∉ rest := by
        obtain ⟨-, ⟨rfl, rfl⟩ | rfl⟩ := htok
        · exact ⟨hbar, List.not_mem_nil⟩
        · simp only [List.mem_append, List.mem_cons, not_or] at hbar
          exact ⟨hbar.1, hbar.2.2⟩
      have hcmp : ¬ strcmp (s'.from_ s.last) ['|'] = 0 := by
        rw [from_, strcmp_at hw (by decide)]
        rintro rfl
        exact hbars.1 List.mem_cons_self
      have htext : strcpy (s'.from_ s.last) = w := strcpy_at hw
      rw [hs']
      simp only [parseArguments, Option.getD_none, if_neg hcmp, htext]
      rcases malloc_store os q s' (strlen (s'.from_ s.last) + 1) w (Nat.succ_ne_zero _) with
        ⟨hnone, hquiet', hfailed⟩ | ⟨b, hsome, hquiet', hb, hstored⟩
      · rw [hnone]
        exact .failed _ ((hquiet.trans hquiet').trans (.freeArgs _ _)) hfailed
      · rw [hsome]
        have hnext := ((hreads.later hquiet).later hquiet').push hb hstored
        obtain ⟨hquiet'', hdone⟩ := ih hnext (u := rest) hrest hlast' hbars.2 (by
          show s'.last + rest.length < q
          rw [hlen]
          exact hq)
        rw [hfields, List.take_succ_cons, List.append_cons]
        exact ⟨(hquiet.trans hquiet').trans hquiet'', hdone⟩

/-- What the table of commands is used for. -/
theorem commands_find : ∀ entry ∈ commands,
    commands.find? (fun other => strcmp other.1 entry.1 == 0) = some entry ∧
      entry.1.length ≤ MAX_ARGUMENT_SIZE - 1 ∧ entry.1 ≠ ['|'] ∧ NUL ∉ entry.1 := by
  decide +kernel

/-- **`parseCommand`** of a string that ends in no space and begins with the name of a command. -/
theorem parseCommand_spec {s : Shell} {p : Nat} {u name : Str} {args : List Str} {isBuiltIn : Bool}
    (hu : At NUL s.buffer p u) (hnil : u ≠ []) (hlast : u.getLast? ≠ some ' ') (hbar : '|' ∉ u)
    (hname : fields u = name :: args) (hknown : (name, isBuiltIn) ∈ commands) (hq : p + u.length < q) :
    ParsesTo os q s ((fields u).take (MAX_ARGUMENT_COUNT - 1)) isBuiltIn (s.parseCommand os p) := by
  obtain ⟨w, rest, htok, hfields, hlast'⟩ := fields_cases hnil hlast
  obtain ⟨rfl, rfl⟩ : name = w ∧ args = fields rest := List.cons.inj (hname.symm.trans hfields)
  obtain ⟨hfind, hlen, hbars, hnul⟩ := commands_find _ hknown
  obtain ⟨s', hs', hquiet, hw, hrest, hend⟩ :=
    strtok_at (some p) hu (fun h => absurd h (Option.some_ne_none p)) htok hq
  rw [Option.getD_some] at hw hend
  have hbar' : '|' ∉ rest := by
    obtain ⟨-, ⟨rfl, rfl⟩ | rfl⟩ := htok
    · exact List.not_mem_nil
    · simp only [List.mem_append, List.mem_cons, not_or] at hbar
      exact hbar.2.2
  obtain ⟨fuel, hfuel⟩ : ∃ fuel, s'.buffer.length = fuel + 1 :=
    Nat.exists_eq_succ_of_ne_zero (Nat.ne_of_gt (Nat.lt_of_le_of_lt (Nat.zero_le _) hw.lt_length))
  have hskip : skipBars s'.buffer.length (some p) s' = (some p, s') := by
    have hcmp : ¬ strcmp (s'.from_ p) ['|'] = 0 := by
      rw [from_, strcmp_at hw (by decide)]
      exact hbars
    rw [hfuel]
    simp only [skipBars, if_neg hcmp]
  have hcommand : strncpy (MAX_ARGUMENT_SIZE - 1) (s'.from_ p) = name := by
    rw [from_, strncpy_at hw, List.take_of_length_le hlen]
  unfold parseCommand
  simp only [hs', Option.getD_some, hskip, hcommand, hfind, strcpy_self hnul]
  rcases malloc_store os q s' (strlen name + 1) name (Nat.succ_ne_zero _) with
    ⟨hnone, hquiet', hfailed⟩ | ⟨b, hsome, hquiet', hb, hstored⟩
  · rw [hnone]
    exact .failed _ (hquiet.trans hquiet') hfailed
  · rw [hsome]
    have hreads := (Reads.nil ((s'.malloc os (strlen name + 1)).2.store b name)
      { name := some b, function := name, isBuiltIn := isBuiltIn } rfl).push hb hstored
    obtain ⟨hquiet'', hdone⟩ := parseArguments_spec os q (MAX_ARGUMENT_COUNT - 1 - 1) hreads (u := rest)
      hrest hlast' hbar' (by
        show s'.last + rest.length < q
        rw [hend]
        exact hq)
    rw [hfields]
    exact ⟨(hquiet.trans hquiet').trans hquiet'', hdone⟩

end Shell

end TpSo
