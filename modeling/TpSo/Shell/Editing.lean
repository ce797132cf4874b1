import TpSo.Shell.LineEditor

set_option autoImplicit false

/-! # The line editor and its history

The code edits a draft: `buffer` and `command_history_buffer` begin with the line, and the ring of ten rows
holds the lines accepted last, the newest one before `command_history_last`. -/

namespace TpSo

namespace Shell

open CString

variable {b dest : List Char} {s t : Str} {c : Char}

/-! ## A line at the beginning of an array -/

theorem prefix_set (h : s <+: b) {i : Nat} (hi : s.length ≤ i) (c : Char) : s <+: b.set i c := by
  obtain ⟨rest, rfl⟩ := h
  rw [List.set_append_right _ _ hi]
  exact List.prefix_append _ _

theorem concat_prefix_set (h : s <+: b) (hlt : s.length < b.length) (c : Char) :
    s ++ [c] <+: b.set s.length c := by
  obtain ⟨rest, rfl⟩ := h
  rw [List.length_append] at hlt
  obtain ⟨d, rest, rfl⟩ := List.exists_cons_of_length_pos (show 0 < rest.length by omega)
  rw [List.set_append_right _ _ (Nat.le_refl _), Nat.sub_self, List.set_cons_zero]
  exact ⟨rest, List.append_assoc _ _ _⟩

/-- The NUL behind it makes it a string. -/
theorem at_of_prefix (h : s <+: b) (hlt : s.length < b.length) (hnul : NUL ∉ s) :
    At NUL (b.set s.length NUL) 0 s := by
  obtain ⟨rest, hrest⟩ := concat_prefix_set h hlt NUL
  exact ⟨rest, by rw [List.drop_zero, ← hrest, List.append_assoc]; rfl, hnul⟩

theorem copyTo_length (h : s.length < dest.length) : (copyTo dest s).length = dest.length := by
  rw [copyTo, List.length_append, List.length_cons, List.length_drop]
  omega

theorem prefix_copyTo (dest : List Char) (s : Str) : s <+: copyTo dest s := List.prefix_append _ _

theorem copyTo_at (dest : List Char) (hnul : NUL ∉ s) : At NUL (copyTo dest s) 0 s :=
  ⟨dest.drop (s.length + 1), rfl, hnul⟩

/-! ## Indices of the ring -/

theorem subMod_eq {i : Nat} (h : i < HISTORY_SIZE) : subMod i 1 HISTORY_SIZE = (i + 9) % HISTORY_SIZE := by
  simp only [subMod, HISTORY_SIZE] at h ⊢
  split <;> omega

/-- The row of the line accepted `j` lines before the last one. -/
def rowOf (historyLast j : Nat) : Nat := (historyLast + 9 - j) % HISTORY_SIZE

theorem rowOf_lt (historyLast j : Nat) : rowOf historyLast j < HISTORY_SIZE := Nat.mod_lt _ (by decide)

theorem rowOf_succ {historyLast j : Nat} (hj : j < 9) :
    subMod (rowOf historyLast j) 1 HISTORY_SIZE = rowOf historyLast (j + 1) := by
  rw [subMod_eq (rowOf_lt _ _)]
  simp only [rowOf, HISTORY_SIZE]
  omega

/-- The row of the next line is the last one of the present ones, and the others move on by one. -/
theorem rowOf_next_zero {historyLast : Nat} (h : historyLast < HISTORY_SIZE) :
    rowOf ((historyLast + 1) % HISTORY_SIZE) 0 = historyLast := by
  simp only [rowOf, HISTORY_SIZE] at h ⊢
  omega

theorem rowOf_next_succ (historyLast : Nat) {j : Nat} (hj : j + 1 < HISTORY_SIZE) :
    rowOf ((historyLast + 1) % HISTORY_SIZE) (j + 1) = rowOf historyLast j := by
  simp only [rowOf, HISTORY_SIZE] at hj ⊢
  omega

theorem rowOf_ne {historyLast j : Nat} (h : historyLast < HISTORY_SIZE) (hj : j + 1 < HISTORY_SIZE) :
    rowOf historyLast j ≠ historyLast := by
  simp only [rowOf, HISTORY_SIZE] at h hj ⊢
  omega

end Shell

namespace Editor

open Shell CString

/-! ## What the variables hold -/

/-- The rows hold the lines accepted last. -/
structure Ring (e : Editor) (past : List Str) : Prop where
  length : e.history.length = HISTORY_SIZE
  rows : ∀ r ∈ e.history, r.length = MAX_BUFFER_SIZE
  last : e.historyLast < HISTORY_SIZE
  kept : ∀ j < HISTORY_SIZE, At NUL (e.row (rowOf e.historyLast j)) 0 ((past[j]?).getD [])
  lines : ∀ s ∈ past, s ≠ [] ∧ NUL ∉ s ∧ s.length < MAX_BUFFER_SIZE

/-- The editor edits the draft. -/
structure Edits (e : Editor) (d : Draft) : Prop where
  ring : e.Ring d.past
  length : e.shell.buffer.length = MAX_BUFFER_SIZE
  line : d.line <+: e.shell.buffer
  copyLength : e.historyBuffer.length = MAX_BUFFER_SIZE
  copy : d.line <+: e.historyBuffer
  dim : e.bufferDim = d.line.length
  dim_lt : d.line.length < MAX_BUFFER_SIZE
  nul : NUL ∉ d.line
  back : d.back < HISTORY_SIZE
  arrowed : e.lastArrowed = (e.historyLast + HISTORY_SIZE - d.back) % HISTORY_SIZE
  done : e.returned = d.done

variable {e : Editor} {d : Draft}

theorem Ring.congr {e' : Editor} {past : List Str} (h : e.Ring past) (hhistory : e'.history = e.history)
    (hlast : e'.historyLast = e.historyLast) : e'.Ring past := by
  have hrow (i : Nat) : e'.row i = e.row i := by rw [row, row, hhistory]
  refine ⟨by rw [hhistory, h.length], by rw [hhistory]; exact h.rows, by rw [hlast]; exact h.last, ?_, h.lines⟩
  intro j hj
  rw [hlast, hrow]
  exact h.kept j hj

/-- A row begins with NUL where no line is kept. -/
theorem Ring.head_iff {past : List Str} (h : e.Ring past) {j : Nat} (hj : j < HISTORY_SIZE) :
    (e.row (rowOf e.historyLast j)).headD NUL ≠ NUL ↔ (past[j]?).isSome := by
  have hat := h.kept j hj
  have hhead := head_at hat
  rw [List.drop_zero] at hhead
  rw [Ne, hhead]
  cases hpast : past[j]? with
  | none => simp
  | some s => simp [(h.lines s (List.mem_of_getElem? hpast)).1]

/-- What is printed and asked of the kernel is nothing to a draft. -/
theorem Edits.congr {e' : Editor} (h : e.Edits d) (hshell : e'.shell.buffer = e.shell.buffer)
    (hdim : e'.bufferDim = e.bufferDim) (hcopy : e'.historyBuffer = e.historyBuffer)
    (hhistory : e'.history = e.history) (hlast : e'.historyLast = e.historyLast)
    (harrowed : e'.lastArrowed = e.lastArrowed) (hdone : e'.returned = e.returned) : e'.Edits d where
  ring := h.ring.congr hhistory hlast
  length := by rw [hshell, h.length]
  line := by rw [hshell]; exact h.line
  copyLength := by rw [hcopy, h.copyLength]
  copy := by rw [hcopy]; exact h.copy
  dim := by rw [hdim, h.dim]
  dim_lt := h.dim_lt
  nul := h.nul
  back := h.back
  arrowed := by rw [harrowed, hlast, h.arrowed]
  done := by rw [hdone, h.done]

theorem Edits.print (h : e.Edits d) (c : Echo) : (e.print c).Edits d :=
  h.congr rfl rfl rfl rfl rfl rfl rfl

theorem Edits.printPrompt (h : e.Edits d) : e.printPrompt.Edits d :=
  h.congr rfl rfl rfl rfl rfl rfl rfl

theorem Edits.handleBackgroundChildren (h : e.Edits d) (reaped : Bool) :
    (e.handleBackgroundChildren reaped).Edits d :=
  h.congr rfl rfl rfl rfl rfl rfl rfl

/-! ## Editing -/

theorem Edits.deleteCharacter (h : e.Edits d) :
    e.deleteCharacter.Edits { d with line := d.line.dropLast } := by
  unfold Editor.deleteCharacter
  split
  · next hempty =>
    have hnil : d.line = [] := List.eq_nil_of_length_eq_zero (h.dim.symm.trans hempty)
    rw [hnil]
    exact ⟨h.ring, h.length, List.nil_prefix, h.copyLength, List.nil_prefix, hempty,
      by simp [MAX_BUFFER_SIZE], List.not_mem_nil, h.back, h.arrowed, h.done⟩
  · have hshorter : d.line.dropLast <+: d.line := List.dropLast_prefix _
    have hdim : e.bufferDim - 1 = d.line.dropLast.length := by rw [List.length_dropLast, h.dim]
    have hle := hdim.ge
    have hdeleted : ({ e with bufferDim := e.bufferDim - 1 }.put (e.bufferDim - 1) NUL).Edits
        { d with line := d.line.dropLast } := by
      refine ⟨h.ring.congr rfl rfl, List.length_set.trans h.length, ?_, List.length_set.trans h.copyLength, ?_,
        hdim, ?_, ?_, h.back, h.arrowed, h.done⟩
      · exact prefix_set (hshorter.trans h.line) hle NUL
      · exact prefix_set (hshorter.trans h.copy) hle NUL
      · exact Nat.lt_of_le_of_lt hshorter.length_le h.dim_lt
      · exact fun hmem => h.nul (hshorter.subset hmem)
    exact hdeleted.print _

theorem Edits.emptyScreenBuffer (h : e.Edits d) :
    e.emptyScreenBuffer.Edits { d with line := [] } := by
  have hempty : ∀ n (e : Editor) (d : Draft), e.Edits d → d.line.length = n →
      (Editor.deleteCharacter^[n] e).Edits { d with line := [] } := by
    intro n
    induction n with
    | zero =>
      intro e d h hn
      have hnil : d.line = [] := List.eq_nil_of_length_eq_zero hn
      have hsame : { d with line := [] } = d := by rw [← hnil]
      rw [hsame]
      exact h
    | succ n ih =>
      intro e d h hn
      rw [Function.iterate_succ_apply]
      exact ih _ { d with line := d.line.dropLast } h.deleteCharacter (by rw [List.length_dropLast, hn]; rfl)
  exact hempty _ e d h h.dim.symm

theorem Edits.reset (h : e.Edits d) : e.reset.Edits { d with line := [] } where
  ring := h.ring.congr rfl rfl
  length := List.length_set.trans h.length
  line := List.nil_prefix
  copyLength := List.length_set.trans h.copyLength
  copy := List.nil_prefix
  dim := rfl
  dim_lt := by simp [MAX_BUFFER_SIZE]
  nul := List.not_mem_nil
  back := h.back
  arrowed := h.arrowed
  done := h.done

theorem Edits.append (h : e.Edits d) {c : Char} (hc : c ≠ NUL) (hlt : d.line.length < MAX_BUFFER_SIZE - 1) :
    { e.put e.bufferDim c with bufferDim := e.bufferDim + 1 }.Edits { d with line := d.line ++ [c] } where
  ring := h.ring.congr rfl rfl
  length := List.length_set.trans h.length
  line := by
    show d.line ++ [c] <+: e.shell.buffer.set e.bufferDim c
    rw [h.dim]
    exact concat_prefix_set h.line (by rw [h.length]; exact h.dim_lt) c
  copyLength := List.length_set.trans h.copyLength
  copy := by
    show d.line ++ [c] <+: e.historyBuffer.set e.bufferDim c
    rw [h.dim]
    exact concat_prefix_set h.copy (by rw [h.copyLength]; exact h.dim_lt) c
  dim := by
    show e.bufferDim + 1 = (d.line ++ [c]).length
    rw [List.length_append, h.dim]
    rfl
  dim_lt := by
    show (d.line ++ [c]).length < MAX_BUFFER_SIZE
    rw [List.length_append, List.length_singleton]
    omega
  nul := by
    rw [List.mem_append, List.mem_singleton, not_or]
    exact ⟨h.nul, hc.symm⟩
  back := h.back
  arrowed := h.arrowed
  done := h.done

theorem Edits.promptIfDirty (h : e.Edits d) : e.promptIfDirty.Edits d := by
  unfold Editor.promptIfDirty
  split
  · exact (h.print _).printPrompt
  · exact h

theorem Edits.appendCharacter (h : e.Edits d) {c : Char} (hc : c ≠ NUL) :
    (e.appendCharacter c).Edits
      (if c = BACKSPACE ∨ c = DELETE then { d with line := d.line.dropLast }
      else if d.line.length < MAX_BUFFER_SIZE - 1 then { d with line := d.line ++ [c] } else d) := by
  have hprompted := h.promptIfDirty
  have hdim := hprompted.dim
  by_cases herase : c = BACKSPACE ∨ c = DELETE
  · rw [Editor.appendCharacter, if_pos herase, if_pos herase]
    exact h.deleteCharacter
  · rw [Editor.appendCharacter, if_neg herase, if_neg herase]
    dsimp only
    by_cases hroom : d.line.length < MAX_BUFFER_SIZE - 1
    · rw [if_pos hroom, if_neg (by omega)]
      exact (hprompted.append hc hroom).print _
    · rw [if_neg hroom, if_pos (by omega)]
      exact hprompted

/-! ## The arrows -/

/-- An arrow that has gone `back` lines looks into the row of that line. -/
theorem arrowed_eq {historyLast back : Nat} (hback : back < HISTORY_SIZE) :
    (historyLast + HISTORY_SIZE - back) % HISTORY_SIZE = rowOf historyLast ((back + 9) % HISTORY_SIZE) := by
  simp only [rowOf, HISTORY_SIZE] at hback ⊢
  omega

theorem deleteCharacter_history (e : Editor) : e.deleteCharacter.history = e.history := by
  unfold Editor.deleteCharacter
  split <;> rfl

/-- What no round of the loop changes. -/
theorem emptyScreenBuffer_keeps {α : Type} (f : Editor → α) (hf : ∀ e : Editor, f e.deleteCharacter = f e)
    (e : Editor) : f e.emptyScreenBuffer = f e := by
  have hrounds : ∀ n (e : Editor), f (Editor.deleteCharacter^[n] e) = f e := by
    intro n
    induction n with
    | zero => exact fun _ => rfl
    | succ n ih =>
      intro e
      rw [Function.iterate_succ_apply, ih, hf]
  exact hrounds _ e

theorem emptyScreenBuffer_row (e : Editor) (i : Nat) : e.emptyScreenBuffer.row i = e.row i := by
  rw [row, row, emptyScreenBuffer_keeps Editor.history deleteCharacter_history]

theorem Edits.showRow (h : e.Edits d) {i : Nat} {s : Str} (hat : At NUL (e.row i) 0 s)
    (hlt : s.length < MAX_BUFFER_SIZE) : (e.showRow i).Edits { d with line := s } := by
  have hempty := h.emptyScreenBuffer
  have hrow := strcpy_at hat
  have hlength := strlen_at hat
  rw [List.drop_zero] at hrow hlength
  obtain ⟨-, -, hnul⟩ := hat
  unfold Editor.showRow
  simp only [emptyScreenBuffer_row, hrow, hlength]
  have hshown : { e.emptyScreenBuffer with
      shell := { e.emptyScreenBuffer.shell with buffer := copyTo e.emptyScreenBuffer.shell.buffer s }
      historyBuffer := copyTo e.emptyScreenBuffer.historyBuffer s
      bufferDim := s.length }.Edits { d with line := s } :=
    ⟨hempty.ring.congr rfl rfl, (copyTo_length (by rw [hempty.length]; exact hlt)).trans hempty.length,
      prefix_copyTo _ s, (copyTo_length (by rw [hempty.copyLength]; exact hlt)).trans hempty.copyLength,
      prefix_copyTo _ s, rfl, hlt, hnul, hempty.back, hempty.arrowed, hempty.done⟩
  exact hshown.print _

/-- An arrow shows the line it comes to, if there is one. -/
theorem Edits.arrow_cases (h : e.Edits d) {back : Nat} (hback : back < HISTORY_SIZE) :
    let i := (e.historyLast + HISTORY_SIZE - back) % HISTORY_SIZE
    let moved : Editor := { e with lastArrowed := i }
    moved.Edits { d with back := back } ∧
      (d.past[(back + 9) % HISTORY_SIZE]? = none ∧ e.arrow i = moved ∨
        ∃ s, d.past[(back + 9) % HISTORY_SIZE]? = some s ∧ At NUL (moved.row i) 0 s ∧
          s.length < MAX_BUFFER_SIZE ∧ e.arrow i = moved.showRow i) := by
  intro i moved
  have hslot : (back + 9) % HISTORY_SIZE < HISTORY_SIZE := Nat.mod_lt _ (by decide)
  have hmoved : moved.Edits { d with back := back } :=
    ⟨h.ring.congr rfl rfl, h.length, h.line, h.copyLength, h.copy, h.dim, h.dim_lt, h.nul, hback, rfl, h.done⟩
  have hhead := hmoved.ring.head_iff hslot
  have hat := hmoved.ring.kept _ hslot
  rw [← arrowed_eq hback] at hhead hat
  refine ⟨hmoved, ?_⟩
  unfold Editor.arrow
  cases hpast : d.past[(back + 9) % HISTORY_SIZE]? with
  | none =>
    rw [hpast] at hhead
    exact .inl ⟨rfl, if_neg (fun hne => Bool.noConfusion (hhead.mp hne))⟩
  | some s =>
    rw [hpast] at hhead hat
    obtain ⟨-, -, hlt⟩ := h.ring.lines s (List.mem_of_getElem? hpast)
    exact .inr ⟨s, rfl, hat, hlt, if_pos (hhead.mpr rfl)⟩

theorem Edits.arrow (h : e.Edits d) {back : Nat} (hback : back < HISTORY_SIZE) :
    (e.arrow ((e.historyLast + HISTORY_SIZE - back) % HISTORY_SIZE)).Edits (d.goBack back) := by
  obtain ⟨hmoved, ⟨hpast, heq⟩ | ⟨s, hpast, hat, hlt, heq⟩⟩ := h.arrow_cases hback
  · rw [heq, Draft.goBack, hpast]
    exact hmoved
  · rw [heq, Draft.goBack, hpast]
    exact hmoved.showRow hat hlt

/-! ## The end of a line -/

/-- `parseLine` of an empty line fails. -/
theorem parseLine_nil (os : Answers) {s : Shell} (h : At NUL s.buffer 0 []) : (s.parseLine os).1 = true := by
  have hbar : s.splitPipe = (none, false, s) := by
    have habsent := strchr_absent h (c := '|') List.not_mem_nil 0
    rw [List.drop_zero] at habsent
    rw [Shell.splitPipe, habsent]
  have htrimmed := (trimWhitespace_at h (Nat.lt_succ_self _)).1
  have hhead : ((s.trimWhitespace 0).2.from_ (s.trimWhitespace 0).1).headD NUL = NUL :=
    (head_at htrimmed).mpr rfl
  unfold Shell.parseLine
  simp only [hbar, Bool.false_eq_true, if_false, Shell.trimSecond]
  rw [if_pos hhead]

/-- The line that is parsed is the line under edit. -/
theorem Edits.parsed (h : e.Edits d) : At NUL (e.shell.cut e.bufferDim).buffer 0 d.line := by
  rw [h.dim]
  exact at_of_prefix h.line (by rw [h.length]; exact h.dim_lt) h.nul

theorem Edits.ne_nil_of_accepts (h : e.Edits d) {os : Answers} (haccepts : e.accepts os = true) :
    d.line ≠ [] := by
  intro hnil
  have hparsed := h.parsed
  rw [hnil] at hparsed
  rw [accepts, parseLine_nil os hparsed] at haccepts
  cases haccepts

theorem row_set (e : Editor) (history : List (List Char)) {i : Nat} (h : i < e.history.length) (r : List Char)
    (j : Nat) (hhistory : history = e.history.set i r) :
    history.getD j [] = if j = i then r else e.row j := by
  rw [hhistory, row, List.getD_eq_getElem?_getD, List.getD_eq_getElem?_getD, List.getElem?_set]
  by_cases hj : j = i
  · rw [if_pos hj.symm, if_pos (hj ▸ h), if_pos hj]
    rfl
  · rw [if_neg (Ne.symm hj), if_neg hj]

/-- **A line that is kept** becomes the newest one, in the place of the oldest. -/
theorem Ring.remember {past : List Str} (h : e.Ring past) {line : Str} (hne : line ≠ []) (hnul : NUL ∉ line)
    (hlt : line.length < MAX_BUFFER_SIZE) (hdim : e.bufferDim = line.length)
    (hcopy : strncpy (MAX_BUFFER_SIZE - 1) e.historyBuffer = line) :
    e.remember.Ring (line :: past) := by
  have hlast : e.historyLast < e.history.length := by
    rw [h.length]
    exact h.last
  have hold : (e.row e.historyLast).length = MAX_BUFFER_SIZE := by
    refine h.rows _ ?_
    rw [row, List.getD_eq_getElem?_getD, List.getElem?_eq_getElem hlast]
    exact List.getElem_mem hlast
  have hstored : At NUL ((copyTo (e.row e.historyLast) line).set line.length NUL) 0 line := by
    have hat := copyTo_at (e.row e.historyLast) hnul
    rw [← List.append_nil line] at hat
    have htruncated := hat.truncate
    rwa [Nat.zero_add, List.append_nil] at htruncated
  have hrow (j : Nat) := row_set e e.remember.history hlast
    ((copyTo (e.row e.historyLast) line).set line.length NUL) j (by rw [Editor.remember, hcopy, hdim])
  refine ⟨List.length_set.trans h.length, ?_, Nat.mod_lt _ (by decide), ?_, ?_⟩
  · intro r hr
    rw [Editor.remember, hcopy, hdim] at hr
    rcases List.mem_or_eq_of_mem_set hr with hmem | rfl
    · exact h.rows r hmem
    · rw [List.length_set, copyTo_length (by omega), hold]
  · intro j hj
    show At NUL (e.remember.history.getD (rowOf ((e.historyLast + 1) % HISTORY_SIZE) j) []) 0 _
    rw [hrow]
    cases j with
    | zero =>
      rw [rowOf_next_zero h.last, if_pos rfl]
      exact hstored
    | succ j =>
      rw [rowOf_next_succ e.historyLast hj, if_neg (rowOf_ne h.last hj), List.getElem?_cons_succ]
      exact h.kept j (Nat.lt_of_succ_lt hj)
  · intro s hs
    rcases List.mem_cons.mp hs with rfl | hs
    · exact ⟨hne, hnul, hlt⟩
    · exact h.lines s hs

theorem Edits.submit (h : e.Edits d) (os : Answers) :
    (e.submit os).Edits
      (if e.accepts os then { d with line := [], past := d.line :: d.past, back := 0 }
      else { d with line := [] }) := by
  have hat := at_of_prefix h.copy (by rw [h.copyLength]; exact h.dim_lt) h.nul
  have hcopy : strncpy (MAX_BUFFER_SIZE - 1) (e.historyBuffer.set e.bufferDim NUL) = d.line := by
    have hbound := h.dim_lt
    have htake := strncpy_at hat (MAX_BUFFER_SIZE - 1)
    rw [List.drop_zero, List.take_of_length_le (by omega), ← h.dim] at htake
    exact htake
  have hdim : e.bufferDim < e.shell.buffer.length := by
    rw [h.length, h.dim]
    exact h.dim_lt
  have hconfined : Confined e.shell (e.shell.runLine os e.bufferDim) := .runLine hdim
  have hlength := hconfined.length.trans h.length
  have hcopyLength : (e.historyBuffer.set e.bufferDim NUL).length = MAX_BUFFER_SIZE :=
    List.length_set.trans h.copyLength
  have haccepts : (e.print (.putchar '\n')).accepts os = e.accepts os := rfl
  unfold Editor.submit
  dsimp only
  rw [haccepts]
  split
  · next haccepted =>
    have hring := Ring.remember (e := { e.print (.putchar '\n') with
      historyBuffer := e.historyBuffer.set e.bufferDim NUL }) (h.ring.congr rfl rfl)
      (h.ne_nil_of_accepts haccepted) h.nul h.dim_lt h.dim hcopy
    refine Edits.printPrompt ⟨hring.congr rfl rfl, List.length_set.trans hlength, List.nil_prefix,
      List.length_set.trans hcopyLength, List.nil_prefix, rfl, by simp [MAX_BUFFER_SIZE], List.not_mem_nil,
      by simp [HISTORY_SIZE], ?_, h.done⟩
    exact (Nat.mod_eq_of_lt (Nat.mod_lt _ (by decide))).symm.trans (Nat.add_mod_right _ _).symm
  · exact Edits.printPrompt ⟨h.ring.congr rfl rfl, List.length_set.trans hlength, List.nil_prefix,
      List.length_set.trans hcopyLength, List.nil_prefix, rfl, by simp [MAX_BUFFER_SIZE], List.not_mem_nil,
      h.back, h.arrowed, h.done⟩

/-! ## Keys -/

theorem Edits.type (h : e.Edits d) (os : Answers) {c : Char} (hc : c ≠ NUL) (hrunning : d.done = false)
    (reaped : Bool) : (e.type os c reaped).Edits (d.type c (e.accepts os)) := by
  have hchildren := h.handleBackgroundChildren reaped
  unfold Editor.type Draft.type
  split
  · exact h.submit os
  · split
    · exact hchildren.emptyScreenBuffer.reset.printPrompt
    · split
      · dsimp only
        split
        · next hempty =>
          have hnil : d.line = [] := List.eq_nil_of_length_eq_zero (h.dim.symm.trans hempty)
          rw [hnil]
          exact ⟨h.ring.congr rfl rfl, h.length, List.nil_prefix, h.copyLength, List.nil_prefix, hempty,
            by simp [MAX_BUFFER_SIZE], List.not_mem_nil, h.back, h.arrowed, rfl⟩
        · next hne =>
          have hcons : d.line.isEmpty = d.done := by
            rw [hrunning, List.isEmpty_eq_false_iff]
            intro hnil
            exact hne (hchildren.dim.trans (by rw [hnil]; rfl))
          rw [hcons]
          exact hchildren
      · exact hchildren.appendCharacter hc

/-- A key as the keyboard sends it: there is no NUL. -/
def Sent : KeyPress → Prop
  | .char c _ => c ≠ NUL
  | .up | .down => True

instance (k : KeyPress) : Decidable (Sent k) := by
  unfold Sent
  split <;> infer_instance

theorem Edits.previous_index (h : e.Edits d) : subMod e.lastArrowed 1 HISTORY_SIZE =
    (e.historyLast + HISTORY_SIZE - (d.back + 1) % HISTORY_SIZE) % HISTORY_SIZE := by
  have hback := h.back
  have hlast := h.ring.last
  rw [subMod_eq (by rw [h.arrowed]; exact Nat.mod_lt _ (by decide)), h.arrowed]
  simp only [HISTORY_SIZE] at hback hlast ⊢
  omega

theorem Edits.next_index (h : e.Edits d) : (e.lastArrowed + 1) % HISTORY_SIZE =
    (e.historyLast + HISTORY_SIZE - (d.back + 9) % HISTORY_SIZE) % HISTORY_SIZE := by
  have hback := h.back
  have hlast := h.ring.last
  rw [h.arrowed]
  simp only [HISTORY_SIZE] at hback hlast ⊢
  omega

/-- **Step.** A key does to the editor what it does to the draft. -/
theorem Edits.step (h : e.Edits d) (os : Answers) {k : KeyPress} (hk : Sent k) :
    (e.step os k).Edits (d.step k (e.accepts os)) := by
  unfold Editor.step Draft.step
  rw [h.done]
  split
  · exact h
  · next hrunning =>
    cases k with
    | char c reaped => exact h.type os hk (by simpa using hrunning) reaped
    | up =>
      dsimp only
      rw [printPreviousCommand, h.previous_index]
      exact h.arrow (Nat.mod_lt _ (by decide))
    | down =>
      dsimp only
      rw [printNextCommand, h.next_index]
      exact h.arrow (Nat.mod_lt _ (by decide))

/-- **Run.** -/
theorem Edits.run (h : e.Edits d) (os : Answers) {keys : List KeyPress} (hkeys : ∀ k ∈ keys, Sent k) :
    (e.run os keys).Edits (d.run (e.answered os keys)) := by
  induction keys generalizing e d with
  | nil => exact h
  | cons k keys ih =>
    exact ih (h.step os (hkeys k List.mem_cons_self)) fun k' hk' => hkeys k' (List.mem_cons_of_mem k hk')

theorem deleteCharacter_overrun (e : Editor) : e.deleteCharacter.shell.overrun = e.shell.overrun := by
  unfold Editor.deleteCharacter
  split <;> rfl

theorem appendCharacter_overrun (e : Editor) (c : Char) :
    (e.appendCharacter c).shell.overrun = e.shell.overrun := by
  have hprompt : e.promptIfDirty.shell.overrun = e.shell.overrun := by
    unfold Editor.promptIfDirty
    split <;> rfl
  unfold Editor.appendCharacter
  split
  · exact deleteCharacter_overrun e
  · dsimp only
    split
    · exact hprompt
    · exact hprompt

/-- **Step.** No key makes the shell write behind the end of `buffer`. -/
theorem Edits.step_overrun (h : e.Edits d) (os : Answers) (k : KeyPress) :
    (e.step os k).shell.overrun = e.shell.overrun := by
  have hempty := emptyScreenBuffer_keeps (fun e => e.shell.overrun) deleteCharacter_overrun
  have harrow (i : Nat) : (e.arrow i).shell.overrun = e.shell.overrun := by
    unfold Editor.arrow
    dsimp only
    split
    · exact hempty _
    · rfl
  unfold Editor.step
  split
  · rfl
  · cases k with
    | up => exact harrow _
    | down => exact harrow _
    | char c reaped =>
      dsimp only
      unfold Editor.type
      split
      · have hdim : e.bufferDim < e.shell.buffer.length := by
          rw [h.length, h.dim]
          exact h.dim_lt
        unfold Editor.submit
        dsimp only
        split
        · exact (Confined.runLine hdim).overrun
        · exact (Confined.runLine hdim).overrun
      · split
        · exact hempty _
        · split
          · dsimp only
            split <;> rfl
          · exact appendCharacter_overrun _ c

/-- **Run.** -/
theorem Edits.run_overrun (h : e.Edits d) (os : Answers) {keys : List KeyPress} (hkeys : ∀ k ∈ keys, Sent k) :
    (e.run os keys).shell.overrun = e.shell.overrun := by
  induction keys generalizing e d with
  | nil => rfl
  | cons k keys ih =>
    have hstep := h.step os (hkeys k List.mem_cons_self)
    exact (ih hstep fun k' hk' => hkeys k' (List.mem_cons_of_mem k hk')).trans (h.step_overrun os k)

theorem Edits.start {s : Shell} (hs : s.buffer.length = MAX_BUFFER_SIZE) : (Editor.start s).Edits {} := by
  refine Edits.printPrompt ⟨⟨List.length_replicate, ?_, show 0 < HISTORY_SIZE by decide, ?_, nofun⟩,
    List.length_set.trans hs, List.nil_prefix, List.length_set.trans List.length_replicate, List.nil_prefix, rfl,
    by simp [MAX_BUFFER_SIZE], List.not_mem_nil, by simp [HISTORY_SIZE],
    show 0 = (0 + HISTORY_SIZE - 0) % HISTORY_SIZE by decide, rfl⟩
  · intro r hr
    rw [List.eq_of_mem_replicate hr]
    exact List.length_replicate
  · intro j hj
    have hrow : (List.replicate HISTORY_SIZE (List.replicate MAX_BUFFER_SIZE NUL)).getD (rowOf 0 j) [] =
        List.replicate MAX_BUFFER_SIZE NUL := by
      rw [List.getD_eq_getElem?_getD, List.getElem?_replicate, if_pos (rowOf_lt 0 j)]
      rfl
    refine ⟨List.replicate (MAX_BUFFER_SIZE - 1) NUL, ?_, List.not_mem_nil⟩
    show (List.getD (List.replicate HISTORY_SIZE (List.replicate MAX_BUFFER_SIZE NUL)) (rowOf 0 j) []).drop 0 = _
    rw [hrow]
    rfl

/-! ## `history` -/

theorem Ring.historyFrom {past : List Str} (h : e.Ring past) {left j : Nat} (hj : j + left = HISTORY_SIZE) :
    e.historyFrom left (rowOf e.historyLast j) = (past.drop j).take left := by
  induction left generalizing j with
  | zero => rw [Editor.historyFrom, List.take_zero]
  | succ left ih =>
    have hlt : j < HISTORY_SIZE := by omega
    have hhead := h.head_iff hlt
    have hrow := strcpy_at (h.kept j hlt)
    rw [List.drop_zero] at hrow
    rw [Editor.historyFrom]
    cases hpast : past[j]? with
    | none =>
      rw [hpast] at hhead
      rw [if_neg (fun hne => Bool.noConfusion (hhead.mp hne)),
        List.drop_eq_nil_of_le (List.getElem?_eq_none_iff.mp hpast), List.take_nil]
    | some s =>
      rw [hpast] at hhead hrow
      obtain ⟨hbound, hget⟩ := List.getElem?_eq_some_iff.mp hpast
      rw [if_pos (hhead.mpr rfl), hrow, List.drop_eq_getElem_cons hbound, hget, List.take_succ_cons]
      congr 1
      cases left with
      | zero => rw [Editor.historyFrom, List.take_zero]
      | succ left =>
        rw [rowOf_succ (by simp only [HISTORY_SIZE] at hj; omega)]
        exact ih (by omega)

/-- `history` prints the lines kept, the newest one first. -/
theorem Ring.listHistory {past : List Str} (h : e.Ring past) : e.listHistory = past.take HISTORY_SIZE := by
  have hlast := h.last
  have hindex : subMod e.historyLast 1 HISTORY_SIZE = rowOf e.historyLast 0 := by
    rw [subMod_eq h.last]
    rfl
  rw [Editor.listHistory, hindex, h.historyFrom (Nat.zero_add _), List.drop_zero]

/-- **The line editor.** Whatever keys come, with whatever the calls of the commands return, no array is left, the
    line that a newline would have parsed is the draft, and `history` prints the last ten lines that were
    accepted, the newest one first. -/
theorem line_editor (os : Answers) {s : Shell} (hs : s.buffer.length = MAX_BUFFER_SIZE) {keys : List KeyPress}
    (hkeys : ∀ k ∈ keys, Sent k) :
    let e := (Editor.start s).run os keys
    let d := ({} : Draft).run ((Editor.start s).answered os keys)
    e.bufferDim < MAX_BUFFER_SIZE ∧ e.shell.buffer.length = MAX_BUFFER_SIZE ∧ e.shell.overrun = s.overrun ∧
      e.historyBuffer.length = MAX_BUFFER_SIZE ∧ e.history.length = HISTORY_SIZE ∧
      (∀ r ∈ e.history, r.length = MAX_BUFFER_SIZE) ∧ e.historyLast < HISTORY_SIZE ∧
      e.lastArrowed < HISTORY_SIZE ∧ e.returned = d.done ∧
      strcpy (e.shell.cut e.bufferDim).buffer = d.line ∧ e.listHistory = d.past.take HISTORY_SIZE := by
  have h := (Edits.start hs).run os hkeys
  have hparsed := strcpy_at h.parsed
  rw [List.drop_zero] at hparsed
  refine ⟨?_, h.length, (Edits.start hs).run_overrun os hkeys, h.copyLength, h.ring.length, h.ring.rows,
    h.ring.last, ?_, h.done, hparsed, h.ring.listHistory⟩
  · rw [h.dim]
    exact h.dim_lt
  · rw [h.arrowed]
    exact Nat.mod_lt _ (by decide)

/-- The shell as it starts, with calls that succeed. -/
def freshShell : Shell := { buffer := List.replicate MAX_BUFFER_SIZE NUL }

def willing : Answers := ⟨fun _ => true, fun _ => 3, fun _ => 0, fun _ => 5, fun _ => 0⟩

/-- A line is accepted, brought back with an arrow, and its last character erased. -/
def recallKeys : List KeyPress :=
  [.char 'p' false, .char 's' false, .char '\n' true, .char 'x' false, .up, .char BACKSPACE false]

theorem line_editor_recalled :
    let e := (Editor.start freshShell).run willing recallKeys
    e.shell.overrun = false ∧ strcpy (e.shell.cut e.bufferDim).buffer = ['p'] ∧ e.listHistory = [['p', 's']] := by
  have hkeys : ∀ k ∈ recallKeys, Sent k := by decide
  obtain ⟨-, -, hover, -, -, -, -, -, -, hline, hlist⟩ := @line_editor willing freshShell List.length_replicate _ hkeys
  have haccepted : (Editor.start freshShell).answered willing recallKeys =
      recallKeys.zip [false, false, true, false, false, true] := by
    decide +kernel
  rw [haccepted] at hline hlist
  exact ⟨hover, hline, hlist⟩

/-! ## The screen -/

/-- A character that takes a cell of the screen and that `printf` prints as it is. -/
def Showable (c : Char) : Prop := ' ' ≤ c ∧ c ≠ DELETE ∧ c ≠ '%'

instance (c : Char) : Decidable (Showable c) := inferInstanceAs (Decidable (_ ∧ _ ∧ _))

/-- The text behind the prompt, as far as it is known. -/
def showNext : Option Str → Echo → Option Str
  | _, .prompt => some []
  | none, _ => none
  | some t, .putchar c => if c = '\n' then some [] else if Showable c ∨ c = '%' then some (t ++ [c]) else none
  | some t, .clearScreenCharacter => some t.dropLast
  | some t, .print s => if s.all fun c => decide (Showable c) then some (t ++ s) else none

def shown (e : Editor) : Option Str := e.echo.foldl showNext (some [])

@[simp] theorem shown_print (e : Editor) (c : Echo) : (e.print c).shown = showNext e.shown c := by
  rw [shown, Editor.print, List.foldl_append]
  rfl

/-- The draft is on the screen, and so may be each line that is kept. -/
structure OnScreen (e : Editor) (d : Draft) : Prop where
  edits : e.Edits d
  shown : e.shown = some d.line
  line : ∀ c ∈ d.line, Showable c
  past : ∀ s ∈ d.past, ∀ c ∈ s, Showable c

theorem OnScreen.deleteCharacter (h : e.OnScreen d) :
    e.deleteCharacter.OnScreen { d with line := d.line.dropLast } := by
  refine ⟨h.edits.deleteCharacter, ?_, fun c hc => h.line c (List.dropLast_subset _ hc), h.past⟩
  unfold Editor.deleteCharacter
  split
  · next hempty =>
    have hnil : d.line = [] := List.eq_nil_of_length_eq_zero (h.edits.dim.symm.trans hempty)
    rw [h.shown, hnil]
    rfl
  · rw [shown_print]
    show showNext e.shown _ = _
    rw [h.shown]
    rfl

theorem OnScreen.emptyScreenBuffer (h : e.OnScreen d) :
    e.emptyScreenBuffer.OnScreen { d with line := [] } := by
  have hempty : ∀ n (e : Editor) (d : Draft), e.OnScreen d → d.line.length = n →
      (Editor.deleteCharacter^[n] e).shown = some [] := by
    intro n
    induction n with
    | zero =>
      intro e d h hn
      rw [Function.iterate_zero_apply, h.shown, List.eq_nil_of_length_eq_zero hn]
    | succ n ih =>
      intro e d h hn
      rw [Function.iterate_succ_apply]
      exact ih _ _ h.deleteCharacter (by rw [List.length_dropLast, hn]; rfl)
  exact ⟨h.edits.emptyScreenBuffer, hempty _ e d h h.edits.dim.symm, nofun, h.past⟩

theorem OnScreen.showRow (h : e.OnScreen d) {i : Nat} {s : Str} (hat : At NUL (e.row i) 0 s)
    (hlt : s.length < MAX_BUFFER_SIZE) (hs : ∀ c ∈ s, Showable c) :
    (e.showRow i).OnScreen { d with line := s } := by
  have hrow := strcpy_at hat
  rw [List.drop_zero, ← emptyScreenBuffer_row] at hrow
  refine ⟨h.edits.showRow hat hlt, ?_, hs, h.past⟩
  unfold Editor.showRow
  rw [shown_print]
  show showNext e.emptyScreenBuffer.shown (.print (strcpy (e.emptyScreenBuffer.row i))) = _
  have hall : s.all (fun c => decide (Showable c)) = true :=
    List.all_eq_true.mpr fun c hc => decide_eq_true (hs c hc)
  rw [h.emptyScreenBuffer.shown, hrow, showNext, if_pos hall, List.nil_append]

theorem OnScreen.arrow (h : e.OnScreen d) {back : Nat} (hback : back < HISTORY_SIZE) :
    (e.arrow ((e.historyLast + HISTORY_SIZE - back) % HISTORY_SIZE)).OnScreen (d.goBack back) := by
  obtain ⟨hmoved, ⟨hpast, heq⟩ | ⟨s, hpast, hat, hlt, heq⟩⟩ := h.edits.arrow_cases hback
  · rw [heq, Draft.goBack, hpast]
    exact ⟨hmoved, h.shown, h.line, h.past⟩
  · have hmoved' := OnScreen.mk hmoved h.shown h.line h.past
    rw [heq, Draft.goBack, hpast]
    exact hmoved'.showRow hat hlt (h.past s (List.mem_of_getElem? hpast))

theorem OnScreen.append (h : e.OnScreen d) {c : Char} (hc : Showable c) (hnul : c ≠ NUL)
    (hlt : d.line.length < MAX_BUFFER_SIZE - 1) :
    ({ e.put e.bufferDim c with bufferDim := e.bufferDim + 1 }.print (.putchar c)).OnScreen
      { d with line := d.line ++ [c] } := by
  have hline : c ≠ '\n' := by
    rintro rfl
    exact absurd hc (by decide)
  refine ⟨(h.edits.append hnul hlt).print _, ?_, ?_, h.past⟩
  · rw [shown_print]
    show showNext e.shown _ = _
    rw [h.shown, showNext, if_neg hline, if_pos (.inl hc)]
  · intro c' hc'
    rcases List.mem_append.mp hc' with hold | hnew
    · exact h.line c' hold
    · rw [List.mem_singleton.mp hnew]
      exact hc

theorem OnScreen.promptIfDirty (h : e.OnScreen d) : e.promptIfDirty.OnScreen d := by
  refine ⟨h.edits.promptIfDirty, ?_, h.line, h.past⟩
  unfold Editor.promptIfDirty
  split
  · next hempty =>
    have hnil : d.line = [] := List.eq_nil_of_length_eq_zero (h.edits.dim.symm.trans hempty.1)
    rw [hnil, Editor.printPrompt]
    exact shown_print _ _
  · exact h.shown

theorem shown_printPrompt (e : Editor) : e.printPrompt.shown = some [] := by
  show (e.print .prompt).shown = _
  rw [shown_print]
  cases e.shown with
  | none => rfl
  | some t => rfl

/-- A key that leaves the screen readable: a character that takes a cell, or one that edits. -/
def Visible : KeyPress → Prop
  | .char c _ => Showable c ∨ c = '\n' ∨ c = CTRL_C ∨ c = CTRL_D ∨ c = BACKSPACE ∨ c = DELETE
  | .up | .down => True

instance (k : KeyPress) : Decidable (Visible k) := by
  unfold Visible
  split <;> infer_instance

theorem Visible.sent {k : KeyPress} (h : Visible k) : Sent k := by
  cases k with
  | up => trivial
  | down => trivial
  | char c reaped =>
    rintro rfl
    have hnul : ¬ (Showable NUL ∨ NUL = '\n' ∨ NUL = CTRL_C ∨ NUL = CTRL_D ∨ NUL = BACKSPACE ∨ NUL = DELETE) := by
      decide
    exact hnul h

theorem OnScreen.appendCharacter (h : e.OnScreen d) {c : Char}
    (hc : Showable c ∨ c = BACKSPACE ∨ c = DELETE) (hnul : c ≠ NUL) :
    (e.appendCharacter c).OnScreen
      (if c = BACKSPACE ∨ c = DELETE then { d with line := d.line.dropLast }
      else if d.line.length < MAX_BUFFER_SIZE - 1 then { d with line := d.line ++ [c] } else d) := by
  have hprompted := h.promptIfDirty
  have hdim := hprompted.edits.dim
  by_cases herase : c = BACKSPACE ∨ c = DELETE
  · rw [Editor.appendCharacter, if_pos herase, if_pos herase]
    exact h.deleteCharacter
  · rw [Editor.appendCharacter, if_neg herase, if_neg herase]
    dsimp only
    by_cases hroom : d.line.length < MAX_BUFFER_SIZE - 1
    · rw [if_pos hroom, if_neg (by omega)]
      exact hprompted.append (hc.resolve_right herase) hnul hroom
    · rw [if_neg hroom, if_pos (by omega)]
      exact hprompted

theorem OnScreen.submit (h : e.OnScreen d) (os : Answers) :
    (e.submit os).OnScreen
      (if e.accepts os then { d with line := [], past := d.line :: d.past, back := 0 }
      else { d with line := [] }) := by
  have hedits := h.edits.submit os
  have hshown : (e.submit os).shown = some [] := shown_printPrompt _
  split at hedits
  · next haccepted =>
    rw [if_pos haccepted]
    refine ⟨hedits, hshown, nofun, ?_⟩
    intro s hs
    rcases List.mem_cons.mp hs with rfl | hs
    · exact h.line
    · exact h.past s hs
  · next hrejected =>
    rw [if_neg hrejected]
    exact ⟨hedits, hshown, nofun, h.past⟩

theorem OnScreen.type (h : e.OnScreen d) (os : Answers) {c : Char} {reaped : Bool} (hc : Visible (.char c reaped))
    (hrunning : d.done = false) (hstays : (e.type os c reaped).returned = false) :
    (e.type os c reaped).OnScreen (d.type c (e.accepts os)) := by
  have hedits := h.edits.type os hc.sent hrunning reaped
  have hchildren : (e.handleBackgroundChildren reaped).OnScreen d :=
    ⟨h.edits.handleBackgroundChildren reaped, h.shown, h.line, h.past⟩
  by_cases hline : c = '\n'
  · rw [Editor.type, Draft.type, if_pos hline, if_pos hline]
    exact h.submit os
  by_cases hctrlC : c = CTRL_C
  · rw [Editor.type, Draft.type, if_neg hline, if_neg hline, if_pos hctrlC, if_pos hctrlC]
    exact ⟨hchildren.edits.emptyScreenBuffer.reset.printPrompt, shown_printPrompt _, nofun, h.past⟩
  by_cases hctrlD : c = CTRL_D
  · rw [Editor.type, Draft.type, if_neg hline, if_neg hline, if_neg hctrlC, if_neg hctrlC, if_pos hctrlD,
      if_pos hctrlD] at hedits
    rw [Editor.type, if_neg hline, if_neg hctrlC, if_pos hctrlD] at hstays
    rw [Editor.type, Draft.type, if_neg hline, if_neg hline, if_neg hctrlC, if_neg hctrlC, if_pos hctrlD,
      if_pos hctrlD]
    by_cases hempty : (e.handleBackgroundChildren reaped).bufferDim = 0
    · rw [if_pos hempty] at hstays
      exact Bool.noConfusion hstays
    · rw [if_neg hempty] at hedits ⊢
      exact ⟨hedits, h.shown, h.line, h.past⟩
  · rw [Editor.type, Draft.type, if_neg hline, if_neg hline, if_neg hctrlC, if_neg hctrlC, if_neg hctrlD,
      if_neg hctrlD]
    have hwritten : Showable c ∨ c = BACKSPACE ∨ c = DELETE := by
      rcases hc with hshow | hn | hn | hn | hn
      · exact .inl hshow
      · exact absurd hn hline
      · exact absurd hn hctrlC
      · exact absurd hn hctrlD
      · exact .inr hn
    exact hchildren.appendCharacter hwritten hc.sent

/-- **Step.** Unless the shell is left, the line stays on the screen. -/
theorem OnScreen.step (h : e.OnScreen d) (os : Answers) {k : KeyPress} (hk : Visible k)
    (hrunning : e.returned = false) (hstays : (e.step os k).returned = false) :
    (e.step os k).OnScreen (d.step k (e.accepts os)) := by
  have hdone : d.done = false := h.edits.done.symm.trans hrunning
  unfold Editor.step at hstays ⊢
  unfold Draft.step
  simp only [hrunning, hdone, Bool.false_eq_true, if_false] at hstays ⊢
  cases k with
  | char c reaped => exact h.type os hk hdone hstays
  | up =>
    dsimp only
    rw [printPreviousCommand, h.edits.previous_index]
    exact h.arrow (Nat.mod_lt _ (by decide))
  | down =>
    dsimp only
    rw [printNextCommand, h.edits.next_index]
    exact h.arrow (Nat.mod_lt _ (by decide))

theorem step_returned {e : Editor} (h : e.returned = true) (os : Answers) (k : KeyPress) : e.step os k = e :=
  if_pos h

theorem run_returned {e : Editor} (h : e.returned = true) (os : Answers) (keys : List KeyPress) :
    e.run os keys = e := by
  induction keys with
  | nil => rfl
  | cons k keys ih =>
    rw [run, List.foldl_cons, step_returned h]
    exact ih

/-- **Run.** -/
theorem OnScreen.run (h : e.OnScreen d) (os : Answers) {keys : List KeyPress} (hkeys : ∀ k ∈ keys, Visible k)
    (hrunning : e.returned = false) (hstays : (e.run os keys).returned = false) :
    (e.run os keys).OnScreen (d.run (e.answered os keys)) := by
  induction keys generalizing e d with
  | nil => exact h
  | cons k keys ih =>
    have hnext : (e.step os k).returned = false := by
      by_contra hne
      have hback : (e.step os k).run os keys = e.step os k := run_returned (by simpa using hne) os keys
      exact hne (hback ▸ hstays)
    exact ih (h.step os (hkeys k List.mem_cons_self) hrunning hnext)
      (fun k' hk' => hkeys k' (List.mem_cons_of_mem k hk')) hnext hstays

end Editor

end TpSo
