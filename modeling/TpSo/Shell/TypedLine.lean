import TpSo.Keyboard.Typing
import TpSo.Shell.Editing
import TpSo.Shell.Splitting

set_option autoImplicit false

/-! # A line typed on the keyboard

The keyboard driver, the line editor and the parser in a row: a line that is typed and ended with the return key
starts the processes that it asks for. -/

namespace TpSo

open Shell CString

/-- `getchar` returns the bytes that the keyboard has sent, one for each, in their order. -/
def Received : List Key → List KeyPress → Prop :=
  List.Forall₂ fun k p => ∃ byte reaped, k = .char byte ∧ p = .char (Char.ofNat byte.toNat) reaped

namespace Shell

/-- A line that asks for external commands is accepted, if no call fails. -/
theorem Plain.accepted {os : Answers} (hall : os.Succeed) {s : Shell} {line : Str} (h : Plain line)
    (hat : At NUL s.buffer 0 line) : (s.parseLine os).1 = false := by
  rcases h.cases with ⟨hbar, hone⟩ | ⟨left, right, hlr, hbarl, hbarr, htwo⟩
  · have hside := h.side (by rw [hone]; exact List.mem_singleton.mpr rfl)
    obtain ⟨-, ⟨hfalse, -⟩ | ⟨-, hfailed⟩⟩ :=
      @parseLine_single os _ s line hside hbar hat (Nat.lt_succ_self _)
    · exact hfalse
    · exact absurd hall hfailed
  · have hleft := h.side (by rw [htwo]; exact List.mem_cons_self)
    have hright := h.side (show right ∈ sides line by rw [htwo]; simp)
    obtain ⟨-, ⟨hfalse, -⟩ | ⟨-, hfailed⟩⟩ :=
      @parseLine_pipe os _ s left right hleft hright hbarl hbarr (hlr ▸ hat)
        (Nat.lt_succ_self _)
    · exact hfalse
    · exact absurd hall hfailed

end Shell

namespace Editor

variable {e : Editor} {d : Draft} {os : Answers}

/-- A character that stands for itself. -/
def Literal (c : Char) : Prop := 32 ≤ c.toNat ∧ c.toNat ≤ 126

instance (c : Char) : Decidable (Literal c) := inferInstanceAs (Decidable (_ ∧ _))

/-- The keys that edit. -/
def editing : List Char := [NUL, '\n', CTRL_C, CTRL_D, BACKSPACE, DELETE]

theorem Literal.ne {c k : Char} (h : Literal c) (hk : k ∈ editing) : c ≠ k := by
  have hnone : editing.all (fun k => decide (¬ Literal k)) = true := by decide
  rintro rfl
  exact of_decide_eq_true (List.all_eq_true.mp hnone c hk) h

theorem Literal.type {c : Char} (hc : Literal c) (d : Draft) (accepted : Bool)
    (hroom : d.line.length < MAX_BUFFER_SIZE - 1) :
    d.type c accepted = { d with line := d.line ++ [c] } := by
  have hedits : ¬ (c = BACKSPACE ∨ c = DELETE) := by
    rintro (h | h)
    · exact hc.ne (by decide) h
    · exact hc.ne (by decide) h
  rw [Draft.type, if_neg (hc.ne (by decide)), if_neg (hc.ne (by decide)), if_neg (hc.ne (by decide)),
    if_neg hedits, if_pos hroom]

theorem promptIfDirty_log (e : Editor) : e.promptIfDirty.shell.log = e.shell.log := by
  unfold Editor.promptIfDirty
  split <;> rfl

theorem Literal.type_log {c : Char} (hc : Literal c) (e : Editor) (reaped : Bool) :
    (e.type os c reaped).shell.log = e.shell.log := by
  have hedits : ¬ (c = BACKSPACE ∨ c = DELETE) := by
    rintro (h | h)
    · exact hc.ne (by decide) h
    · exact hc.ne (by decide) h
  rw [Editor.type, if_neg (hc.ne (by decide)), if_neg (hc.ne (by decide)), if_neg (hc.ne (by decide)),
    Editor.appendCharacter, if_neg hedits]
  dsimp only
  split
  · exact promptIfDirty_log _
  · exact promptIfDirty_log (e.handleBackgroundChildren reaped)

/-- Characters typed one after the other come to stand behind the line. -/
theorem Edits.typeText (h : e.Edits d) (hdone : d.done = false) {text : Str} (htext : ∀ c ∈ text, Literal c)
    (hroom : d.line.length + text.length < MAX_BUFFER_SIZE) {keys : List KeyPress}
    (hkeys : List.Forall₂ (fun c k => ∃ reaped, k = .char c reaped) text keys) :
    (e.run os keys).Edits { d with line := d.line ++ text } ∧ (e.run os keys).shell.log = e.shell.log := by
  induction hkeys generalizing e d with
  | nil =>
    rw [List.append_nil]
    exact ⟨h, rfl⟩
  | @cons c k text keys hk _ ih =>
    obtain ⟨reaped, rfl⟩ := hk
    have hc := htext c List.mem_cons_self
    rw [List.length_cons] at hroom
    have hstep := h.step os (k := .char c reaped) (hc.ne (by decide))
    have hnext : d.step (.char c reaped) (e.accepts os) = { d with line := d.line ++ [c] } := by
      rw [Draft.step, if_neg (by rw [hdone]; decide)]
      exact hc.type d _ (by omega)
    have hlog : (e.step os (.char c reaped)).shell.log = e.shell.log := by
      simp only [Editor.step, h.done, hdone, Bool.false_eq_true, if_false]
      exact hc.type_log e reaped
    rw [hnext] at hstep
    obtain ⟨hrest, hrestlog⟩ := ih hstep hdone (fun c' hc' => htext c' (List.mem_cons_of_mem c hc'))
      (by simp only [List.length_append, List.length_singleton]; omega)
    rw [List.append_assoc] at hrest
    exact ⟨hrest, hrestlog.trans hlog⟩

/-- A line that asks for external commands starts them when it ends. -/
theorem Edits.submit_plain (h : e.Edits d) (hall : os.Succeed) (hplain : Plain d.line) :
    (e.submit os).Edits { d with line := [], past := d.line :: d.past, back := 0 } ∧
      (e.submit os).shell.created =
        e.shell.created ++ planned (codeBackground d.line) (codeJobs d.line) := by
  have haccepts : e.accepts os = true := by
    rw [accepts, hplain.accepted hall h.parsed]
    rfl
  have hedits := h.submit os
  rw [if_pos haccepts] at hedits
  obtain ⟨started, pids, hstarts, -, hsucceed⟩ := @runLine_spec os e.shell d.line hplain h.length h.line
  refine ⟨hedits, ?_⟩
  have hcreated : (e.submit os).shell.created = (e.shell.runLine os e.bufferDim).created := rfl
  rw [hcreated, h.dim, hstarts.created, (hsucceed hall).1]

/-! ## From the keyboard to the processes -/

theorem toNat_ch {c : Char} (h : c.toNat < 256) : (ch c).toNat = c.toNat :=
  UInt8.toNat_ofNat_of_lt' h

/-- A character that can be typed in a line, or the return key that ends it. -/
theorem toNat_of_typed {c : Char} (h : Literal c ∨ c = '\n') : 32 ≤ c.toNat ∧ c.toNat ≤ 126 ∨ c.toNat = 10 := by
  rcases h with hc | rfl
  · exact .inl hc
  · exact .inr rfl

theorem onLayout_ch {c : Char} (h : Literal c ∨ c = '\n') : OnLayout (ch c) := by
  have hbounds := toNat_of_typed h
  have hch : (ch c).toNat = c.toNat := toNat_ch (by omega)
  unfold OnLayout
  rw [UInt8.le_iff_toNat_le, UInt8.le_iff_toNat_le, ← UInt8.toNat_inj, ← UInt8.toNat_inj, ← UInt8.toNat_inj, hch]
  rcases hbounds with hprintable | hreturn
  · exact .inl hprintable
  · exact .inr (.inr (.inr hreturn))

/-- What the shell receives is what was typed. -/
theorem received_typing {text : Str} (h : ∀ c ∈ text, Literal c ∨ c = '\n') {keys : List KeyPress}
    (hkeys : Received (Keyboard.run {} (typing (text.map ch))).2 keys) :
    List.Forall₂ (fun c k => ∃ reaped, k = .char c reaped) text keys := by
  have hlayout : ∀ c ∈ text.map ch, OnLayout c := by
    intro c hc
    obtain ⟨c', hc', rfl⟩ := List.mem_map.mp hc
    exact onLayout_ch (h c' hc')
  have hsent : (Keyboard.run {} (typing (text.map ch))).2 = text.map fun c => .char (ch c) := by
    have hrun : Keyboard.run {} (typing (text.map ch)) = _ := run_typing false hlayout
    rw [hrun, List.map_map]
    rfl
  have hback : text.map (fun c => Char.ofNat (ch c).toNat) = text := by
    apply List.map_congr_left (g := id) _ |>.trans (List.map_id _)
    intro c hc
    have hbounds := toNat_of_typed (h c hc)
    rw [toNat_ch (by omega), Char.ofNat_toNat]
    rfl
  rw [hsent, Received, List.forall₂_map_left_iff] at hkeys
  rw [← hback, List.forall₂_map_left_iff]
  refine hkeys.imp ?_
  rintro c k ⟨byte, reaped, hbyte, rfl⟩
  obtain rfl : ch c = byte := Key.char.inj hbyte
  exact ⟨reaped, rfl⟩

/-- A line that is typed where there is none, and ended. -/
theorem Edits.typeLine (h : e.Edits d) (hall : os.Succeed) (hline : d.line = []) (hdone : d.done = false)
    {line : Str} (hplain : Plain line) (hliteral : ∀ c ∈ line, Literal c) {typed : List KeyPress}
    (htyped : List.Forall₂ (fun c k => ∃ reaped, k = .char c reaped) (line ++ ['\n']) typed) :
    (e.run os typed).Edits { d with line := [], past := line :: d.past, back := 0 } ∧
      (e.run os typed).shell.created = e.shell.created ++ planned (codeBackground line) (codeJobs line) := by
  have htext := List.forall₂_take_append _ _ _ htyped.flip
  have hreturn := List.forall₂_drop_append _ _ _ htyped.flip
  obtain ⟨k, rest, ⟨reaped, rfl⟩, hrest, hlast⟩ := List.forall₂_cons_right_iff.mp hreturn
  rw [List.forall₂_nil_right_iff.mp hrest] at hlast
  have hroom : d.line.length + line.length < MAX_BUFFER_SIZE := by
    rw [hline, List.length_nil, Nat.zero_add]
    exact hplain.length
  obtain ⟨hfull, hlog⟩ := @Edits.typeText e d os h hdone line hliteral hroom _ htext.flip
  rw [hline, List.nil_append] at hfull
  have hrun : e.run os typed = (e.run os (typed.take line.length)).submit os := by
    have hsplit := List.take_append_drop line.length typed
    rw [hlast] at hsplit
    have hsubmit : (e.run os (typed.take line.length)).step os (.char '\n' reaped) =
        (e.run os (typed.take line.length)).submit os := by
      simp only [Editor.step, hfull.done, hdone, Bool.false_eq_true, if_false]
      rfl
    rw [← hsubmit]
    conv_lhs => rw [← hsplit, Editor.run, List.foldl_append]
    rfl
  obtain ⟨hsubmitted, hcreated⟩ := hfull.submit_plain hall hplain
  rw [hrun]
  refine ⟨hsubmitted, ?_⟩
  rw [hcreated, Shell.created, hlog]
  rfl

/-- **A typed line runs.** Whatever has been typed before: where the shell waits with an empty line, the scancodes
    of a line of external commands and of the return key make it start the processes that the line asks for,
    with the words of each side as arguments, and put the line into the history. -/
theorem typed_line_runs (hall : os.Succeed) {s : Shell} (hs : s.buffer.length = MAX_BUFFER_SIZE)
    {before typed : List KeyPress} (hbefore : ∀ k ∈ before, Sent k)
    (hempty : ((Editor.start s).run os before).bufferDim = 0)
    (hrunning : ((Editor.start s).run os before).returned = false) {line : Str} (hplain : Plain line)
    (hliteral : ∀ c ∈ line, Literal c) (hsingle : SingleSpaced line) (hpipe : NoPipedAmpersand line)
    (htyped : Received (Keyboard.run {} (typing ((line ++ ['\n']).map ch))).2 typed) :
    let e := (Editor.start s).run os before
    let e' := e.run os typed
    e'.shell.created = e.shell.created ++ planned (background line) (jobs line) ∧
      e'.listHistory = (line :: e.listHistory).take HISTORY_SIZE ∧ e'.bufferDim = 0 ∧ e'.returned = false := by
  intro e e'
  have h := (Edits.start hs).run os hbefore
  have hline := List.eq_nil_of_length_eq_zero (h.dim.symm.trans hempty)
  have hdone := h.done.symm.trans hrunning
  have hchars : ∀ c ∈ line ++ ['\n'], Literal c ∨ c = '\n' := by
    intro c hc
    rcases List.mem_append.mp hc with hmem | hmem
    · exact .inl (hliteral c hmem)
    · exact .inr (List.mem_singleton.mp hmem)
  obtain ⟨h', hcreated⟩ := h.typeLine hall hline hdone hplain hliteral (received_typing hchars htyped)
  rw [codeBackground_eq hplain hsingle hpipe, (codeJobs_eq_iff hplain).mpr ⟨hsingle, hpipe⟩] at hcreated
  refine ⟨hcreated, ?_, h'.dim, h'.done.trans hdone⟩
  rw [h'.ring.listHistory, h.ring.listHistory]
  simp only [HISTORY_SIZE, List.take_succ_cons, List.take_take, Nat.min_eq_left (show 9 ≤ 10 by decide)]

/-- `ps &`, typed behind a line that was given up. -/
theorem typed_line_runs_background :
    (((Editor.start freshShell).run allSucceed [.char 'x' false, .char CTRL_C true]).run allSucceed
      [.char 'p' false, .char 's' false, .char ' ' true, .char '&' false, .char '\n' false]).shell.created =
      [([some ['p', 's']], false)] := by
  have hsides : sides ['p', 's', ' ', '&'] = [['p', 's', ' ', '&']] := by decide
  have hplain : Plain ['p', 's', ' ', '&'] := by
    refine ⟨by decide, by decide, by simp [isspace], by decide, ?_, ?_⟩ <;> intro side hside <;>
      rw [hsides, List.mem_singleton] at hside <;> subst hside
    · exact ⟨['p', 's'], [['&']], by decide, by decide⟩
    · decide
  have hsingle : SingleSpaced ['p', 's', ' ', '&'] := by
    intro side hside
    rw [hsides, List.mem_singleton] at hside
    subst hside
    decide
  have hliteral : ['p', 's', ' ', '&'].all (fun c => decide (Literal c)) = true := by decide
  have hsent : (Keyboard.run {} (typing (['p', 's', ' ', '&', '\n'].map ch))).2 =
      [.char 112, .char 115, .char 32, .char 38, .char 10] := by decide +kernel
  have hreceived : Received (Keyboard.run {} (typing (['p', 's', ' ', '&', '\n'].map ch))).2
      [.char 'p' false, .char 's' false, .char ' ' true, .char '&' false, .char '\n' false] := by
    rw [hsent]
    exact .cons ⟨_, _, rfl, rfl⟩ (.cons ⟨_, _, rfl, rfl⟩ (.cons ⟨_, _, rfl, rfl⟩ (.cons ⟨_, _, rfl, rfl⟩
      (.cons ⟨_, _, rfl, rfl⟩ .nil))))
  exact (@typed_line_runs allSucceed allSucceed_succeed freshShell List.length_replicate
    [.char 'x' false, .char CTRL_C true] _ (by decide) rfl rfl ['p', 's', ' ', '&'] hplain
    (fun c hc => of_decide_eq_true (List.all_eq_true.mp hliteral c hc)) hsingle
    (fun htwo => absurd htwo (by decide)) hreceived).1

end Editor

end TpSo
