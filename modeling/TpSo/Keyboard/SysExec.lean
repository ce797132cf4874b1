import Mathlib.Logic.Function.Basic
import TpSo.Terminal.Console

set_option autoImplicit false

/-! # Programs started by `sys_exec`

`sys_exec` clears the screen, takes away the keys that programs have registered, and runs a function that may itself
register keys, draw, change the font and call `sys_exec`. Afterwards keys, font size and colours are as
they were. `KeyFnMap` is the table of `keyboard.c`; handlers are of any type. -/

namespace TpSo.SysExec

open Terminal (Console Screen Window Fonts)

def ESCAPE_KEY : Nat := 0x01
def F12_KEY : Nat := 0x58

/-! ## `KeyFnMap` -/

/-- An entry of `KeyFnMap`; `none` is `NULL`. -/
structure RegisteredKey (Handler : Type) where
  registeredFromKernel : UInt8 := 0
  fn : Option Handler := none

variable {Handler : Type}

/-- `KeyFnMap`, by scancode. -/
abbrev KeyFnMap (Handler : Type) := Nat → RegisteredKey Handler

/-- The scancodes of the loops. -/
@[irreducible] def keycodes : List Nat := List.range' ESCAPE_KEY F12_KEY

/-- The body of the loop of `clearKeyFnMapNonKernel`. -/
def clearEntry (s : (Nat → Option Handler) × KeyFnMap Handler) (i : Nat) :
    (Nat → Option Handler) × KeyFnMap Handler :=
  let (map, keys) := s
  if (keys i).registeredFromKernel = 0 then
    (Function.update map i (keys i).fn, Function.update keys i { keys i with fn := none })
  else (map, keys)

/-- `clearKeyFnMapNonKernel`, with the array it fills. -/
def clearKeyFnMapNonKernel (map : Nat → Option Handler) (keys : KeyFnMap Handler) :
    (Nat → Option Handler) × KeyFnMap Handler :=
  keycodes.foldl clearEntry (map, keys)

/-- The body of the loop of `restoreKeyFnMapNonKernel`. -/
def restoreEntry (map : Nat → Option Handler) (keys : KeyFnMap Handler) (i : Nat) : KeyFnMap Handler :=
  if (keys i).registeredFromKernel = 0 then Function.update keys i { keys i with fn := map i } else keys

/-- `restoreKeyFnMapNonKernel`. -/
def restoreKeyFnMapNonKernel (map : Nat → Option Handler) (keys : KeyFnMap Handler) : KeyFnMap Handler :=
  keycodes.foldl (restoreEntry map) keys

/-- `registerSpecialKey`, with what it returns. -/
def registerSpecialKey (scancode : UInt8) (fn : Option Handler) (registeredFromKernel : UInt8)
    (keys : KeyFnMap Handler) : UInt8 × KeyFnMap Handler :=
  let i := scancode.toNat
  if (ESCAPE_KEY ≤ i ∧ i ≤ F12_KEY) ∧
      (registeredFromKernel ≠ 0 ∨ registeredFromKernel = 0 ∧ (keys i).fn.isNone) then
    (1, Function.update keys i { registeredFromKernel := registeredFromKernel, fn := fn })
  else (0, keys)

/-! ## `sys_exec` -/

/-- The keys and the terminal. -/
structure State (Handler : Type) where
  keys : KeyFnMap Handler
  console : Console

namespace State

/-- A call into the terminal that returns. -/
def onScreen (f : Screen → Screen) (s : State Handler) : State Handler :=
  { s with console := { s.console with screen := f s.console.screen } }

/-- `sys_register_key`. -/
def sysRegisterKey (scancode : UInt8) (fn : Option Handler) (s : State Handler) : State Handler :=
  { s with keys := (registerSpecialKey scancode fn 0 s.keys).2 }

/-- The fonts' variables that `sys_exec` saves. -/
def fonts (s : State Handler) : Fonts := s.console.screen.fonts

end State

/-- What `sys_exec` does before it calls the function. -/
def enter (s : State Handler) : State Handler :=
  { s.onScreen Screen.clear with keys := (clearKeyFnMapNonKernel (fun _ => none) s.keys).2 }

/-- What it does with the state `s1` the function has left, when it was called in `s`. -/
def leave (s s1 : State Handler) : State Handler :=
  let fontSize := BitVec.ofNat 8 (s.onScreen Screen.clear).fonts.fontSize
  let textColor := (s.onScreen Screen.clear).fonts.textColor
  let backgroundColor := (s.onScreen Screen.clear).fonts.backgroundColor
  let map := (clearKeyFnMapNonKernel (fun _ => none) s.keys).1
  let s1 := { s1 with keys := restoreKeyFnMapNonKernel map s1.keys }
  let s1 := s1.onScreen fun screen => screen.onFonts (Terminal.setFontSize fontSize)
  let s1 := s1.onScreen fun screen => screen.onFonts (Fonts.setColors textColor backgroundColor)
  s1.onScreen Screen.clear

/-- `sys_exec`, with what it returns; `fnPtr` gives `none` if it does not return. -/
def sysExec (fnPtr : State Handler → Option (Int × State Handler)) (s : State Handler) :
    Option (Int × State Handler) := do
  let (aux, s1) ← fnPtr (enter s)
  return (aux, leave s s1)

/-- What a function may do that runs under `sys_exec`. What it does next may depend on what a call of `sys_exec`
    returned. -/
inductive Program (Handler : Type)
  | result (aux : Int)
  | registerKey (scancode : UInt8) (fn : Option Handler) (next : Program Handler)
  | draw (c : Terminal.Call) (next : Program Handler)
  | print (e : Stdio.Event) (next : Program Handler)
  | exec (fnPtr : Program Handler) (next : Int → Program Handler)

/-- A run of the function. -/
def Program.run (font : Int → BitVec 8) (w : Window) :
    Program Handler → State Handler → Option (Int × State Handler)
  | .result aux, s => some (aux, s)
  | .registerKey scancode fn next, s => next.run font w (s.sysRegisterKey scancode fn)
  | .draw c next, s => do
    let screen ← s.console.screen.step font w c
    next.run font w { s with console := { s.console with screen := screen } }
  | .print e next, s => do
    let console ← s.console.call font w e
    next.run font w { s with console := console }
  | .exec fnPtr next, s => do
    let (aux, s) ← sysExec (fnPtr.run font w) s
    (next aux).run font w s

/-! ## The loops -/

variable {keys keys' keys'' : KeyFnMap Handler}

theorem mem_keycodes {i : Nat} : i ∈ keycodes ↔ ESCAPE_KEY ≤ i ∧ i ≤ F12_KEY := by
  rw [keycodes, List.mem_range'_1]
  simp only [ESCAPE_KEY, F12_KEY]
  omega

/-- What the loop of `clearKeyFnMapNonKernel` takes out of an entry, and what it leaves there. -/
theorem foldl_clearEntry {l : List Nat} (hl : l.Nodup) (s : (Nat → Option Handler) × KeyFnMap Handler)
    (i : Nat) :
    ((l.foldl clearEntry s).1 i, (l.foldl clearEntry s).2 i) =
      if i ∈ l ∧ (s.2 i).registeredFromKernel = 0 then ((s.2 i).fn, { s.2 i with fn := none })
      else (s.1 i, s.2 i) := by
  induction l generalizing s with
  | nil => simp
  | cons j l ih =>
    obtain ⟨hj, hl⟩ := List.nodup_cons.mp hl
    rw [List.foldl_cons, ih hl]
    by_cases hij : i = j
    · subst hij
      rw [if_neg (fun h => hj h.1), clearEntry]
      by_cases hkernel : (s.2 i).registeredFromKernel = 0
      · simp [hkernel]
      · simp [hkernel]
    · have hother : (clearEntry s j).1 i = s.1 i ∧ (clearEntry s j).2 i = s.2 i := by
        simp only [clearEntry]
        split
        · exact ⟨Function.update_of_ne hij _ _, Function.update_of_ne hij _ _⟩
        · exact ⟨rfl, rfl⟩
      simp only [hother.1, hother.2, List.mem_cons, hij, false_or]

theorem foldl_restoreEntry (l : List Nat) (map : Nat → Option Handler) (keys : KeyFnMap Handler) (i : Nat) :
    l.foldl (restoreEntry map) keys i =
      if i ∈ l ∧ (keys i).registeredFromKernel = 0 then { keys i with fn := map i } else keys i := by
  induction l generalizing keys with
  | nil => simp
  | cons j l ih =>
    rw [List.foldl_cons, ih]
    by_cases hij : i = j
    · subst hij
      rw [restoreEntry]
      by_cases hkernel : (keys i).registeredFromKernel = 0
      · simp [hkernel]
      · simp [hkernel]
    · have hother : restoreEntry map keys j i = keys i := by
        unfold restoreEntry
        split
        · exact Function.update_of_ne hij _ _
        · rfl
      simp only [hother, List.mem_cons, hij, false_or]

/-! ## What a program can do to the keys -/

/-- A program leaves the handlers of the kernel alone. It may take an entry of the kernel's that has no handler,
    and then it is one of the programs'. -/
structure KeepsKernel (keys keys' : KeyFnMap Handler) : Prop where
  kernel : ∀ i, (keys i).registeredFromKernel ≠ 0 →
    keys' i = keys i ∨ (keys i).fn = none ∧ (keys' i).registeredFromKernel = 0
  program : ∀ i, (keys i).registeredFromKernel = 0 → (keys' i).registeredFromKernel = 0
  outside : ∀ i, i ∉ keycodes → keys' i = keys i

theorem KeepsKernel.refl (keys : KeyFnMap Handler) : KeepsKernel keys keys :=
  ⟨fun _ _ => .inl rfl, fun _ h => h, fun _ _ => rfl⟩

theorem KeepsKernel.trans (h : KeepsKernel keys keys') (h' : KeepsKernel keys' keys'') : KeepsKernel keys keys'' where
  kernel i hi := by
    rcases h.kernel i hi with heq | ⟨hnone, hfree⟩
    · rw [← heq] at hi
      rcases h'.kernel i hi with heq' | hfreed
      · exact .inl (heq'.trans heq)
      · rw [heq] at hfreed
        exact .inr hfreed
    · exact .inr ⟨hnone, h'.program i hfree⟩
  program i hi := h'.program i (h.program i hi)
  outside i hi := (h'.outside i hi).trans (h.outside i hi)

theorem keepsKernel_registerSpecialKey (scancode : UInt8) (fn : Option Handler) (keys : KeyFnMap Handler) :
    KeepsKernel keys (registerSpecialKey scancode fn 0 keys).2 := by
  simp only [registerSpecialKey]
  split
  · next h =>
    obtain ⟨⟨hge, hle⟩, hfree⟩ := h
    have hnone : (keys scancode.toNat).fn = none := by
      rcases hfree with hfree | hfree
      · exact absurd rfl hfree
      · exact Option.isNone_iff_eq_none.mp hfree.2
    show KeepsKernel keys (Function.update keys scancode.toNat { registeredFromKernel := 0, fn := fn })
    refine ⟨fun i hi => ?_, fun i hi => ?_, fun i hi => ?_⟩
    · by_cases hscan : i = scancode.toNat
      · subst hscan
        exact .inr ⟨hnone, by rw [Function.update_self]⟩
      · exact .inl (Function.update_of_ne hscan _ _)
    · by_cases hscan : i = scancode.toNat
      · subst hscan
        rw [Function.update_self]
      · rw [Function.update_of_ne hscan]
        exact hi
    · have hscan : i ≠ scancode.toNat := by
        rintro rfl
        exact hi (mem_keycodes.mpr ⟨hge, hle⟩)
      exact Function.update_of_ne hscan _ _
  · exact .refl keys

/-! ## What `sys_exec` does to the keys -/

/-- What is saved of an entry, and what is left of it. -/
theorem clear_at (keys : KeyFnMap Handler) (i : Nat) :
    ((clearKeyFnMapNonKernel (fun _ => none) keys).1 i, (clearKeyFnMapNonKernel (fun _ => none) keys).2 i) =
      if i ∈ keycodes ∧ (keys i).registeredFromKernel = 0 then ((keys i).fn, { keys i with fn := none })
      else (none, keys i) := by
  have hnodup : keycodes.Nodup := by
    rw [keycodes]
    exact List.nodup_range'
  rw [clearKeyFnMapNonKernel, foldl_clearEntry hnodup]

theorem restore_at (map : Nat → Option Handler) (keys : KeyFnMap Handler) (i : Nat) :
    restoreKeyFnMapNonKernel map keys i =
      if i ∈ keycodes ∧ (keys i).registeredFromKernel = 0 then { keys i with fn := map i } else keys i := by
  rw [restoreKeyFnMapNonKernel, foldl_restoreEntry]

/-- Every entry is as it was, but that an empty one of the kernel's may have become an empty one of the
    programs'. -/
def SameHandlers (keys keys' : KeyFnMap Handler) : Prop :=
  ∀ i, keys' i = keys i ∨
    i ∈ keycodes ∧ (keys i).registeredFromKernel ≠ 0 ∧ (keys i).fn = none ∧ keys' i = {}

theorem SameHandlers.fn (h : SameHandlers keys keys') (i : Nat) : (keys' i).fn = (keys i).fn := by
  rcases h i with heq | ⟨-, -, hnone, hempty⟩
  · rw [heq]
  · rw [hempty, hnone]

theorem SameHandlers.keepsKernel (h : SameHandlers keys keys') : KeepsKernel keys keys' := by
  refine ⟨fun i hi => ?_, fun i hi => ?_, fun i hi => ?_⟩
  · rcases h i with heq | ⟨-, -, hnone, hempty⟩
    · exact .inl heq
    · exact .inr ⟨hnone, by rw [hempty]⟩
  · rcases h i with heq | ⟨-, hkernel, -, -⟩
    · rw [heq]
      exact hi
    · exact absurd hi hkernel
  · rcases h i with heq | ⟨hcode, -, -, -⟩
    · exact heq
    · exact absurd hcode hi

/-- **The keys after `sys_exec`.** What was taken away is put back, whatever keys the function in between has left. -/
theorem sameHandlers_restore (h : KeepsKernel (clearKeyFnMapNonKernel (fun _ => none) keys).2 keys') :
    SameHandlers keys (restoreKeyFnMapNonKernel (clearKeyFnMapNonKernel (fun _ => none) keys).1 keys') := by
  intro i
  have hclear := clear_at keys i
  rw [restore_at]
  generalize clearKeyFnMapNonKernel (fun _ => none) keys = cleared at *
  by_cases hcode : i ∈ keycodes
  · by_cases hfree : (keys i).registeredFromKernel = 0
    · -- a program's key: it was saved, and its entry has stayed a program's
      rw [if_pos ⟨hcode, hfree⟩] at hclear
      obtain ⟨hmap, hleft⟩ := Prod.mk.inj hclear
      have hfree' := h.program i (by rw [hleft]; exact hfree)
      rw [if_pos ⟨hcode, hfree'⟩, hmap]
      left
      show (⟨(keys' i).registeredFromKernel, (keys i).fn⟩ : RegisteredKey Handler) = keys i
      rw [hfree', ← hfree]
    · -- a key of the kernel: it was left alone, and the function could only take it without a handler
      rw [if_neg (fun hin => hfree hin.2)] at hclear
      obtain ⟨hmap, hleft⟩ := Prod.mk.inj hclear
      rcases h.kernel i (by rw [hleft]; exact hfree) with heq | ⟨hnone, hfree'⟩
      · rw [heq, hleft, if_neg (fun hin => hfree hin.2)]
        exact .inl rfl
      · rw [if_pos ⟨hcode, hfree'⟩, hmap]
        rw [hleft] at hnone
        refine .inr ⟨hcode, hfree, hnone, ?_⟩
        show (⟨(keys' i).registeredFromKernel, none⟩ : RegisteredKey Handler) = {}
        rw [hfree']
  · rw [if_neg (fun hin => hcode hin.1)] at hclear ⊢
    rw [h.outside i hcode, (Prod.mk.inj hclear).2]
    exact .inl rfl

/-! ## Programs -/

variable {font : Int → BitVec 8} {w : Window} {s s' : State Handler} {aux : Int}

theorem sysExec_of_some {fnPtr : State Handler → Option (Int × State Handler)}
    (h : sysExec fnPtr s = some (aux, s')) : ∃ s1, fnPtr (enter s) = some (aux, s1) ∧ s' = leave s s1 := by
  obtain ⟨⟨aux1, s1⟩, hrun, hrest⟩ := Option.bind_eq_some_iff.mp h
  cases hrest
  exact ⟨s1, hrun, rfl⟩

theorem enter_keys (s : State Handler) :
    (enter s).keys = (clearKeyFnMapNonKernel (fun _ => none) s.keys).2 := rfl

theorem leave_keys (s s1 : State Handler) : (leave s s1).keys =
    restoreKeyFnMapNonKernel (clearKeyFnMapNonKernel (fun _ => none) s.keys).1 s1.keys := rfl

theorem sameHandlers_leave {s1 : State Handler} (h : KeepsKernel (enter s).keys s1.keys) :
    SameHandlers s.keys (leave s s1).keys := by
  rw [enter_keys] at h
  rw [leave_keys]
  exact sameHandlers_restore h

/-- **Run.** No program touches a handler of the kernel, however deep its calls of `sys_exec` are nested. -/
theorem Program.keepsKernel (p : Program Handler) (h : p.run font w s = some (aux, s')) :
    KeepsKernel s.keys s'.keys := by
  induction p generalizing s s' aux with
  | result aux1 =>
    cases h
    exact .refl _
  | registerKey scancode fn next ih =>
    exact (keepsKernel_registerSpecialKey scancode fn s.keys).trans (ih h)
  | draw c next ih =>
    obtain ⟨screen, -, hnext⟩ := Option.bind_eq_some_iff.mp h
    have hkeeps := ih hnext
    exact hkeeps
  | print e next ih =>
    obtain ⟨console, -, hnext⟩ := Option.bind_eq_some_iff.mp h
    have hkeeps := ih hnext
    exact hkeeps
  | exec fnPtr next ihfn ihnext =>
    obtain ⟨⟨aux1, s2⟩, hexec, hnext⟩ := Option.bind_eq_some_iff.mp h
    obtain ⟨s1, hrun, rfl⟩ := sysExec_of_some hexec
    exact (sameHandlers_leave (ihfn hrun)).keepsKernel.trans (ihnext aux1 hnext)

/-! ## The terminal -/

/-- Every font size is stored as it is. -/
theorem clampSize_fontSize (t : Fonts) : Terminal.clampSize (BitVec.ofNat 8 t.fontSize) = t.fontSize := by
  have hpos := t.fontSize_pos
  have hle := t.fontSize_le
  generalize t.fontSize = n at *
  have hall : ∀ n, 1 ≤ n → n ≤ 10 → Terminal.clampSize (BitVec.ofNat 8 n) = n := by
    intro n hpos hle
    interval_cases n <;> decide
  exact hall n hpos hle

/-- The font size and the colours are those before the call, the cursor is at the origin, and the last call into
    the driver has blanked the window. -/
theorem leave_screen (s s1 : State Handler) :
    (leave s s1).fonts.fontSize = s.fonts.fontSize ∧ (leave s s1).fonts.textColor = s.fonts.textColor ∧
    (leave s s1).fonts.backgroundColor = s.fonts.backgroundColor ∧
    (leave s s1).fonts.xBufferPosition = 0 ∧ (leave s s1).fonts.yBufferPosition = 0 ∧
    (leave s s1).console.screen.calls.getLast? = some (.fillVideoMemory Terminal.DEFAULT_BACKGROUND_COLOR) := by
  refine ⟨clampSize_fontSize s.fonts, rfl, rfl, rfl, rfl, ?_⟩
  exact List.getLast?_concat

/-- The function starts without the keys of the programs. -/
theorem enter_free (s : State Handler) {i : Nat} (hi : i ∈ keycodes) (hfree : (s.keys i).registeredFromKernel = 0) :
    ((enter s).keys i).fn = none := by
  have hclear := clear_at s.keys i
  rw [if_pos ⟨hi, hfree⟩] at hclear
  rw [enter_keys, (Prod.mk.inj hclear).2]

/-- **`sys_exec` nests.** The function starts without the keys of the programs. Whatever it does, calls of `sys_exec`
    in it included: when the call returns, every key has the handler it had before and those of the kernel are still
    its own, font size and colours are as they were, and the window is blank. -/
theorem sys_exec_restores (font : Int → BitVec 8) (w : Window) (p : Program Handler)
    (h : sysExec (p.run font w) s = some (aux, s')) :
    (∀ i ∈ keycodes, (s.keys i).registeredFromKernel = 0 → ((enter s).keys i).fn = none) ∧
    SameHandlers s.keys s'.keys ∧
    s'.fonts.fontSize = s.fonts.fontSize ∧ s'.fonts.textColor = s.fonts.textColor ∧
    s'.fonts.backgroundColor = s.fonts.backgroundColor ∧
    s'.fonts.xBufferPosition = 0 ∧ s'.fonts.yBufferPosition = 0 ∧
    s'.console.screen.calls.getLast? = some (.fillVideoMemory Terminal.DEFAULT_BACKGROUND_COLOR) := by
  obtain ⟨s1, hrun, rfl⟩ := sysExec_of_some h
  exact ⟨fun i hi hfree => enter_free s hi hfree, sameHandlers_leave (p.keepsKernel hrun), leave_screen s s1⟩

/-- The shell's keys, on a screen that was just cleared. -/
def shellState : State String where
  keys := Function.update (Function.update (fun _ => {}) 0x48 { fn := some "printPreviousCommand" }) 0x50
    { fn := some "printNextCommand" }
  console := Console.cleared Fonts.boot Terminal.Inks.boot.fileDescriptor Terminal.Inks.boot.standard

/-- The function takes the key of the shell, and runs another one that takes it again and changes the font. -/
theorem sys_exec_restores_shell : ∃ aux s',
    sysExec (Program.run (fun _ => 0) Terminal.smallWindow
      (.registerKey 0x48 (some "outer")
        (.exec (.registerKey 0x48 (some "inner") (.draw (.setFontSize 3) (.print (.textColor 0xFF) (.result 7))))
          .result))) shellState = some (aux, s') ∧
    (s'.keys 0x48).fn = some "printPreviousCommand" ∧ s'.fonts.fontSize = 1 := by
  obtain ⟨aux, s', h⟩ : ∃ aux s', sysExec (Program.run (fun _ => 0) Terminal.smallWindow
      (.registerKey 0x48 (some "outer")
        (.exec (.registerKey 0x48 (some "inner") (.draw (.setFontSize 3) (.print (.textColor 0xFF) (.result 7))))
          .result))) shellState = some (aux, s') := ⟨_, _, rfl⟩
  obtain ⟨-, hkeys, hsize, -⟩ := sys_exec_restores (fun _ => 0) Terminal.smallWindow _ h
  exact ⟨aux, s', h, (hkeys.fn 0x48).trans (by decide), hsize⟩

end TpSo.SysExec
