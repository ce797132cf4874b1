import TpSo.Library.CString

set_option autoImplicit false

/-! # `string.c` as the shell uses it

A `char` array is the list of its characters and a pointer into it is an index; a function that takes a
`char *` and only reads is given the array from there on. -/

namespace TpSo

namespace Shell

/-- The characters of a string, without its NUL. -/
abbrev Str := List Char

def NUL : Char := '\x00'

/-- `isspace` of `ctype.h`. -/
def isspace (c : Char) : Bool :=
  c == ' ' || c == '\t' || c == '\n' || c == '\r' || c == '\x0b' || c == '\x0c'

def strlen : List Char → Nat
  | [] => 0
  | c :: rest => if c = NUL then 0 else strlen rest + 1

/-- The string a pointer leads to: what `strcpy` copies. -/
def strcpy : List Char → Str
  | [] => []
  | c :: rest => if c = NUL then [] else c :: strcpy rest

/-- `strncpy(dest, src, n)`: what it copies before it writes the NUL. -/
def strncpy : Nat → List Char → Str
  | 0, _ => []
  | _ + 1, [] => []
  | n + 1, c :: rest => if c = NUL then [] else c :: strncpy n rest

/-- `strcmp`; a string ends at its NUL or with the list. -/
def strcmp : List Char → List Char → Int
  | [], [] => 0
  | [], d :: _ => -(d.toNat : Int)
  | c :: _, [] => c.toNat
  | c :: s, d :: t =>
    if c = NUL ∨ d = NUL ∨ c ≠ d then (c.toNat : Int) - d.toNat else strcmp s t

/-- `strchr(s, c)` for a `c` that is not NUL; `p` is where the rest of the array begins. -/
def strchr (c : Char) : List Char → Nat → Option Nat
  | [], _ => none
  | d :: rest, p => if d = NUL then none else if d = c then some p else strchr c rest (p + 1)

/-- The loop of `strtok`: where it finds a delimiter, and where it leaves `last`. -/
def strtokLoop (delims : Str) : List Char → Nat → Option Nat × Nat
  | [], last => (none, last)
  | c :: rest, last =>
    if c = NUL then (none, last)
    else if c ∈ delims then (some last, last + 1)
    else strtokLoop delims rest (last + 1)

/-- The first loop of `trimWhitespace`. -/
def skipWhitespace : List Char → Nat → Nat
  | [], p => p
  | c :: rest, p => if c ≠ NUL ∧ isspace c then skipWhitespace rest (p + 1) else p

/-- Its second loop, with `end` still `n` characters behind `start`. -/
def trimEnd (buffer : List Char) (start : Nat) : Nat → Nat
  | 0 => start
  | n + 1 => if isspace (buffer.getD (start + n) NUL) then trimEnd buffer start n else start + n + 1

/-! ## What they do on a string -/

open CString

variable {b : List Char} {p : Nat} {s t : Str}

theorem strlen_at (h : At NUL b p s) : strlen (b.drop p) = s.length := by
  obtain ⟨rest, hdrop, hnul⟩ := h
  rw [hdrop]
  clear hdrop
  induction s with
  | nil => rfl
  | cons c s ih =>
      rw [List.mem_cons, not_or] at hnul
      rw [List.cons_append, strlen, if_neg (Ne.symm hnul.1), ih hnul.2, List.length_cons]

theorem strcpy_at (h : At NUL b p s) : strcpy (b.drop p) = s := by
  obtain ⟨rest, hdrop, hnul⟩ := h
  rw [hdrop]
  clear hdrop
  induction s with
  | nil => rfl
  | cons c s ih =>
      rw [List.mem_cons, not_or] at hnul
      rw [List.cons_append, strcpy, if_neg (Ne.symm hnul.1), ih hnul.2]

theorem strcpy_self (h : NUL ∉ s) : strcpy s = s := by
  induction s with
  | nil => rfl
  | cons c s ih =>
      rw [List.mem_cons, not_or] at h
      rw [strcpy, if_neg (Ne.symm h.1), ih h.2]

theorem strncpy_at (h : At NUL b p s) (n : Nat) : strncpy n (b.drop p) = s.take n := by
  obtain ⟨rest, hdrop, hnul⟩ := h
  rw [hdrop]
  clear hdrop
  induction s generalizing n with
  | nil => cases n <;> rfl
  | cons c s ih =>
      rw [List.mem_cons, not_or] at hnul
      cases n with
      | zero => rfl
      | succ n => rw [List.cons_append, strncpy, if_neg (Ne.symm hnul.1), ih _ hnul.2, List.take_succ_cons]

theorem toNat_ne_zero {c : Char} (h : NUL ≠ c) : c.toNat ≠ 0 := by
  intro hc
  exact h (Char.toNat_inj.mp hc.symm)

/-- `strcmp` of two strings, the first one with its terminator or without. -/
theorem strcmp_eq_zero (hs : NUL ∉ s) (ht : NUL ∉ t) (rest : List Char) :
    (strcmp s t = 0 ↔ s = t) ∧ (strcmp (s ++ NUL :: rest) t = 0 ↔ s = t) := by
  induction s generalizing t with
  | nil =>
      cases t with
      | nil => simp [strcmp, NUL]
      | cons d t =>
          have hd := toNat_ne_zero (List.ne_of_not_mem_cons ht)
          simp [strcmp, NUL, hd]
  | cons c s ih =>
      have hc := List.ne_of_not_mem_cons hs
      cases t with
      | nil =>
          have hc' := toNat_ne_zero hc
          simp [strcmp, hc']
      | cons d t =>
          have hd := List.ne_of_not_mem_cons ht
          obtain ⟨hshort, hlong⟩ := ih (List.not_mem_of_not_mem_cons hs) (List.not_mem_of_not_mem_cons ht)
          by_cases hcd : c = d
          · subst hcd
            simp [strcmp, Ne.symm hc, hshort, hlong]
          · have hne : (c.toNat : Int) - d.toNat ≠ 0 := by
              intro h
              exact hcd (Char.toNat_inj.mp (by omega))
            simp [strcmp, Ne.symm hc, Ne.symm hd, hcd, hne]

theorem strcmp_at (h : At NUL b p s) (ht : NUL ∉ t) : strcmp (b.drop p) t = 0 ↔ s = t := by
  obtain ⟨rest, hdrop, hnul⟩ := h
  rw [hdrop]
  exact (strcmp_eq_zero hnul ht rest).2

theorem head_at (h : At NUL b p s) : (b.drop p).headD NUL = NUL ↔ s = [] := by
  obtain ⟨rest, hdrop, hnul⟩ := h
  rw [hdrop]
  cases s with
  | nil => simp
  | cons c s => simpa using (List.ne_of_not_mem_cons hnul).symm

theorem strchr_absent (h : At NUL b p s) {c : Char} (hc : c ∉ s) (q : Nat) :
    strchr c (b.drop p) q = none := by
  obtain ⟨rest, hdrop, hnul⟩ := h
  rw [hdrop]
  clear hdrop
  induction s generalizing q with
  | nil => rfl
  | cons d s ih =>
      rw [List.mem_cons, not_or] at hnul hc
      rw [List.cons_append, strchr, if_neg (Ne.symm hnul.1), if_neg (Ne.symm hc.1), ih hc.2 _ hnul.2]

theorem strchr_found {c : Char} (h : At NUL b p (s ++ c :: t)) (hc : c ∉ s) (q : Nat) :
    strchr c (b.drop p) q = some (q + s.length) := by
  obtain ⟨rest, hdrop, hnul⟩ := h
  rw [hdrop]
  clear hdrop
  induction s generalizing q with
  | nil =>
      rw [List.nil_append, List.mem_cons, not_or] at hnul
      rw [List.nil_append, List.cons_append, strchr, if_neg (Ne.symm hnul.1), if_pos rfl]
      rfl
  | cons d s ih =>
      rw [List.cons_append, List.mem_cons, not_or] at hnul
      rw [List.mem_cons, not_or] at hc
      rw [List.cons_append, List.cons_append, strchr, if_neg (Ne.symm hnul.1), if_neg (Ne.symm hc.1),
        ih hc.2 _ hnul.2, List.length_cons, Nat.add_right_comm, Nat.add_assoc]

theorem strtokLoop_absent (h : At NUL b p s) {c : Char} (hc : c ∉ s) (q : Nat) :
    strtokLoop [c] (b.drop p) q = (none, q + s.length) := by
  obtain ⟨rest, hdrop, hnul⟩ := h
  rw [hdrop]
  clear hdrop
  induction s generalizing q with
  | nil => rfl
  | cons d s ih =>
      rw [List.mem_cons, not_or] at hnul hc
      rw [List.cons_append, strtokLoop, if_neg (Ne.symm hnul.1), if_neg (by simpa using Ne.symm hc.1),
        ih hc.2 _ hnul.2, List.length_cons, Nat.add_right_comm, Nat.add_assoc]

theorem strtokLoop_found {c : Char} (h : At NUL b p (s ++ c :: t)) (hc : c ∉ s) (q : Nat) :
    strtokLoop [c] (b.drop p) q = (some (q + s.length), q + s.length + 1) := by
  obtain ⟨rest, hdrop, hnul⟩ := h
  rw [hdrop]
  clear hdrop
  induction s generalizing q with
  | nil =>
      rw [List.nil_append, List.mem_cons, not_or] at hnul
      rw [List.nil_append, List.cons_append, strtokLoop, if_neg (Ne.symm hnul.1), if_pos (by simp)]
      rfl
  | cons d s ih =>
      rw [List.cons_append, List.mem_cons, not_or] at hnul
      rw [List.mem_cons, not_or] at hc
      rw [List.cons_append, List.cons_append, strtokLoop, if_neg (Ne.symm hnul.1),
        if_neg (by simpa using Ne.symm hc.1), ih hc.2 _ hnul.2, List.length_cons, Nat.add_right_comm,
        Nat.add_assoc]

/-- The whitespace at the beginning is skipped. -/
theorem skipWhitespace_at (h : At NUL b p s) (q : Nat) :
    skipWhitespace (b.drop p) q = q + (s.takeWhile isspace).length := by
  obtain ⟨rest, hdrop, hnul⟩ := h
  rw [hdrop]
  clear hdrop
  induction s generalizing q with
  | nil => rfl
  | cons c s ih =>
      rw [List.mem_cons, not_or] at hnul
      rw [List.cons_append, skipWhitespace, List.takeWhile_cons]
      by_cases hc : isspace c
      · rw [if_pos ⟨Ne.symm hnul.1, hc⟩, if_pos hc, ih _ hnul.2, List.length_cons, Nat.add_right_comm,
          Nat.add_assoc]
      · rw [if_neg fun h => hc h.2, if_neg hc]
        rfl

/-- The whitespace at the end is found. -/
theorem trimEnd_at (h : At NUL b p (s ++ t)) :
    trimEnd b p s.length = p + (s.rdropWhile isspace).length := by
  induction s using List.reverseRecOn generalizing t with
  | nil => rfl
  | append_singleton s c ih =>
      rw [List.append_assoc, List.singleton_append] at h
      rw [List.length_append, List.length_singleton, trimEnd, h.getD]
      by_cases hc : isspace c
      · rw [if_pos hc, ih h, List.rdropWhile_concat_pos _ _ _ hc]
      · rw [if_neg hc, List.rdropWhile_concat_neg _ _ _ hc, List.length_append, List.length_singleton,
          Nat.add_assoc]

end Shell

end TpSo
