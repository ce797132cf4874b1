import TpSo.Text.Scan

set_option autoImplicit false

/-! # Reading words

What `%s` should store is the word at the cursor, one byte after the other, and a NUL. The loop steps its pointer
twice for each byte, so that only an empty word comes out right. A `%s` also goes wrong behind a `%d` that finds
no number, since that leaves its argument to the next conversion, and behind a `%c` at the end of the input. -/

namespace TpSo.Stdio

/-- A conversion of `sscanf`. -/
inductive Conversion
  | int | char | string
  deriving DecidableEq

namespace Conversion

def letter : Conversion → UInt8
  | .int => 'd'.toUInt8
  | .char => 'c'.toUInt8
  | .string => 's'.toUInt8

/-- The conversion in the format. -/
def format (c : Conversion) : List UInt8 := ['%'.toUInt8, c.letter]

/-- What a conversion leaves of the input, if it finds there what it reads. -/
def leaves : Conversion → List UInt8 → Option (List UInt8)
  | .int, [] => none
  | .int, c :: rest =>
    if c = '-'.toUInt8 then some (rest.dropWhile IsDigit)
    else if IsDigit c then some ((c :: rest).dropWhile IsDigit)
    else none
  | .char, [] => none
  | .char, _ :: rest => some rest
  | .string, rest => some (rest.dropWhile IsWord)

end Conversion

/-- What conversions one after the other leave. -/
def inputAfter : List Conversion → List UInt8 → Option (List UInt8)
  | [], rest => some rest
  | c :: cs, rest => (c.leaves rest).bind (inputAfter cs)

/-- The maximal run of characters up to the next space, newline or NUL. -/
def word (rest : List UInt8) : List UInt8 := rest.takeWhile IsWord

/-- The stores that leave a string and its NUL at an argument. -/
def wordStores (arg : Nat) (w : List UInt8) : List Store :=
  (w ++ [0]).zipIdx.map fun p : UInt8 × Nat => .char arg p.2 p.1

/-- From `s` to `s'` the word at the cursor has been read, and stored through an argument. -/
structure StoresWord (buffer : List UInt8) (arg : Nat) (s s' : Scan) : Prop where
  bufI : s'.bufI = s.bufI + (word (buffer.drop s.bufI)).length
  stores : s'.stores = s.stores ++ wordStores arg (word (buffer.drop s.bufI))

section

variable {buffer format rest rest' : List UInt8} {arg n : Nat} {s s' : Scan} {c : Conversion}
  {cs : List Conversion}

/-! ## The format -/

theorem vsscanf_conversion_error {conversion : UInt8} {stop : Stop}
    (h : scanConversion buffer conversion s = .error stop) :
    vsscanf buffer ('%'.toUInt8 :: conversion :: format) s = .error stop := by
  simp only [vsscanf, if_true, h]

/-- A run over one more conversion. -/
theorem vsscanf_cons_of_ok (h : vsscanf buffer ((c :: cs).flatMap Conversion.format) s = .ok s') :
    ∃ s1, scanConversion buffer c.letter s = .ok s1 ∧ vsscanf buffer (cs.flatMap Conversion.format) s1 = .ok s' := by
  rw [List.flatMap_cons] at h
  cases hstep : scanConversion buffer c.letter s with
  | error stop =>
    cases h.symm.trans (vsscanf_conversion_error hstep)
  | ok s1 => exact ⟨s1, rfl, (vsscanf_conversion hstep).symm.trans h⟩

/-- A format behind conversions is read from where they end. -/
theorem vsscanf_append (h : vsscanf buffer (cs.flatMap Conversion.format) s = .ok s') :
    vsscanf buffer (cs.flatMap Conversion.format ++ format) s = vsscanf buffer format s' := by
  induction cs generalizing s with
  | nil =>
    cases h
    rfl
  | cons c cs ih =>
    obtain ⟨s1, hstep, hrest⟩ := vsscanf_cons_of_ok h
    rw [List.flatMap_cons, List.append_assoc]
    exact (vsscanf_conversion hstep).trans (ih hrest)

/-! ## One conversion -/

theorem scanConversion_int : scanConversion buffer Conversion.int.letter s = scanInt buffer s := rfl

theorem scanConversion_char : scanConversion buffer Conversion.char.letter s = scanChar buffer s := rfl

theorem scanConversion_string : scanConversion buffer Conversion.string.letter s = scanString buffer s := rfl

/-- The loop of `%d` reads all digits. -/
theorem scanDigits_bufI (rest : List UInt8) (num : BitVec 32) (bufI : Nat) (readNum : Bool) :
    (scanDigits rest num bufI readNum).2.1 = bufI + (rest.takeWhile IsDigit).length := by
  induction rest generalizing num bufI readNum with
  | nil => rfl
  | cons c rest ih =>
    rw [scanDigits]
    split
    · next hdigit =>
      rw [ih, List.takeWhile_cons_of_pos (by simpa using hdigit), List.length_cons]
      omega
    · next hother =>
      rw [List.takeWhile_cons_of_neg (by simpa using hother)]
      rfl

/-- The loop of `%s` reads the word, and leaves its pointer twice as far behind. -/
theorem scanWord_eq (arg : Nat) (rest : List UInt8) (bufI str : Nat) (stores : List Store) :
    ∃ more, scanWord arg rest bufI str stores =
      (bufI + (word rest).length, str + 2 * (word rest).length, stores ++ more) ∧
      (word rest = [] → more = []) := by
  induction rest generalizing bufI str stores with
  | nil => exact ⟨[], by simp [scanWord, word], fun _ => rfl⟩
  | cons c rest ih =>
    rw [scanWord]
    split
    · next hword =>
      obtain ⟨more, hrest, -⟩ := ih (bufI + 1) (str + 1 + 1) (stores ++ [.char arg str c])
      have hcons : word (c :: rest) = c :: word rest := List.takeWhile_cons_of_pos (by simpa using hword)
      refine ⟨.char arg str c :: more, ?_, fun hnil => ?_⟩
      · rw [hrest, hcons, List.length_cons, List.append_assoc]
        refine Prod.ext ?_ (Prod.ext ?_ rfl)
        · show bufI + 1 + (word rest).length = bufI + ((word rest).length + 1)
          omega
        · show str + 1 + 1 + 2 * (word rest).length = str + 2 * ((word rest).length + 1)
          omega
      · rw [hcons] at hnil
        cases hnil
    · next hend =>
      have hnil : word (c :: rest) = [] := List.takeWhile_cons_of_neg (by simpa using hend)
      refine ⟨[], ?_, fun _ => rfl⟩
      rw [hnil, List.append_nil]
      rfl

/-! ## Where the cursor is -/

theorem charAt_of_le {i : Nat} (h : i ≤ buffer.length) : charAt buffer i = .ok ((buffer.drop i).headD 0) := by
  unfold charAt
  split
  · next hlt =>
    rw [List.drop_eq_getElem_cons hlt]
    rfl
  · next hge =>
    have heq : i = buffer.length := by omega
    rw [if_pos heq, heq, List.drop_length]
    rfl

theorem charAt_of_lt {i : Nat} (h : buffer.length < i) : charAt buffer i = .error .pastEnd := by
  rw [charAt, dif_neg (by omega), if_neg (by omega)]

/-- Behind a run of characters the rest begins. -/
theorem drop_takeWhile (p : UInt8 → Bool) (i : Nat) :
    buffer.drop (i + ((buffer.drop i).takeWhile p).length) = (buffer.drop i).dropWhile p := by
  rw [← List.drop_drop]
  generalize buffer.drop i = rest
  calc
    rest.drop (rest.takeWhile p).length =
        (rest.takeWhile p ++ rest.dropWhile p).drop (rest.takeWhile p).length := by
      rw [List.takeWhile_append_dropWhile]
    _ = rest.dropWhile p := List.drop_left

theorem takeWhile_length_le (p : UInt8 → Bool) {i : Nat} (h : i ≤ buffer.length) :
    i + ((buffer.drop i).takeWhile p).length ≤ buffer.length := by
  have hle := (List.takeWhile_prefix p (l := buffer.drop i)).length_le
  rw [List.length_drop] at hle
  omega

/-- After `n` conversions, each of which took its argument, `rest` is left of the input. -/
structure At (buffer : List UInt8) (n : Nat) (s : Scan) (rest : List UInt8) : Prop where
  bufI_le : s.bufI ≤ buffer.length
  drop_eq : buffer.drop s.bufI = rest
  args_eq : s.args = n

/-- After `n` conversions an argument is left over, or the cursor is behind the NUL. -/
structure Astray (buffer : List UInt8) (n : Nat) (s : Scan) : Prop where
  args_le : s.args ≤ n
  cases : s.args < n ∨ buffer.length < s.bufI

/-- A conversion returns only if the cursor is in the input; it takes one argument at most. -/
theorem scanConversion_of_ok (h : scanConversion buffer c.letter s = .ok s') :
    s.bufI ≤ buffer.length ∧ s'.args ≤ s.args + 1 := by
  have hin : s.bufI ≤ buffer.length := by
    by_contra hpast
    have herror := charAt_of_lt (show buffer.length < s.bufI by omega)
    cases c with
    | int =>
      rw [scanConversion_int, scanInt, herror] at h
      cases h
    | char =>
      rw [scanConversion_char, scanChar, herror] at h
      cases h
    | string =>
      rw [scanConversion_string, scanString, herror] at h
      cases h
  refine ⟨hin, ?_⟩
  have hchar := charAt_of_le hin
  cases c with
  | int =>
    rw [scanConversion_int, scanInt, hchar] at h
    dsimp only at h
    split at h
    · cases h
      exact Nat.le_succ _
    · cases h
      exact Nat.le_refl _
  | char =>
    rw [scanConversion_char, scanChar, hchar] at h
    cases h
    exact Nat.le_refl _
  | string =>
    rw [scanConversion_string, scanString, hchar] at h
    cases h
    exact Nat.le_refl _

theorem Astray.step (h : Astray buffer n s) (hs : scanConversion buffer c.letter s = .ok s') :
    Astray buffer (n + 1) s' := by
  obtain ⟨hin, hargs⟩ := scanConversion_of_ok hs
  have hle := h.args_le
  have hcases := h.cases
  exact ⟨by omega, by omega⟩

theorem Astray.run (h : Astray buffer n s) (hs : vsscanf buffer (cs.flatMap Conversion.format) s = .ok s') :
    Astray buffer (n + cs.length) s' := by
  induction cs generalizing n s with
  | nil =>
    cases hs
    exact h
  | cons c cs ih =>
    obtain ⟨s1, hstep, hrest⟩ := vsscanf_cons_of_ok hs
    have hrun := ih (h.step hstep) hrest
    rwa [Nat.add_assoc, Nat.add_comm 1] at hrun

/-- `%d` at a number: it reads the digits behind the sign. -/
theorem scanInt_number {ch : UInt8} (hchar : charAt buffer s.bufI = .ok ch)
    (hnumber : ch = '-'.toUInt8 ∨ IsDigit ch) :
    ∃ s', scanInt buffer s = .ok s' ∧ s'.args = s.args + 1 ∧
      ∀ i, i = (if ch = '-'.toUInt8 then s.bufI + 1 else s.bufI) →
        s'.bufI = i + ((buffer.drop i).takeWhile IsDigit).length := by
  have hgoes : ¬ (ch ≠ '-'.toUInt8 ∧ ¬ IsDigit ch) := by
    rintro ⟨hminus, hdigit⟩
    exact hnumber.elim hminus hdigit
  rw [scanInt, hchar]
  simp only [if_neg hgoes]
  refine ⟨_, rfl, rfl, ?_⟩
  rintro i rfl
  exact scanDigits_bufI _ _ _ _

theorem scanInt_none {ch : UInt8} (hchar : charAt buffer s.bufI = .ok ch) (hminus : ch ≠ '-'.toUInt8)
    (hdigit : ¬ IsDigit ch) : scanInt buffer s = .ok s := by
  rw [scanInt, hchar]
  exact if_pos ⟨hminus, hdigit⟩

/-- **Step.** A conversion that finds what it reads. -/
theorem At.step (h : At buffer n s rest) (hc : c.leaves rest = some rest') :
    ∃ s', scanConversion buffer c.letter s = .ok s' ∧ At buffer (n + 1) s' rest' := by
  obtain ⟨hin, rfl, rfl⟩ := h
  have hchar := charAt_of_le hin
  cases c with
  | char =>
    rw [scanConversion_char, scanChar, hchar]
    cases hrest : buffer.drop s.bufI with
    | nil =>
      rw [hrest] at hc
      cases hc
    | cons c rest =>
      rw [hrest] at hc
      cases hc
      refine ⟨_, rfl, ?_, ?_, rfl⟩
      · have hlen := congrArg List.length hrest
        rw [List.length_drop, List.length_cons] at hlen
        show s.bufI + 1 ≤ buffer.length
        omega
      · show buffer.drop (s.bufI + 1) = rest'
        rw [← List.drop_drop, hrest]
        rfl
  | string =>
    cases hc
    rw [scanConversion_string, scanString, hchar]
    obtain ⟨more, hword, -⟩ := scanWord_eq s.args (buffer.drop s.bufI) s.bufI 0 s.stores
    simp only [hword]
    exact ⟨_, rfl, takeWhile_length_le _ hin, drop_takeWhile _ _, rfl⟩
  -- a `-` is consumed before the digits, so the number starts one further on
  | int =>
    rw [scanConversion_int]
    cases hrest : buffer.drop s.bufI with
    | nil =>
      rw [hrest] at hc
      cases hc
    | cons ch rest =>
      rw [hrest] at hc hchar
      have hlen := congrArg List.length hrest
      rw [List.length_drop, List.length_cons] at hlen
      rw [Conversion.leaves] at hc
      by_cases hminus : ch = '-'.toUInt8
      · obtain ⟨s', hrun, hargs, hbufI⟩ := scanInt_number hchar (.inl hminus)
        rw [if_pos hminus] at hc
        cases hc
        have hnext : buffer.drop (s.bufI + 1) = rest := by
          rw [← List.drop_drop, hrest]
          rfl
        have hi := hbufI (s.bufI + 1) (if_pos hminus).symm
        refine ⟨s', hrun, ?_, ?_, hargs⟩
        · rw [hi]
          exact takeWhile_length_le _ (by omega)
        · rw [hi, drop_takeWhile, hnext]
      · rw [if_neg hminus] at hc
        by_cases hdigit : IsDigit ch
        · obtain ⟨s', hrun, hargs, hbufI⟩ := scanInt_number hchar (.inr hdigit)
          rw [if_pos hdigit] at hc
          cases hc
          have hi := hbufI s.bufI (if_neg hminus).symm
          refine ⟨s', hrun, ?_, ?_, hargs⟩
          · rw [hi]
            exact takeWhile_length_le _ hin
          · rw [hi, drop_takeWhile, hrest]
        · rw [if_neg hdigit] at hc
          cases hc

/-- A conversion that does not find what it reads. -/
theorem At.astray (h : At buffer n s rest) (hc : c.leaves rest = none)
    (hs : scanConversion buffer c.letter s = .ok s') : Astray buffer (n + 1) s' := by
  obtain ⟨hin, rfl, rfl⟩ := h
  have hchar := charAt_of_le hin
  cases c with
  | string => cases hc
  | char =>
    rw [scanConversion_char, scanChar, hchar] at hs
    cases hs
    cases hrest : buffer.drop s.bufI with
    | nil =>
      have hend := List.drop_eq_nil_iff.mp hrest
      exact ⟨Nat.le_refl _, .inr (Nat.lt_succ_of_le hend)⟩
    | cons ch rest =>
      rw [hrest] at hc
      cases hc
  | int =>
    have hstays : scanInt buffer s = .ok s := by
      cases hrest : buffer.drop s.bufI with
      | nil =>
        rw [hrest] at hchar
        exact scanInt_none hchar (by decide) (by decide)
      | cons ch rest =>
        rw [hrest] at hc hchar
        rw [Conversion.leaves] at hc
        split_ifs at hc with hminus hdigit
        exact scanInt_none hchar hminus hdigit
    rw [scanConversion_int, hstays] at hs
    cases hs
    exact ⟨Nat.le_succ _, .inl (Nat.lt_succ_self _)⟩

/-! ## Runs -/

theorem At.run (h : At buffer n s rest) (hcs : inputAfter cs rest = some rest') :
    ∃ s', vsscanf buffer (cs.flatMap Conversion.format) s = .ok s' ∧ At buffer (n + cs.length) s' rest' := by
  induction cs generalizing n s rest with
  | nil =>
    cases hcs
    exact ⟨s, rfl, h⟩
  | cons c cs ih =>
    obtain ⟨rest1, hc, hcs⟩ := Option.bind_eq_some_iff.mp hcs
    obtain ⟨s1, hstep, h1⟩ := h.step hc
    obtain ⟨s', hrun, h'⟩ := ih h1 hcs
    rw [Nat.add_assoc, Nat.add_comm 1] at h'
    exact ⟨s', (vsscanf_conversion hstep).trans hrun, h'⟩

theorem At.run_astray (h : At buffer n s rest) (hcs : inputAfter cs rest = none)
    (hs : vsscanf buffer (cs.flatMap Conversion.format) s = .ok s') : Astray buffer (n + cs.length) s' := by
  induction cs generalizing n s rest with
  | nil => cases hcs
  | cons c cs ih =>
    obtain ⟨s1, hstep, hrest⟩ := vsscanf_cons_of_ok hs
    rw [List.length_cons, ← Nat.add_assoc, Nat.add_right_comm]
    cases hc : c.leaves rest with
    | none => exact (h.astray hc hstep).run hrest
    | some rest1 =>
      obtain ⟨s2, hstep2, h1⟩ := h.step hc
      cases hstep.symm.trans hstep2
      apply ih h1 _ hrest
      rw [inputAfter, hc] at hcs
      exact hcs

theorem At.start (buffer : List UInt8) : At buffer 0 {} buffer := ⟨Nat.zero_le _, rfl, rfl⟩

/-! ## Words -/

/-- `%s` stores through the next argument, and its NUL twice as far behind as it should. -/
theorem scanString_of_ok (h : scanString buffer s = .ok s') :
    ∃ more, s'.stores = s.stores ++ (more ++ [.char s.args (2 * (word (buffer.drop s.bufI)).length) 0]) ∧
      s'.bufI = s.bufI + (word (buffer.drop s.bufI)).length ∧
      (word (buffer.drop s.bufI) = [] → more = []) := by
  obtain ⟨hin, -⟩ := scanConversion_of_ok (c := .string) h
  obtain ⟨more, hword, hempty⟩ := scanWord_eq s.args (buffer.drop s.bufI) s.bufI 0 s.stores
  rw [scanString, charAt_of_le hin] at h
  simp only [hword, Nat.zero_add] at h
  cases h
  exact ⟨more, by simp, rfl, hempty⟩

theorem wordStores_eq (arg : Nat) (w : List UInt8) :
    wordStores arg w = (w.zipIdx.map fun p : UInt8 × Nat => .char arg p.2 p.1) ++ [.char arg w.length 0] := by
  simp [wordStores, List.zipIdx_append]

/-- A word is stored as it should only if it is empty, and through the argument that is due. -/
theorem StoresWord.empty (h : StoresWord buffer arg s s') (hs : scanString buffer s = .ok s') :
    word (buffer.drop s.bufI) = [] ∧ s.args = arg := by
  obtain ⟨more, hstores, -, -⟩ := scanString_of_ok hs
  have hsame := h.stores
  rw [hstores, List.append_cancel_left_eq, wordStores_eq] at hsame
  have hlast := (List.append_inj' hsame rfl).2
  simp only [List.cons.injEq, Store.char.injEq, and_true] at hlast
  exact ⟨List.eq_nil_of_length_eq_zero (by omega), hlast.1⟩

theorem StoresWord.of_empty (hs : scanString buffer s = .ok s') (hargs : s.args = arg)
    (hempty : word (buffer.drop s.bufI) = []) : StoresWord buffer arg s s' := by
  obtain ⟨more, hstores, hbufI, hmore⟩ := scanString_of_ok hs
  refine ⟨hbufI, ?_⟩
  rw [hstores, hmore hempty, hempty, hargs]
  rfl

/-- The `%s` behind `pre` stores the word it comes to through its own argument, reads that word, and the format
    goes on with `post`. -/
def ScansWordAt (pre post : List Conversion) (buffer : List UInt8) : Prop :=
  ∃ s s',
    vsscanf buffer (pre.flatMap Conversion.format) {} = .ok s ∧
    vsscanf buffer Conversion.string.format s = .ok s' ∧
    vsscanf buffer ((pre ++ .string :: post).flatMap Conversion.format) {} =
      vsscanf buffer (post.flatMap Conversion.format) s' ∧
    StoresWord buffer pre.length s s'

theorem scansWordAt_iff (pre post : List Conversion) (buffer : List UInt8) :
    ScansWordAt pre post buffer ↔ ∃ rest, inputAfter pre buffer = some rest ∧ word rest = [] := by
  have hstart := At.start buffer
  constructor
  · rintro ⟨s, s', hpre, hword, -, hstores⟩
    have hformat : vsscanf buffer ([Conversion.string].flatMap Conversion.format) s = .ok s' := hword
    obtain ⟨s1, hstep, hend⟩ := vsscanf_cons_of_ok hformat
    cases hend
    obtain ⟨hempty, hargs⟩ := hstores.empty hstep
    have hin := (scanConversion_of_ok hstep).1
    cases hcs : inputAfter pre buffer with
    | none =>
      have hlost := hstart.run_astray hcs hpre
      have hcases := hlost.cases
      omega
    | some rest =>
      obtain ⟨s2, hpre2, hat⟩ := hstart.run hcs
      cases hpre.symm.trans hpre2
      exact ⟨rest, rfl, hat.drop_eq ▸ hempty⟩
  · rintro ⟨rest, hcs, hempty⟩
    obtain ⟨s, hpre, hat⟩ := hstart.run hcs
    obtain ⟨s', hstep, -⟩ := hat.step (c := .string) rfl
    rw [← hat.drop_eq] at hempty
    refine ⟨s, s', hpre, vsscanf_conversion hstep, ?_, .of_empty hstep ?_ hempty⟩
    · rw [List.flatMap_append, List.flatMap_cons, vsscanf_append hpre]
      exact vsscanf_conversion hstep
    · rw [hat.args_eq, Nat.zero_add]

end

/-- Every `%s` of the format scans its word. -/
def ScansWords (cs : List Conversion) (buffer : List UInt8) : Prop :=
  ∀ pre post, cs = pre ++ .string :: post → ScansWordAt pre post buffer

/-- **Words.** They do so exactly if the conversions in front of each find what they read, and leave no word. -/
theorem scansWords_iff (cs : List Conversion) (buffer : List UInt8) :
    ScansWords cs buffer ↔
      ∀ pre post, cs = pre ++ .string :: post → ∃ rest, inputAfter pre buffer = some rest ∧ word rest = [] := by
  constructor
  · intro h pre post hcs
    exact (scansWordAt_iff pre post buffer).mp (h pre post hcs)
  · intro h pre post hcs
    exact (scansWordAt_iff pre post buffer).mpr (h pre post hcs)

/-- The word `a` is not scanned as it should. -/
theorem sscanf_not_word : ¬ ∀ (cs : List Conversion) (buffer : List UInt8), ScansWords cs buffer := by
  intro hall
  obtain ⟨rest, hrest, hempty⟩ :=
    (scansWordAt_iff [] [] ['a'.toUInt8]).mp (hall [.string] ['a'.toUInt8] [] [] rfl)
  cases hrest
  exact absurd hempty (by decide)

-- Its NUL comes two bytes behind it.
example : (sscanf ['a'.toUInt8] Conversion.string.format).map Scan.stores =
    .ok [.char 0 0 'a'.toUInt8, .char 0 2 0] := rfl

end TpSo.Stdio
