import Mathlib.Data.List.DropRight

set_option autoImplicit false

/-! # Terminated strings in an array, and their words

`At nul b p s` says that the string `s` begins at index `p` of the array `b` and ends at its first
`nul`. Writing a `nul` cuts a string into two. `words sep s` are the maximal runs of characters other
than `sep`: the fields of `s` that are not empty. -/

namespace CString

variable {α : Type} {nul : α} {b : List α} {p q : Nat} {s t : List α} {c : α}

/-! ## Strings in an array -/

/-- The string `s` is at index `p`. -/
def At (nul : α) (b : List α) (p : Nat) (s : List α) : Prop :=
  ∃ rest, b.drop p = s ++ nul :: rest ∧ nul ∉ s

namespace At

theorem lt_length (h : At nul b p s) : p + s.length < b.length := by
  obtain ⟨rest, hdrop, -⟩ := h
  have hlen := congrArg List.length hdrop
  simp only [List.length_drop, List.length_append, List.length_cons] at hlen
  omega

theorem congr {b' : List α} (h : At nul b p s) (hb : b'.drop p = b.drop p) : At nul b' p s := by
  obtain ⟨rest, hdrop, hnul⟩ := h
  exact ⟨rest, hb.trans hdrop, hnul⟩

/-- The end of a string is a string. -/
theorem suffix (h : At nul b p (s ++ t)) : At nul b (p + s.length) t := by
  obtain ⟨rest, hdrop, hnul⟩ := h
  refine ⟨rest, ?_, fun ht => hnul (List.mem_append_right _ ht)⟩
  rw [← List.drop_drop, hdrop, List.append_assoc, List.drop_left]

/-- Its character behind `s`. -/
theorem getD (h : At nul b p (s ++ c :: t)) : b.getD (p + s.length) nul = c := by
  obtain ⟨rest, hdrop, -⟩ := h.suffix
  rw [List.getD_eq_getElem?_getD, ← Nat.add_zero (p + s.length), ← List.getElem?_drop, hdrop]
  rfl

/-- Writing `nul` behind `s`, where the string may end already. -/
theorem truncate (h : At nul b p (s ++ t)) : At nul (b.set (p + s.length) nul) p s := by
  obtain ⟨rest, hdrop, hnul⟩ := h
  refine ⟨(t ++ nul :: rest).tail, ?_, fun hs => hnul (List.mem_append_left _ hs)⟩
  rw [← List.set_drop, hdrop, List.append_assoc, List.set_append_right _ _ (Nat.le_refl _), Nat.sub_self]
  cases t <;> rfl

/-- What comes behind the new `nul` is a string too. -/
theorem cut (h : At nul b p (s ++ c :: t)) : At nul (b.set (p + s.length) nul) (p + s.length + 1) t := by
  have hrest : At nul b (p + s.length + 1) t := by
    have h' : At nul b p ((s ++ [c]) ++ t) := by rwa [List.append_assoc]
    have hsuffix := h'.suffix
    rwa [List.length_append, List.length_singleton, ← Nat.add_assoc] at hsuffix
  exact hrest.congr (List.drop_set_of_lt (Nat.lt_succ_self _))

/-- Writing further behind changes nothing. -/
theorem set_behind (h : At nul b p s) {i : Nat} (hi : p + s.length < i) (x : α) : At nul (b.set i x) p s := by
  obtain ⟨rest, hdrop, hnul⟩ := h
  obtain ⟨n, hn⟩ : ∃ n, i - p = s.length + (n + 1) := ⟨i - p - s.length - 1, by omega⟩
  refine ⟨rest.set n x, ?_, hnul⟩
  have hset : (b.set i x).drop p = (b.drop p).set (i - p) x := by
    rw [List.set_drop, Nat.add_sub_cancel' (by omega)]
  rw [hset, hdrop, hn, List.set_append_right _ _ (Nat.le_add_right _ _), Nat.add_sub_cancel_left]
  rfl

end At

/-! ## Words -/

variable [DecidableEq α] {sep : α}

/-- The maximal runs of characters other than `sep`. -/
def words (sep : α) (s : List α) : List (List α) := (s.splitOn sep).filter (fun w => !w.isEmpty)

@[simp] theorem words_nil : words sep [] = [] := rfl

theorem ne_nil_of_mem_words {w : List α} (h : w ∈ words sep s) : w ≠ [] := by
  rintro rfl
  exact Bool.false_ne_true (List.mem_filter.mp h).2

/-- No word goes over a separator. -/
theorem words_append_sep : words sep (s ++ sep :: t) = words sep s ++ words sep t := by
  simp only [words, List.splitOn_append_cons_self, List.filter_append]

theorem words_dropWhile {p : α → Bool} (h : ∀ c ∈ s, p c → c = sep) :
    words sep (s.dropWhile p) = words sep s := by
  induction s with
  | nil => rfl
  | cons c s ih =>
      rw [List.dropWhile_cons]
      split
      · next hc =>
        rw [ih fun d hd => h d (.tail _ hd), h c List.mem_cons_self hc]
        exact (@words_append_sep _ [] s _ sep).symm
      · rfl

theorem words_rdropWhile {p : α → Bool} (h : ∀ c ∈ s, p c → c = sep) :
    words sep (s.rdropWhile p) = words sep s := by
  induction s using List.reverseRecOn with
  | nil => rfl
  | append_singleton s c ih =>
      by_cases hc : p c
      · rw [List.rdropWhile_concat_pos p s c hc, ih fun d hd => h d (List.mem_append_left _ hd),
          h c (List.mem_append_right _ List.mem_cons_self) hc, words_append_sep, words_nil, List.append_nil]
      · rw [List.rdropWhile_concat_neg p s c hc]

theorem mem_of_mem_splitOn {w : List α} (hw : w ∈ s.splitOn sep) (hc : c ∈ w) : c ∈ s := by
  induction s generalizing w with
  | nil =>
      rw [List.splitOn_nil, List.mem_singleton] at hw
      rwa [hw] at hc
  | cons d s ih =>
      obtain ⟨v, vs, hvs⟩ := List.exists_cons_of_ne_nil (List.splitOn_ne_nil sep s)
      rw [List.splitOn_cons_eq_if_modifyHead, hvs] at hw
      rw [hvs] at ih
      split at hw
      · rcases List.mem_cons.mp hw with rfl | hw
        · cases hc
        · exact .tail _ (ih hw hc)
      · rcases List.mem_cons.mp hw with rfl | hw
        · rcases List.mem_cons.mp hc with rfl | hc
          · exact List.mem_cons_self
          · exact .tail _ (ih List.mem_cons_self hc)
        · exact .tail _ (ih (.tail _ hw) hc)

/-- The fields are the words when none of them is empty. -/
theorem splitOn_eq_words_iff : s.splitOn sep = words sep s ↔ [] ∉ s.splitOn sep := by
  constructor
  · intro h hmem
    rw [h] at hmem
    exact ne_nil_of_mem_words hmem rfl
  · intro h
    refine (List.filter_eq_self.mpr fun w hw => ?_).symm
    cases w with
    | nil => exact absurd hw h
    | cons c w => rfl

/-- The first field is empty when the list is, or begins with a separator. -/
theorem splitOn_head_eq_nil {w : List α} {ws : List (List α)} (h : s.splitOn sep = w :: ws) :
    w = [] ↔ s = [] ∨ ∃ t, s = sep :: t := by
  cases s with
  | nil =>
      cases h
      simp
  | cons c s =>
      rw [List.splitOn_cons_eq_if_modifyHead] at h
      by_cases hc : c = sep
      · rw [if_pos (beq_iff_eq.mpr hc)] at h
        cases h
        simp [hc]
      · obtain ⟨v, vs, hvs⟩ := List.exists_cons_of_ne_nil (List.splitOn_ne_nil sep s)
        rw [if_neg (by simpa using hc), hvs] at h
        cases h
        simp [hc]

/-- An empty field behind the first one: two separators in a row, or one at the end. -/
theorem nil_mem_splitOn_tail :
    [] ∈ (s.splitOn sep).tail ↔ [sep, sep] <:+: s ∨ s.getLast? = some sep := by
  induction s with
  | nil => simp
  | cons c s ih =>
      obtain ⟨w, ws, hws⟩ := List.exists_cons_of_ne_nil (List.splitOn_ne_nil sep s)
      have hhead := splitOn_head_eq_nil hws
      rw [hws, List.tail_cons] at ih
      rw [List.splitOn_cons_eq_if_modifyHead, hws, List.infix_cons_iff]
      by_cases hc : c = sep
      · subst hc
        rw [if_pos (beq_self_eq_true c), List.tail_cons, List.mem_cons, eq_comm, hhead, ih]
        cases s with
        | nil => simp
        | cons d s => simp [or_assoc, eq_comm]
      · rw [if_neg (by simpa using hc)]
        show [] ∈ ws ↔ _
        rw [ih]
        cases s with
        | nil => simp [hc]
        | cons d s => simp [Ne.symm hc]

end CString
