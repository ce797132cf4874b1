import Mathlib.Algebra.Group.Nat.Hom
import TpSo.Library.ObjectStore

set_option autoImplicit false

/-! # The memory manager's test (`test_mm.c`)

The loop of `test_mm` runs against any heap, one byte at a time, while other clients of the same heap make
requests of their own between any two of its steps. -/

namespace TpSo

namespace TestMm

def MM_TEST_MAX_BLOCKS : Nat := 128
def MM_TEST_MIN_BLOCK_SIZE : Nat := 1

/-- Where in its loop the program is. -/
inductive Phase
  /-- At the head of the `while` that requests blocks, with `total`. -/
  | request (total : Nat)
  /-- In `memset` of `requests[i]`, with `offset` bytes set. -/
  | set (i offset : Nat)
  /-- In `memcheck` of `requests[i]`, with `offset` bytes checked. -/
  | check (i offset : Nat)
  | free (i : Nat)
  /-- `"test_mm ERROR"` has been printed. -/
  | error
  deriving DecidableEq

end TestMm

/-- The variables of `test_mm`: `requests` are the first `rq` entries of the array, as an address and a
    size. -/
structure TestMm where
  phase : TestMm.Phase := .request 0
  requests : List (Nat × Nat) := []
  /-- How often `GetUniform` has been called. -/
  rolls : Nat := 0

namespace TestMm

variable {σ : Type}

/-- `malloc`. -/
def malloc (H : BlockHeap σ UInt8) (s : σ) (size : Nat) : Option (Option Nat × σ) :=
  if size = 0 then some (none, s) else H.alloc s size

/-- The next step; `uniform` is what `GetUniform` returns each time. -/
def step (H : BlockHeap σ UInt8) (uniform : (roll max : Nat) → Nat) (maxMemory : Nat) (m : TestMm) (s : σ) :
    Option (TestMm × σ) :=
  match m.phase with
  | .request total =>
    let remaining := maxMemory - total
    if m.requests.length < MM_TEST_MAX_BLOCKS ∧ total < maxMemory ∧ ¬ remaining < MM_TEST_MIN_BLOCK_SIZE then
      let requestSpan := if remaining > MM_TEST_MIN_BLOCK_SIZE then remaining - MM_TEST_MIN_BLOCK_SIZE else 0
      let size := (uniform m.rolls requestSpan + MM_TEST_MIN_BLOCK_SIZE) % 2 ^ 32
      (malloc H s size).map fun (ptr, s) =>
        match ptr with
        | none => ({ m with rolls := m.rolls + 1 }, s)
        | some address =>
          ({ phase := .request ((total + size) % 2 ^ 32), requests := m.requests ++ [(address, size)],
             rolls := m.rolls + 1 }, s)
    else some ({ m with phase := .set 0 0 }, s)
  | .set i offset =>
    match m.requests[i]? with
    | none => some ({ m with phase := .check 0 0 }, s)
    | some e =>
      if offset < e.2 then
        (H.write s e.1 offset (UInt8.ofNat i)).map fun s => ({ m with phase := .set i (offset + 1) }, s)
      else some ({ m with phase := .set (i + 1) 0 }, s)
  | .check i offset =>
    match m.requests[i]? with
    | none => some ({ m with phase := .free 0 }, s)
    | some e =>
      if offset < e.2 then
        if H.read s (e.1 + offset) = some (UInt8.ofNat i) then some ({ m with phase := .check i (offset + 1) }, s)
        else some ({ m with phase := .error }, s)
      else some ({ m with phase := .check (i + 1) 0 }, s)
  | .free i =>
    match m.requests[i]? with
    | none => some ({ m with phase := .request 0, requests := [] }, s)
    | some e => (H.free s e.1).map fun s => ({ m with phase := .free (i + 1) }, s)
  | .error => some (m, s)

/-- The blocks that it holds. -/
def held (m : TestMm) : List (Nat × Nat) :=
  match m.phase with
  | .free i => m.requests.drop i
  | _ => m.requests

/-- The program, the heap, and the blocks that other clients hold. -/
structure World (σ : Type) where
  heap : σ
  test : TestMm := {}
  others : List (Nat × Nat) := []

/-- A step of the program, or a request of another client. -/
inductive Action
  | test
  | other (req : HeapRequest UInt8)

variable (H : BlockHeap σ UInt8) (uniform : (roll max : Nat) → Nat) (maxMemory : Nat)

def World.step (w : World σ) : Action → Option (World σ)
  | .test => (w.test.step H uniform maxMemory w.heap).map fun (m, s) => { w with test := m, heap := s }
  | .other req => (H.serve w.heap req).map fun (ev, s) => { w with heap := s, others := ev.after w.others }

/-- Other clients ask only for what they may ask for. -/
def Fair (limit : Nat) (w : World σ) : Action → Prop
  | .test => True
  | .other req => req.Allowed limit w.others

instance (limit : Nat) (w : World σ) (a : Action) : Decidable (Fair limit w a) := by
  unfold Fair
  split <;> infer_instance

/-! ## The invariant -/

/-- What the blocks hold in the phase that the program is in. -/
def Written (m : TestMm) (content : Nat → Nat → Option UInt8) : Prop :=
  match m.phase with
  | .request _ | .free _ => True
  | .set i offset => ∀ j e, m.requests[j]? = some e → ∀ k < e.2, j < i ∨ j = i ∧ k < offset →
      content e.1 k = some (UInt8.ofNat j)
  | .check _ _ => ∀ j e, m.requests[j]? = some e → ∀ k < e.2, content e.1 k = some (UInt8.ofNat j)
  | .error => False

/-- The heap holds objects, which are those of the program and those of the others. -/
structure Shared (Ok : σ → Prop) (w : World σ) (o : Objects UInt8) : Prop where
  represents : H.Represents Ok w.heap o
  parts : o.live.Perm (w.test.held ++ w.others)
  written : w.test.Written o.content

variable {H uniform maxMemory} {limit : Nat} {Ok : σ → Prop} {w : World σ} {o : Objects UInt8}

/-- Only the contents of its own blocks matter to the program. -/
theorem Written.congr {m : TestMm} {content content' : Nat → Nat → Option UInt8} (h : m.Written content)
    (hsame : ∀ e ∈ m.held, content' e.1 = content e.1) : m.Written content' := by
  unfold Written at h ⊢
  unfold held at hsame
  cases hphase : m.phase with
  | request total => trivial
  | free i => trivial
  | error =>
    rw [hphase] at h
    exact h
  | set i offset =>
    rw [hphase] at h hsame
    intro j e he k hk hbefore
    rw [hsame e (List.mem_of_getElem? he)]
    exact h j e he k hk hbefore
  | check i offset =>
    rw [hphase] at h hsame
    intro j e he k hk
    rw [hsame e (List.mem_of_getElem? he)]
    exact h j e he k hk

namespace Shared

theorem distinct (hK : H.Keeps limit Ok) (h : Shared H Ok w o) :
    ((w.test.held ++ w.others).map Prod.fst).Nodup := by
  have hlive := hK.distinct w.heap h.represents.ok
  rw [h.represents.live] at hlive
  exact (h.parts.map Prod.fst).nodup_iff.mp hlive

theorem mem_live (h : Shared H Ok w o) {e : Nat × Nat} (he : e ∈ w.test.held) : e ∈ o.live :=
  h.parts.mem_iff.mpr (List.mem_append_left _ he)

/-- **Another client.** Its requests are served, and do not touch the blocks of the program. -/
theorem other (hK : H.Keeps limit Ok) (h : Shared H Ok w o) {req : HeapRequest UInt8}
    (hreq : req.Allowed limit w.others) :
    ∃ w' o', w.step H uniform maxMemory (.other req) = some w' ∧ Shared H Ok w' o' := by
  have hdistinct := h.distinct hK
  have hallowed : req.Allowed limit o.live := by
    have hsub : ∀ e ∈ w.others, e ∈ o.live := fun e he => h.parts.mem_iff.mpr (List.mem_append_right _ he)
    cases req with
    | alloc size => exact hreq
    | free ptr =>
      obtain ⟨e, he, rfl⟩ := List.mem_map.mp hreq
      exact List.mem_map_of_mem (hsub e he)
    | write ptr offset byte =>
      obtain ⟨e, he, hplace⟩ := hreq
      exact ⟨e, hsub e he, hplace⟩
  obtain ⟨ev, s', o', hserve, hstep, h'⟩ := h.represents.serve hK hallowed
  obtain ⟨hpossible, rfl⟩ := Objects.step_cases hstep
  have hown := H.serve_own hserve hreq
  have hpossible' : ev.Possible (w.test.held ++ w.others) := ev.possible_perm h.parts hpossible
  refine ⟨{ w with heap := s', others := ev.after w.others }, _, ?_, h', ?_, ?_⟩
  · rw [World.step, hserve]
    rfl
  · exact (ev.after_perm h.parts).trans (HeapEvent.after_frame hdistinct hown)
  · exact h.written.congr fun e he => HeapEvent.stored_frame hdistinct hown hpossible' o.content he

/-- The blocks requested are different ones. -/
theorem index_inj (hK : H.Keeps limit Ok) {s : σ} {phase : Phase} {requests others : List (Nat × Nat)}
    {rolls : Nat} (h : Shared H Ok ⟨s, ⟨phase, requests, rolls⟩, others⟩ o)
    (hheld : TestMm.held ⟨phase, requests, rolls⟩ = requests) {i j : Nat} {e e' : Nat × Nat}
    (hi : requests[i]? = some e) (hj : requests[j]? = some e') (hptr : e.1 = e'.1) : i = j := by
  have hdistinct := h.distinct hK
  rw [List.map_append, hheld] at hdistinct
  have hnodup := (List.nodup_append.mp hdistinct).1
  have hlt : i < (requests.map Prod.fst).length := by
    rw [List.length_map]
    exact (List.getElem?_eq_some_iff.mp hi).1
  apply (List.getElem?_inj hlt hnodup).mp
  rw [List.getElem?_map, List.getElem?_map, hi, hj]
  exact congrArg some hptr

/-- A step that only moves on. -/
theorem moved (h : Shared H Ok w o) {m : TestMm} (hheld : m.held = w.test.held)
    (hwritten : m.Written o.content) : Shared H Ok { w with test := m } o :=
  ⟨h.represents, hheld ▸ h.parts, hwritten⟩

section Phases

variable {s : σ} {requests others : List (Nat × Nat)} {rolls : Nat}

/-- `malloc` of nothing asks for nothing. -/
theorem malloc_spec (hK : H.Keeps limit Ok) (h : H.Represents Ok s o) {size : Nat} (hsize : size < limit) :
    ∃ ptr s', malloc H s size = some (ptr, s') ∧ H.Represents Ok s'
      ⟨(HeapEvent.alloc (β := UInt8) size ptr).after o.live, (HeapEvent.alloc size ptr).stored o.content⟩ := by
  unfold malloc
  split
  · exact ⟨none, s, rfl, h⟩
  · obtain ⟨ptr, s', hs, -, h'⟩ := h.alloc hK hsize
    exact ⟨ptr, s', hs, h'⟩

theorem request (hK : H.Keeps limit Ok) (hlimit : 2 ^ 32 ≤ limit) {total : Nat}
    (h : Shared H Ok ⟨s, ⟨.request total, requests, rolls⟩, others⟩ o) :
    ∃ w' o', World.step H uniform maxMemory ⟨s, ⟨.request total, requests, rolls⟩, others⟩ .test = some w' ∧
      Shared H Ok w' o' := by
  simp only [World.step, TestMm.step]
  split
  · generalize hroll : (uniform rolls _ + MM_TEST_MIN_BLOCK_SIZE) % 2 ^ 32 = size
    have hsize : size < limit := hroll ▸ Nat.lt_of_lt_of_le (Nat.mod_lt _ (by decide)) hlimit
    obtain ⟨ptr, s', hs, h'⟩ := malloc_spec hK h.represents hsize
    rw [hs]
    cases ptr with
    | none => exact ⟨_, _, rfl, h', h.parts, trivial⟩
    | some address =>
      have hparts : ((address, size) :: o.live).Perm ((requests ++ [(address, size)]) ++ others) := by
        rw [List.append_assoc]
        exact (h.parts.cons _).trans List.perm_middle.symm
      exact ⟨_, _, rfl, h', hparts, trivial⟩
  · refine ⟨_, o, rfl, h.moved rfl ?_⟩
    rintro j e - k - (hlt | ⟨-, hlt⟩)
    · exact absurd hlt (Nat.not_lt_zero _)
    · exact absurd hlt (Nat.not_lt_zero _)

theorem set (hK : H.Keeps limit Ok) {i offset : Nat}
    (h : Shared H Ok ⟨s, ⟨.set i offset, requests, rolls⟩, others⟩ o) :
    ∃ w' o', World.step H uniform maxMemory ⟨s, ⟨.set i offset, requests, rolls⟩, others⟩ .test = some w' ∧
      Shared H Ok w' o' := by
  have hwritten := h.written
  simp only [World.step, TestMm.step]
  cases hi : requests[i]? with
  | none =>
    refine ⟨_, o, rfl, h.moved rfl ?_⟩
    intro j e he k hk
    apply hwritten j e he k hk
    have hlt : j < requests.length := (List.getElem?_eq_some_iff.mp he).1
    exact .inl (Nat.lt_of_lt_of_le hlt (List.getElem?_eq_none_iff.mp hi))
  | some e =>
    dsimp only
    split
    · next hoffset =>
      have he : e ∈ o.live := h.mem_live (List.mem_of_getElem? hi)
      obtain ⟨s', hs, h'⟩ := h.represents.write hK he hoffset (UInt8.ofNat i)
      rw [hs]
      refine ⟨_, _, rfl, h', h.parts, ?_⟩
      intro j e' he' k hk hbefore
      by_cases hplace : j = i
      · obtain rfl : e = e' := Option.some.inj (hi.symm.trans (hplace ▸ he'))
        simp only [HeapEvent.stored, Function.update_self]
        by_cases hk' : k = offset
        · rw [hk', Function.update_self, hplace]
        · rw [Function.update_of_ne hk']
          exact hwritten j e he' k hk (.inr ⟨hplace, by omega⟩)
      · have hptr : e'.1 ≠ e.1 := fun heq => hplace (h.index_inj hK rfl he' hi heq)
        have hother : (HeapEvent.write e.1 offset (UInt8.ofNat i)).subject ≠ some e'.1 :=
          fun heq => hptr (Option.some.inj heq).symm
        dsimp only
        rw [HeapEvent.stored_of_ne _ hother]
        exact hwritten j e' he' k hk (.inl (by omega))
    · next hoffset =>
      refine ⟨_, o, rfl, h.moved rfl ?_⟩
      intro j e' he' k hk hbefore
      apply hwritten j e' he' k hk
      rcases hbefore with hlt | ⟨-, hlt⟩
      · rcases Nat.lt_succ_iff_lt_or_eq.mp hlt with hlt | rfl
        · exact .inl hlt
        · obtain rfl : e = e' := Option.some.inj (hi.symm.trans he')
          exact .inr ⟨rfl, by omega⟩
      · exact absurd hlt (Nat.not_lt_zero _)

theorem check {i offset : Nat} (h : Shared H Ok ⟨s, ⟨.check i offset, requests, rolls⟩, others⟩ o) :
    ∃ w', World.step H uniform maxMemory ⟨s, ⟨.check i offset, requests, rolls⟩, others⟩ .test = some w' ∧
      Shared H Ok w' o := by
  have hwritten := h.written
  simp only [World.step, TestMm.step]
  cases hi : requests[i]? with
  | none => exact ⟨_, rfl, h.moved (List.drop_zero) trivial⟩
  | some e =>
    dsimp only
    split
    · next hoffset =>
      have he : e ∈ o.live := h.mem_live (List.mem_of_getElem? hi)
      have hread := h.represents.content e he offset hoffset _ (hwritten i e hi offset hoffset)
      rw [if_pos hread]
      exact ⟨_, rfl, h.moved rfl hwritten⟩
    · exact ⟨_, rfl, h.moved rfl hwritten⟩

theorem free (hK : H.Keeps limit Ok) {i : Nat}
    (h : Shared H Ok ⟨s, ⟨.free i, requests, rolls⟩, others⟩ o) :
    ∃ w' o', World.step H uniform maxMemory ⟨s, ⟨.free i, requests, rolls⟩, others⟩ .test = some w' ∧
      Shared H Ok w' o' := by
  simp only [World.step, TestMm.step]
  cases hi : requests[i]? with
  | none =>
    have hnil : requests.drop i = [] := List.drop_eq_nil_of_le (List.getElem?_eq_none_iff.mp hi)
    exact ⟨_, o, rfl, h.moved hnil.symm trivial⟩
  | some e =>
    obtain ⟨hlt, rfl⟩ := List.getElem?_eq_some_iff.mp hi
    have hheld : TestMm.held ⟨.free i, requests, rolls⟩ = requests[i] :: requests.drop (i + 1) :=
      List.drop_eq_getElem_cons hlt
    have hdistinct := h.distinct hK
    have hparts := HeapEvent.after_perm h.parts (.free (β := UInt8) requests[i].1)
    rw [hheld, List.cons_append] at hdistinct hparts
    have hrest : requests[i].1 ∉ (requests.drop (i + 1) ++ others).map Prod.fst :=
      (List.nodup_cons.mp hdistinct).1
    obtain ⟨s', hs, h'⟩ := h.represents.free hK
      (List.mem_map_of_mem (h.mem_live (hheld ▸ List.mem_cons_self)))
    dsimp only
    rw [hs]
    refine ⟨_, _, rfl, h', ?_, trivial⟩
    simp only [HeapEvent.after] at hparts
    rw [List.filter_cons_of_neg (by simp), HeapEvent.filter_ptr_eq_self hrest] at hparts
    exact hparts

end Phases

/-- **Step.** -/
theorem step (hK : H.Keeps limit Ok) (hlimit : 2 ^ 32 ≤ limit) (h : Shared H Ok w o) {a : Action}
    (ha : Fair limit w a) :
    ∃ w' o', w.step H uniform maxMemory a = some w' ∧ Shared H Ok w' o' := by
  cases a with
  | other req => exact h.other hK ha
  | test =>
    obtain ⟨s, ⟨phase, requests, rolls⟩, others⟩ := w
    cases phase with
    | request total => exact h.request hK hlimit
    | set i offset => exact h.set hK
    | check i offset =>
      obtain ⟨w', hw', h'⟩ := h.check
      exact ⟨w', o, hw', h'⟩
    | free i => exact h.free hK
    | error => exact absurd h.written id

/-- **Run.** -/
theorem run (hK : H.Keeps limit Ok) (hlimit : 2 ^ 32 ≤ limit) {w' : World σ} {as : List Action}
    (hrun : GuardedRun (World.step H uniform maxMemory) (Fair limit) w as w') (h : Shared H Ok w o) :
    ∃ o', Shared H Ok w' o' := by
  apply hrun.invariant fun w => ∃ o, Shared H Ok w o
  · rintro w a w' ⟨o, h⟩ ha hstep
    obtain ⟨w'', o', hw'', h'⟩ := h.step hK hlimit ha
    rw [hw''] at hstep
    exact ⟨o', Option.some.inj hstep ▸ h'⟩
  · exact ⟨o, h⟩

end Shared

variable (H uniform maxMemory) in
/-- The test has found no error, its next step is one that it may take, and the blocks that are live are those
    that it holds and those of the others: before each round it holds none. -/
structure Passes (w : World σ) : Prop where
  noError : w.test.phase ≠ .error
  goesOn : (w.step H uniform maxMemory .test).isSome
  accounted : (H.live w.heap).Perm (w.test.held ++ w.others)

/-- On a heap that keeps what is written the test passes. -/
theorem passes (hK : H.Keeps limit Ok) (hlimit : 2 ^ 32 ≤ limit) {s : σ} (hs : Ok s) (hlive : H.live s = [])
    {as : List Action}
    (hrun : GuardedRun (World.step H uniform maxMemory) (Fair limit) { heap := s } as w) :
    Passes H uniform maxMemory w := by
  have hstart : Shared H Ok { heap := s } {} := ⟨⟨hs, hlive, nofun⟩, .refl _, trivial⟩
  obtain ⟨o, h⟩ := hstart.run hK hlimit hrun
  obtain ⟨w', -, hw', -⟩ := h.step hK hlimit (show Fair limit w .test from trivial)
  refine ⟨?_, Option.isSome_iff_exists.mpr ⟨w', hw'⟩, h.represents.live ▸ h.parts⟩
  intro hphase
  have hwritten := h.written
  rw [Written, hphase] at hwritten
  exact hwritten

end TestMm

end TpSo
