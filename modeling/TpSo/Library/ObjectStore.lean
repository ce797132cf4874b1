import Mathlib.Data.List.Nodup
import Mathlib.Logic.Function.Basic
import TpSo.Library.Run

set_option autoImplicit false

/-! # Objects in a heap

A heap as its clients see it hands out blocks of memory, takes them back, and is written and read inside
the blocks that are live. What it is for is said by `Objects`: a block holds what was last written to it.
`Keeps` lists what a heap owes its clients, one operation at a time; a heap that does so refines the
objects, over any run of requests. -/

/-- The operations of a heap; they may fail where no client may use them. -/
structure BlockHeap (σ β : Type) where
  alloc : σ → (size : Nat) → Option (Option Nat × σ)
  free : σ → (ptr : Nat) → Option σ
  write : σ → (ptr offset : Nat) → β → Option σ
  read : σ → (address : Nat) → Option β
  /-- The blocks that are live, with the sizes asked for. -/
  live : σ → List (Nat × Nat)

/-- What a client asks of a heap. -/
inductive HeapRequest (β : Type)
  | alloc (size : Nat)
  | free (ptr : Nat)
  | write (ptr offset : Nat) (byte : β)

/-- What happens then: a request for memory has its answer. -/
inductive HeapEvent (β : Type)
  | alloc (size : Nat) (ptr : Option Nat)
  | free (ptr : Nat)
  | write (ptr offset : Nat) (byte : β)

/-- The blocks that are live, and what was last written to each place of them. -/
structure Objects (β : Type) where
  live : List (Nat × Nat) := []
  content : (ptr offset : Nat) → Option β := fun _ _ => none

variable {σ β : Type}

/-- A client that has these blocks may ask for this. -/
def HeapRequest.Allowed (limit : Nat) (live : List (Nat × Nat)) : HeapRequest β → Prop
  | .alloc size => size < limit
  | .free ptr => ptr ∈ live.map Prod.fst
  | .write ptr offset _ => ∃ e ∈ live, e.1 = ptr ∧ offset < e.2

instance (limit : Nat) (live : List (Nat × Nat)) (req : HeapRequest β) :
    Decidable (req.Allowed limit live) := by
  unfold HeapRequest.Allowed
  split <;> infer_instance

namespace HeapEvent

/-- It can happen where these blocks are live. -/
def Possible (live : List (Nat × Nat)) : HeapEvent β → Prop
  | .alloc _ none => True
  | .alloc _ (some ptr) => ptr ∉ live.map Prod.fst
  | .free ptr => ptr ∈ live.map Prod.fst
  | .write ptr offset _ => ∃ e ∈ live, e.1 = ptr ∧ offset < e.2

instance (live : List (Nat × Nat)) (ev : HeapEvent β) : Decidable (ev.Possible live) := by
  unfold Possible
  split <;> infer_instance

/-- The blocks that are live afterwards. -/
def after (live : List (Nat × Nat)) : HeapEvent β → List (Nat × Nat)
  | .alloc _ none => live
  | .alloc size (some ptr) => (ptr, size) :: live
  | .free ptr => live.filter fun e => e.1 ≠ ptr
  | .write _ _ _ => live

def stored (content : Nat → Nat → Option β) : HeapEvent β → Nat → Nat → Option β
  | .alloc _ (some ptr) => Function.update content ptr fun _ => none
  | .write ptr offset byte =>
    Function.update content ptr (Function.update (content ptr) offset (some byte))
  | _ => content

/-- The block whose content it is about. -/
def subject : HeapEvent β → Option Nat
  | .alloc _ ptr => ptr
  | .free ptr | .write ptr _ _ => some ptr

/-- It says nothing about the contents of the others. -/
theorem stored_of_ne (content : Nat → Nat → Option β) {ev : HeapEvent β} {ptr : Nat}
    (h : ev.subject ≠ some ptr) : ev.stored content ptr = content ptr := by
  cases ev with
  | alloc size answer =>
    cases answer with
    | none => rfl
    | some p => exact Function.update_of_ne (fun he => h (congrArg some he.symm)) _ _
  | free p => rfl
  | write p offset byte => exact Function.update_of_ne (fun he => h (congrArg some he.symm)) _ _

/-- It concerns a block of these, or a new one. -/
def Own (live : List (Nat × Nat)) : HeapEvent β → Prop
  | .alloc _ _ => True
  | .free ptr | .write ptr _ _ => ptr ∈ live.map Prod.fst

theorem after_perm {live live' : List (Nat × Nat)} (h : live.Perm live') (ev : HeapEvent β) :
    (ev.after live).Perm (ev.after live') := by
  cases ev with
  | alloc size answer =>
    cases answer with
    | none => exact h
    | some p => exact h.cons _
  | free p => exact h.filter _
  | write p offset byte => exact h

theorem possible_perm {live live' : List (Nat × Nat)} (h : live.Perm live') (ev : HeapEvent β)
    (hpossible : ev.Possible live) : ev.Possible live' := by
  cases ev with
  | alloc size answer =>
    cases answer with
    | none => trivial
    | some p => exact fun hmem => hpossible ((h.map Prod.fst).mem_iff.mpr hmem)
  | free p => exact (h.map Prod.fst).mem_iff.mp hpossible
  | write p offset byte =>
    obtain ⟨e, he, hplace⟩ := hpossible
    exact ⟨e, h.mem_iff.mp he, hplace⟩

theorem filter_ptr_eq_self {live : List (Nat × Nat)} {ptr : Nat} (h : ptr ∉ live.map Prod.fst) :
    live.filter (fun e => e.1 ≠ ptr) = live := by
  apply List.filter_eq_self.mpr
  intro e he
  rw [decide_eq_true_eq]
  rintro rfl
  exact h (List.mem_map_of_mem he)

section Frame

variable {mine others : List (Nat × Nat)} {ev : HeapEvent β}

theorem not_mem_mine {ptr : Nat} (hdistinct : ((mine ++ others).map Prod.fst).Nodup)
    (hptr : ptr ∈ others.map Prod.fst) : ptr ∉ mine.map Prod.fst := by
  rw [List.map_append] at hdistinct
  exact fun hmine => (List.nodup_append.mp hdistinct).2.2 ptr hmine ptr hptr rfl

/-- **Frame.** What happens to the blocks of one client leaves those of the other live, -/
theorem after_frame (hdistinct : ((mine ++ others).map Prod.fst).Nodup) (hown : ev.Own others) :
    (ev.after (mine ++ others)).Perm (mine ++ ev.after others) := by
  cases ev with
  | alloc size answer =>
    cases answer with
    | none => exact .refl _
    | some p => exact List.perm_middle.symm
  | free p =>
    show List.Perm (List.filter _ (mine ++ others)) _
    rw [List.filter_append, filter_ptr_eq_self (not_mem_mine hdistinct hown)]
    exact .refl _
  | write p offset byte => exact .refl _

/-- and keeps their contents. -/
theorem stored_frame (hdistinct : ((mine ++ others).map Prod.fst).Nodup) (hown : ev.Own others)
    (hpossible : ev.Possible (mine ++ others)) (content : Nat → Nat → Option β) {e : Nat × Nat}
    (he : e ∈ mine) : ev.stored content e.1 = content e.1 := by
  have hmine : e.1 ∈ mine.map Prod.fst := List.mem_map_of_mem he
  apply stored_of_ne
  intro hsubject
  cases ev with
  | alloc size answer =>
    obtain rfl : answer = some e.1 := hsubject
    apply hpossible
    rw [List.map_append]
    exact List.mem_append_left _ hmine
  | free p =>
    rw [← Option.some.inj hsubject] at hmine
    exact not_mem_mine hdistinct hown hmine
  | write p offset byte =>
    rw [← Option.some.inj hsubject] at hmine
    exact not_mem_mine hdistinct hown hmine

end Frame

end HeapEvent

namespace Objects

def step (o : Objects β) (ev : HeapEvent β) : Option (Objects β) :=
  if ev.Possible o.live then some ⟨ev.after o.live, ev.stored o.content⟩ else none

theorem step_eq {o : Objects β} {ev : HeapEvent β} (h : ev.Possible o.live) :
    o.step ev = some ⟨ev.after o.live, ev.stored o.content⟩ := if_pos h

theorem step_cases {o o' : Objects β} {ev : HeapEvent β} (h : o.step ev = some o') :
    ev.Possible o.live ∧ o' = ⟨ev.after o.live, ev.stored o.content⟩ := by
  unfold step at h
  split at h
  · next hpossible => exact ⟨hpossible, (Option.some.inj h).symm⟩
  · cases h

end Objects

namespace BlockHeap

variable (H : BlockHeap σ β)

/-- Serve a request. -/
def serve (s : σ) : HeapRequest β → Option (HeapEvent β × σ)
  | .alloc size => (H.alloc s size).map fun (ptr, s') => (.alloc size ptr, s')
  | .free ptr => (H.free s ptr).map fun s' => (.free ptr, s')
  | .write ptr offset byte => (H.write s ptr offset byte).map fun s' => (.write ptr offset byte, s')

theorem serve_own {s s' : σ} {req : HeapRequest β} {ev : HeapEvent β} {limit : Nat} {live : List (Nat × Nat)}
    (h : H.serve s req = some (ev, s')) (hreq : req.Allowed limit live) : ev.Own live := by
  cases req with
  | alloc size =>
    obtain ⟨r, -, heq⟩ := Option.map_eq_some_iff.mp h
    obtain ⟨rfl, -⟩ := Prod.mk.injEq .. ▸ heq
    trivial
  | free ptr =>
    obtain ⟨r, -, heq⟩ := Option.map_eq_some_iff.mp h
    obtain ⟨rfl, -⟩ := Prod.mk.injEq .. ▸ heq
    exact hreq
  | write ptr offset byte =>
    obtain ⟨r, -, heq⟩ := Option.map_eq_some_iff.mp h
    obtain ⟨rfl, -⟩ := Prod.mk.injEq .. ▸ heq
    obtain ⟨e, he, rfl, -⟩ := hreq
    exact List.mem_map_of_mem he

/-- The blocks that stay live keep their bytes. -/
def Spares (s s' : σ) : Prop :=
  ∀ e ∈ H.live s, e ∈ H.live s' → ∀ i < e.2, H.read s' (e.1 + i) = H.read s (e.1 + i)

/-- What a heap owes its clients in states that satisfy `Ok`. -/
structure Keeps (limit : Nat) (Ok : σ → Prop) : Prop where
  distinct : ∀ s, Ok s → ((H.live s).map Prod.fst).Nodup
  alloc : ∀ s size, Ok s → size < limit → ∃ ptr s', H.alloc s size = some (ptr, s') ∧ Ok s' ∧
    H.live s' = (HeapEvent.alloc (β := β) size ptr).after (H.live s) ∧ H.Spares s s'
  free : ∀ s ptr, Ok s → ptr ∈ (H.live s).map Prod.fst → ∃ s', H.free s ptr = some s' ∧ Ok s' ∧
    H.live s' = (HeapEvent.free (β := β) ptr).after (H.live s) ∧ H.Spares s s'
  write : ∀ s, ∀ e ∈ H.live s, ∀ offset < e.2, ∀ byte, Ok s →
    ∃ s', H.write s e.1 offset byte = some s' ∧ Ok s' ∧ H.live s' = H.live s ∧
      H.read s' (e.1 + offset) = some byte ∧ ∀ e' ∈ H.live s, ∀ i < e'.2, (e'.1, i) ≠ (e.1, offset) →
        H.read s' (e'.1 + i) = H.read s (e'.1 + i)

/-- The heap holds the objects. -/
structure Represents (Ok : σ → Prop) (s : σ) (o : Objects β) : Prop where
  ok : Ok s
  live : H.live s = o.live
  content : ∀ e ∈ o.live, ∀ i < e.2, ∀ byte, o.content e.1 i = some byte → H.read s (e.1 + i) = some byte

variable {H} {limit : Nat} {Ok : σ → Prop} {s s' : σ} {o : Objects β}

namespace Represents

/-- An operation that spares the blocks leaves their contents as they are. -/
theorem spare (h : H.Represents Ok s o) (hok : Ok s') {ev : HeapEvent β}
    (hlive : H.live s' = ev.after o.live) (hspares : H.Spares s s')
    (hfresh : ∀ e ∈ ev.after o.live, e ∉ o.live → ev.stored o.content e.1 = fun _ => none)
    (hold : ∀ e ∈ ev.after o.live, e ∈ o.live → ev.stored o.content e.1 = o.content e.1) :
    H.Represents Ok s' ⟨ev.after o.live, ev.stored o.content⟩ := by
  refine ⟨hok, hlive, ?_⟩
  intro e he i hi byte hbyte
  by_cases hmem : e ∈ o.live
  · rw [hspares e (h.live ▸ hmem) (hlive ▸ he) i hi]
    apply h.content e hmem i hi byte
    rw [← hold e he hmem]
    exact hbyte
  · dsimp only at hbyte
    rw [hfresh e he hmem] at hbyte
    cases hbyte

theorem alloc (hK : H.Keeps limit Ok) (h : H.Represents Ok s o) {size : Nat} (hsize : size < limit) :
    ∃ ptr s', H.alloc s size = some (ptr, s') ∧ (HeapEvent.alloc (β := β) size ptr).Possible o.live ∧
      H.Represents Ok s'
        ⟨(HeapEvent.alloc (β := β) size ptr).after o.live, (HeapEvent.alloc size ptr).stored o.content⟩ := by
  obtain ⟨ptr, s', hs, hok, hlive, hspares⟩ := hK.alloc s size h.ok hsize
  have hdistinct := hK.distinct s' hok
  rw [h.live] at hlive
  rw [hlive] at hdistinct
  cases ptr with
  | none =>
    exact ⟨none, s', hs, trivial,
      h.spare hok hlive hspares (fun e he hne => absurd he hne) fun _ _ _ => rfl⟩
  | some p =>
    have hnew : p ∉ o.live.map Prod.fst := (List.nodup_cons.mp hdistinct).1
    have hself : (HeapEvent.alloc (β := β) size (some p)).stored o.content p = fun _ => none :=
      Function.update_self p _ o.content
    have hfresh : ∀ e ∈ (HeapEvent.alloc (β := β) size (some p)).after o.live, e ∉ o.live →
        (HeapEvent.alloc (β := β) size (some p)).stored o.content e.1 = fun _ => none := by
      intro e he hne
      rcases List.mem_cons.mp he with rfl | hmem
      · exact hself
      · exact absurd hmem hne
    have hold : ∀ e ∈ (HeapEvent.alloc (β := β) size (some p)).after o.live, e ∈ o.live →
        (HeapEvent.alloc (β := β) size (some p)).stored o.content e.1 = o.content e.1 := by
      intro e _ hmem
      apply HeapEvent.stored_of_ne
      intro hp
      rw [Option.some.inj hp] at hnew
      exact hnew (List.mem_map_of_mem hmem)
    exact ⟨some p, s', hs, hnew, h.spare hok hlive hspares hfresh hold⟩

theorem free (hK : H.Keeps limit Ok) (h : H.Represents Ok s o) {ptr : Nat}
    (hptr : ptr ∈ o.live.map Prod.fst) :
    ∃ s', H.free s ptr = some s' ∧
      H.Represents Ok s' ⟨(HeapEvent.free (β := β) ptr).after o.live, o.content⟩ := by
  obtain ⟨s', hs, hok, hlive, hspares⟩ := hK.free s ptr h.ok (h.live ▸ hptr)
  rw [h.live] at hlive
  exact ⟨s', hs, @spare _ _ H Ok s s' o h hok (.free ptr) hlive hspares
    (fun e he hne => absurd (List.mem_of_mem_filter he) hne) fun _ _ _ => rfl⟩

theorem write (hK : H.Keeps limit Ok) (h : H.Represents Ok s o) {e : Nat × Nat} (he : e ∈ o.live)
    {offset : Nat} (hoffset : offset < e.2) (byte : β) :
    ∃ s', H.write s e.1 offset byte = some s' ∧
      H.Represents Ok s' ⟨o.live, (HeapEvent.write e.1 offset byte).stored o.content⟩ := by
  obtain ⟨s', hs, hok, hlive, hread, hothers⟩ :=
    hK.write s e (h.live ▸ he) offset hoffset byte h.ok
  refine ⟨s', hs, hok, hlive.trans h.live, ?_⟩
  intro e' he' i hi byte' hbyte'
  simp only [HeapEvent.stored] at hbyte'
  by_cases hptr : e'.1 = e.1
  · rw [hptr, Function.update_self] at hbyte'
    by_cases hi' : i = offset
    · rw [hi', Function.update_self] at hbyte'
      rw [hptr, hi', hread, hbyte']
    · rw [Function.update_of_ne hi'] at hbyte'
      rw [hothers e' (h.live ▸ he') i hi fun heq => hi' (Prod.mk.inj heq).2]
      apply h.content e' he' i hi byte'
      rw [hptr]
      exact hbyte'
  · rw [Function.update_of_ne hptr] at hbyte'
    rw [hothers e' (h.live ▸ he') i hi fun heq => hptr (Prod.mk.inj heq).1]
    exact h.content e' he' i hi byte' hbyte'

/-- **Refinement of a step.** A request that its client may make is served as the objects serve it. -/
theorem serve (hK : H.Keeps limit Ok) (h : H.Represents Ok s o) {req : HeapRequest β}
    (hreq : req.Allowed limit o.live) :
    ∃ ev s' o', H.serve s req = some (ev, s') ∧ o.step ev = some o' ∧ H.Represents Ok s' o' := by
  cases req with
  | alloc size =>
    obtain ⟨ptr, s', hs, hpossible, h'⟩ := h.alloc hK hreq
    exact ⟨_, s', _, by rw [BlockHeap.serve, hs]; rfl, Objects.step_eq hpossible, h'⟩
  | free ptr =>
    obtain ⟨s', hs, h'⟩ := h.free hK hreq
    exact ⟨.free ptr, s', _, by rw [BlockHeap.serve, hs]; rfl, Objects.step_eq hreq, h'⟩
  | write ptr offset byte =>
    obtain ⟨e, he, rfl, hoffset⟩ := hreq
    obtain ⟨s', hs, h'⟩ := h.write hK he hoffset byte
    exact ⟨.write e.1 offset byte, s', _, by rw [BlockHeap.serve, hs]; rfl,
      Objects.step_eq ⟨e, he, rfl, hoffset⟩, h'⟩

end Represents

variable (H)

/-- The heap and the objects, side by side. -/
def track (w : σ × Objects β) (req : HeapRequest β) : Option (σ × Objects β) :=
  (H.serve w.1 req).bind fun (ev, s') => (w.2.step ev).map fun o' => (s', o')

variable {H}

theorem Represents.track (hK : H.Keeps limit Ok) {w : σ × Objects β} (h : H.Represents Ok w.1 w.2)
    {req : HeapRequest β} (hreq : req.Allowed limit w.2.live) :
    ∃ w', H.track w req = some w' ∧ H.Represents Ok w'.1 w'.2 := by
  obtain ⟨ev, s', o', hserve, hstep, h'⟩ := h.serve hK hreq
  have htrack : H.track w req = some (s', o') := by
    rw [BlockHeap.track, hserve, Option.bind_some]
    exact congrArg (Option.map _) hstep
  exact ⟨(s', o'), htrack, h'⟩

theorem Represents.served (hK : H.Keeps limit Ok) {w : σ × Objects β} (h : H.Represents Ok w.1 w.2)
    {req : HeapRequest β} (hreq : req.Allowed limit w.2.live) : (H.track w req).isSome := by
  obtain ⟨w', hw', -⟩ := h.track hK hreq
  rw [hw']
  rfl

/-- **Refinement of a run.** -/
theorem Represents.run (hK : H.Keeps limit Ok) {w w' : σ × Objects β} {reqs : List (HeapRequest β)}
    (hrun : GuardedRun H.track (fun w req => req.Allowed limit w.2.live) w reqs w')
    (h : H.Represents Ok w.1 w.2) : H.Represents Ok w'.1 w'.2 := by
  apply hrun.invariant fun w => H.Represents Ok w.1 w.2
  · intro w req w' h hreq hstep
    obtain ⟨w'', hw'', h''⟩ := h.track hK hreq
    rw [hw''] at hstep
    rw [← Option.some.inj hstep]
    exact h''
  · exact h

end BlockHeap
