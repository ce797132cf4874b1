import TpSo.Library.Stretch

set_option autoImplicit false

/-! # Code that others come between

A thread that can be interrupted gives the processor away not only where it says so, but between any two
of its instructions. `interrupted` puts a mark before every instruction, at which others may come in. The
rules are those of `Stretch.lean`, with one more condition: what is asserted before an instruction has to
be stable under what the others do. -/

namespace CodeSystem

variable {σ ι : Type}

/-- The code with a mark before every instruction. -/
def marked (code : List ι) : List (Option ι) := code.flatMap (fun i => [none, some i])

@[simp] theorem marked_nil : marked ([] : List ι) = [] := rfl

@[simp] theorem marked_cons (i : ι) (code : List ι) :
    marked (i :: code) = none :: some i :: marked code := rfl

@[simp] theorem marked_append (code code' : List ι) :
    marked (code ++ code') = marked code ++ marked code' := List.flatMap_append ..

theorem mem_marked {code : List ι} {i : ι} (h : some i ∈ marked code) : i ∈ code := by
  simpa [marked] using h

/-- The code of a thread that can be interrupted. -/
def interrupted (C : CodeSystem σ ι) : CodeSystem σ (Option ι) where
  run
    | s, none => (s, [])
    | s, some i => ((C.run s i).1, marked (C.run s i).2)
  leaves
    | none => True
    | some i => C.leaves i
  back := C.back

/-- The others do not falsify the assertion. -/
def Stable (C : CodeSystem σ ι) (pre : σ → Prop) : Prop := ∀ s s', pre s → C.back s s' → pre s'

/-- Partial correctness of code that can be interrupted. -/
def Interrupted (C : CodeSystem σ ι) (ok : σ → ι → Prop) (pre : σ → Prop) (code : List ι)
    (post : σ → Prop) : Prop :=
  C.interrupted.Triple (fun s o => ∀ i ∈ o, ok s i) pre (marked code) post

variable {C : CodeSystem σ ι} {ok : σ → ι → Prop} {pre pre' m post post' : σ → Prop}
  {code code' : List ι} {i : ι}

/-- One instruction, by what it does. -/
theorem Path.executes {s s' : σ} {rest : List ι} (hi : ¬ C.leaves i) (hrun : C.run s i = (s', code)) :
    C.Path (s, i :: rest) (s', code ++ rest) := by
  have hstep : C.Step (s, i :: rest) ((C.run s i).1, (C.run s i).2 ++ rest) := .run hi
  rw [hrun] at hstep
  exact .single hstep

/-- What a thread does where nobody interrupts it, it can do where somebody might. -/
theorem Path.interrupted (hrefl : ∀ s, C.back s s) {s s' : σ} {rest : List ι}
    (h : C.Path (s, code) (s', rest)) : C.interrupted.Path (s, marked code) (s', marked rest) := by
  suffices hall : ∀ x y, C.Path x y → C.interrupted.Path (x.1, marked x.2) (y.1, marked y.2) from
    hall _ _ h
  intro x y hxy
  induction hxy with
  | refl => exact .refl
  | tail _ hstep ih =>
      refine ih.trans ?_
      cases hstep with
      | @run s i rest hi =>
          rw [marked_append]
          exact .head (.leave (C := C.interrupted) trivial (hrefl s)) (.single (.run (C := C.interrupted) hi))
      | @leave s s' i rest hi hback =>
          exact .head (.leave (C := C.interrupted) trivial (hrefl s))
            (.single (.leave (C := C.interrupted) hi hback))

namespace Interrupted

theorem nil (h : ∀ s, pre s → post s) : C.Interrupted ok pre [] post := Triple.nil h

/-- A single state to start from. -/
theorem start {s : σ} (h : C.Interrupted ok pre code post) (hs : pre s) :
    C.Interrupted ok (fun t => t = s) code post := Triple.start h hs

/-- **Sequence.** -/
theorem append (h : C.Interrupted ok pre code m) (h' : C.Interrupted ok m code' post) :
    C.Interrupted ok pre (code ++ code') post := by
  unfold Interrupted
  rw [marked_append]
  exact Triple.append h h'

/-- An instruction followed by others. -/
theorem cons (h : C.Interrupted ok pre [i] m) (h' : C.Interrupted ok m code post) :
    C.Interrupted ok pre (i :: code) post := append h h'

/-- **One instruction**, by the code it expands to. -/
theorem instr (hpre : C.Stable pre) (hi : ¬ C.leaves i)
    (h : ∀ s, pre s → ok s i ∧ C.Interrupted ok (fun t => t = (C.run s i).1) (C.run s i).2 post) :
    C.Interrupted ok pre [i] post := by
  refine Triple.cons (m := pre) (.leave trivial (fun _ _ => ?_) hpre) (.instr hi fun s hs => ?_)
  · rintro j ⟨⟩
  · refine ⟨fun j hj => ?_, (h s hs).2⟩
    cases hj
    exact (h s hs).1

/-- An instruction that expands to nothing. -/
theorem simple (hpre : C.Stable pre) (hi : ¬ C.leaves i) (hcode : ∀ s, pre s → (C.run s i).2 = [])
    (hok : ∀ s, pre s → ok s i) (hpost : ∀ s, pre s → post (C.run s i).1) :
    C.Interrupted ok pre [i] post := by
  refine instr hpre hi fun s hs => ⟨hok s hs, ?_⟩
  rw [hcode s hs]
  refine nil ?_
  rintro t rfl
  exact hpost s hs

/-- **Invariant rule**: code whose instructions expand to their own kind and keep a condition. -/
theorem invariant (cls : ι → Prop) (hpre : C.Stable pre) (hcode : ∀ i ∈ code, cls i)
    (hrun : ∀ s i, pre s → cls i → ¬ C.leaves i →
      pre (C.run s i).1 ∧ ∀ j ∈ (C.run s i).2, cls j)
    (hok : ∀ s i, pre s → cls i → ok s i) : C.Interrupted ok pre code pre := by
  refine Triple.invariant (fun o => ∀ i ∈ o, cls i) ?_ ?_ hpre fun s o hs ho i hi => hok s i hs (ho i hi)
  · rintro o ho i hi
    cases hi
    exact hcode i (mem_marked ho)
  · intro s o hs ho hleaves
    cases o with
    | none => exact absurd trivial hleaves
    | some i =>
        obtain ⟨hs', hcode'⟩ := hrun s i hs (ho i rfl) hleaves
        refine ⟨hs', ?_⟩
        rintro o ho' j hj
        cases hj
        exact hcode' j (mem_marked ho')

end Interrupted

end CodeSystem
