import Mathlib.Logic.Relation

set_option autoImplicit false

/-! # Partial correctness of code that expands

A thread is a state and the list of instructions it still has to execute. `run` executes one of
them and returns the instructions it expands to, which come before the rest. At the instructions in
`leaves` the processor goes to other threads; what they leave behind is in the relation `back`.

`Triple ok pre code post` says of every run of `code` from a state with `pre`: each instruction is
`ok` where it is executed, and when the code has run to its end, `post` holds. It does not say that
the run gets there. -/

/-- Instructions that expand, and points at which the processor is given away. -/
structure CodeSystem (σ ι : Type) where
  run : σ → ι → σ × List ι
  leaves : ι → Prop
  back : σ → σ → Prop

namespace CodeSystem

variable {σ ι : Type} (C : CodeSystem σ ι)

/-- One step of a thread. -/
inductive Step : σ × List ι → σ × List ι → Prop
  | run {s : σ} {i : ι} {rest : List ι} : ¬ C.leaves i →
      Step (s, i :: rest) ((C.run s i).1, (C.run s i).2 ++ rest)
  | leave {s s' : σ} {i : ι} {rest : List ι} : C.leaves i → C.back s s' → Step (s, i :: rest) (s', rest)

/-- Any number of steps. -/
def Path : σ × List ι → σ × List ι → Prop := Relation.ReflTransGen C.Step

/-- Partial correctness, with a condition on every instruction on the way. -/
def Triple (ok : σ → ι → Prop) (pre : σ → Prop) (code : List ι) (post : σ → Prop) : Prop :=
  ∀ s, pre s → ∀ s' rest, C.Path (s, code) (s', rest) →
    (rest = [] → post s') ∧ ∀ i more, rest = i :: more → ok s' i

variable {C} {ok : σ → ι → Prop} {pre pre' m post post' : σ → Prop} {code code' : List ι} {i : ι}

/-- A run of two pieces of code is in the first one, or has come to its end. -/
theorem Path.append_cases {s s' : σ} {rest : List ι} (h : C.Path (s, code ++ code') (s', rest)) :
    (∃ left, rest = left ++ code' ∧ C.Path (s, code) (s', left)) ∨
      ∃ t, C.Path (s, code) (t, []) ∧ C.Path (t, code') (s', rest) := by
  suffices hall : ∀ x y, C.Path x y → ∀ code, x = (s, code ++ code') →
      (∃ left, y.2 = left ++ code' ∧ C.Path (s, code) (y.1, left)) ∨
        ∃ t, C.Path (s, code) (t, []) ∧ C.Path (t, code') y from hall _ _ h code rfl
  intro x y hxy code hx
  subst hx
  induction hxy with
  | refl => exact .inl ⟨code, rfl, .refl⟩
  | @tail b c _ hstep ih =>
      rcases ih with ⟨left, hb, hpath⟩ | ⟨t, hfirst, hsecond⟩
      · cases left with
        | nil =>
            refine .inr ⟨b.1, hpath, .single ?_⟩
            rw [show code' = b.2 from hb.symm]
            exact hstep
        | cons j left =>
            refine .inl ?_
            obtain ⟨bs, brest⟩ := b
            change brest = j :: (left ++ code') at hb
            subst hb
            cases hstep with
            | run hj => exact ⟨_, (List.append_assoc _ _ _).symm, hpath.tail (.run hj)⟩
            | leave hj hback => exact ⟨left, rfl, hpath.tail (.leave hj hback)⟩
      · exact .inr ⟨t, hfirst, hsecond.tail hstep⟩

/-- A run of the first piece of code, with the second still to come. -/
theorem Path.append_right {s s' : σ} {left : List ι} (h : C.Path (s, code) (s', left)) :
    C.Path (s, code ++ code') (s', left ++ code') := by
  suffices hall : ∀ x y, C.Path x y → C.Path (x.1, x.2 ++ code') (y.1, y.2 ++ code') from hall _ _ h
  intro x y hxy
  induction hxy with
  | refl => exact .refl
  | tail _ hstep ih =>
      refine ih.tail ?_
      cases hstep with
      | run hi =>
          rw [List.append_assoc]
          exact .run hi
      | leave hi hback => exact .leave hi hback

namespace Triple

theorem nil (h : ∀ s, pre s → post s) : C.Triple ok pre [] post := by
  intro s hs s' rest hpath
  rcases Relation.ReflTransGen.cases_head hpath with heq | ⟨t, hstep, -⟩
  · cases heq
    exact ⟨fun _ => h s hs, nofun⟩
  · cases hstep

/-- Code that is never reached. -/
theorem unreached (h : ∀ s, ¬ pre s) : C.Triple ok pre code post := fun s hs => absurd hs (h s)

/-- **Consequence.** -/
theorem conseq (h : C.Triple ok pre code post) (hpre : ∀ s, pre' s → pre s)
    (hpost : ∀ s, post s → post' s) : C.Triple ok pre' code post' := by
  intro s hs s' rest hpath
  obtain ⟨hend, hok⟩ := h s (hpre s hs) s' rest hpath
  exact ⟨fun hr => hpost s' (hend hr), hok⟩

/-- A single state to start from. -/
theorem start {s : σ} (h : C.Triple ok pre code post) (hs : pre s) :
    C.Triple ok (fun t => t = s) code post := by
  refine h.conseq ?_ fun _ ht => ht
  rintro t rfl
  exact hs

/-- A weaker postcondition. -/
theorem weaken (h : C.Triple ok pre code post) (hpost : ∀ s, post s → post' s) :
    C.Triple ok pre code post' := h.conseq (fun _ hs => hs) hpost

/-- **Sequence.** -/
theorem append (h : C.Triple ok pre code m) (h' : C.Triple ok m code' post) :
    C.Triple ok pre (code ++ code') post := by
  intro s hs s' rest hpath
  rcases hpath.append_cases with ⟨left, rfl, hfirst⟩ | ⟨t, hfirst, hsecond⟩
  · obtain ⟨hend, hok⟩ := h s hs s' left hfirst
    cases left with
    | nil => exact h' s' (hend rfl) s' code' .refl
    | cons j left =>
        refine ⟨nofun, fun i more hi => ?_⟩
        cases hi
        exact hok j left rfl
  · exact h' t ((h s hs t [] hfirst).1 rfl) s' rest hsecond

/-- **One instruction**, by the code it expands to. -/
theorem instr (hi : ¬ C.leaves i)
    (h : ∀ s, pre s → ok s i ∧ C.Triple ok (fun t => t = (C.run s i).1) (C.run s i).2 post) :
    C.Triple ok pre [i] post := by
  intro s hs s' rest hpath
  obtain ⟨hok, htriple⟩ := h s hs
  rcases Relation.ReflTransGen.cases_head hpath with heq | ⟨t, hstep, htail⟩
  · cases heq
    refine ⟨nofun, fun j more hj => ?_⟩
    cases hj
    exact hok
  · cases hstep with
    | run _ =>
        rw [List.append_nil] at htail
        exact htriple _ rfl s' rest htail
    | leave hj _ => exact absurd hj hi

/-- An instruction that expands to nothing. -/
theorem simple (hi : ¬ C.leaves i) (hcode : ∀ s, pre s → (C.run s i).2 = [])
    (hok : ∀ s, pre s → ok s i) (hpost : ∀ s, pre s → post (C.run s i).1) :
    C.Triple ok pre [i] post := by
  refine instr hi fun s hs => ⟨hok s hs, ?_⟩
  rw [hcode s hs]
  refine nil ?_
  rintro t rfl
  exact hpost s hs

/-- An instruction followed by others. -/
theorem cons (h : C.Triple ok pre [i] m) (h' : C.Triple ok m code post) :
    C.Triple ok pre (i :: code) post := append h h'

/-- The processor is given away. -/
theorem leave (hi : C.leaves i) (hok : ∀ s, pre s → ok s i)
    (h : ∀ s s', pre s → C.back s s' → post s') : C.Triple ok pre [i] post := by
  intro s hs s' rest hpath
  rcases Relation.ReflTransGen.cases_head hpath with heq | ⟨t, hstep, htail⟩
  · cases heq
    refine ⟨nofun, fun j more hj => ?_⟩
    cases hj
    exact hok s hs
  · cases hstep with
    | run hj => exact absurd hi hj
    | @leave _ s1 _ _ _ hback =>
        have hdone : C.Triple ok (fun t => t = s1) [] post := by
          refine nil ?_
          rintro t rfl
          exact h s t hs hback
        exact hdone s1 rfl s' rest htail

/-- **Spinning**: the instruction waits in a state in which it repeats itself, or passes. -/
theorem spin (hi : ¬ C.leaves i) (hok : ∀ s, pre s → ok s i)
    (h : ∀ s, pre s → C.run s i = (s, [i]) ∨ (C.run s i).2 = [] ∧ post (C.run s i).1) :
    C.Triple ok pre [i] post := by
  intro s hs s' rest hpath
  suffices hall : ∀ y, C.Path (s, [i]) y → y = (s, [i]) ∨ y.2 = [] ∧ post y.1 by
    rcases hall _ hpath with heq | ⟨hend, hpost⟩
    · cases heq
      refine ⟨nofun, fun j more hj => ?_⟩
      cases hj
      exact hok s hs
    · change rest = [] at hend
      subst hend
      exact ⟨fun _ => hpost, nofun⟩
  intro y hy
  induction hy with
  | refl => exact .inl rfl
  | tail _ hstep ih =>
      rcases ih with rfl | ⟨hend, hpost⟩
      · cases hstep with
        | run _ =>
            rw [List.append_nil]
            rcases h s hs with hrun | ⟨hcode, hpost⟩
            · rw [hrun]
              exact .inl rfl
            · exact .inr ⟨hcode, hpost⟩
        | leave hj _ => exact absurd hj hi
      · cases hstep <;> cases hend

/-- **Invariant rule**: code whose instructions expand to their own kind and keep a condition. -/
theorem invariant (cls : ι → Prop) (hcode : ∀ i ∈ code, cls i)
    (hrun : ∀ s i, pre s → cls i → ¬ C.leaves i →
      pre (C.run s i).1 ∧ ∀ j ∈ (C.run s i).2, cls j)
    (hback : ∀ s s', pre s → C.back s s' → pre s') (hok : ∀ s i, pre s → cls i → ok s i) :
    C.Triple ok pre code pre := by
  intro s hs s' rest hpath
  suffices hall : ∀ y, C.Path (s, code) y → pre y.1 ∧ ∀ i ∈ y.2, cls i by
    obtain ⟨hpre, hcls⟩ := hall _ hpath
    refine ⟨fun _ => hpre, ?_⟩
    rintro i more rfl
    exact hok s' i hpre (hcls i List.mem_cons_self)
  intro y hy
  induction hy with
  | refl => exact ⟨hs, hcode⟩
  | tail _ hstep ih =>
      obtain ⟨hpre, hcls⟩ := ih
      cases hstep with
      | @run t i more hi =>
          obtain ⟨hpre', hcls'⟩ := hrun t i hpre (hcls i List.mem_cons_self) hi
          refine ⟨hpre', fun j hj => ?_⟩
          exact (List.mem_append.mp hj).elim (hcls' j) fun hj => hcls j (.tail _ hj)
      | leave _ hb => exact ⟨hback _ _ hpre hb, fun j hj => hcls j (.tail _ hj)⟩

/-- A loop that a list of the same instruction stands for. -/
theorem replicate (n : Nat) (h : C.Triple ok pre [i] pre) :
    C.Triple ok pre (List.replicate n i) pre := by
  induction n with
  | zero => exact nil fun _ hs => hs
  | succ n ih => exact cons h ih

end Triple

end CodeSystem
