import TpSo.Scheduler.Queues
import TpSo.Kernel.Process

set_option autoImplicit false

/-! # What re-parenting changes

`add_child` and `adopt_orphan_children` write parents and children queues and nothing else. -/

namespace TpSo

/-- What `add_child` and `adopt_orphan_children` may change: parents, children queues and the
    allocator's position. -/
structure FamilyOnly (k k' : Kernel) : Prop where
  kernel : k' = { k with proc := k'.proc, memCalls := k'.memCalls }
  proc : ∀ p, k'.proc p =
    { k.proc p with ppid := (k'.proc p).ppid, children := (k'.proc p).children }

namespace FamilyOnly

variable {k k' k'' : Kernel}

theorem refl (k : Kernel) : FamilyOnly k k := ⟨rfl, fun _ => rfl⟩

theorem trans (h : FamilyOnly k k') (h' : FamilyOnly k' k'') : FamilyOnly k k'' where
  kernel := by rw [h'.kernel, h.kernel]
  proc p := by rw [h'.proc p, h.proc p]

theorem state (h : FamilyOnly k k') (p : Addr) : (k'.proc p).state = (k.proc p).state := by
  rw [h.proc p]

theorem pid (h : FamilyOnly k k') (p : Addr) : (k'.proc p).pid = (k.proc p).pid := by
  rw [h.proc p]

theorem outer (h : FamilyOnly k k') : k'.outer = k.outer := by
  rw [h.kernel]
  rfl

/-- Writing only these two fields of one process. -/
theorem modProc (k : Kernel) (p : Addr) (f : Process → Process)
    (hf : f (k.proc p) =
      { k.proc p with ppid := (f (k.proc p)).ppid, children := (f (k.proc p)).children }) :
    FamilyOnly k (k.modProc p f) where
  kernel := rfl
  proc q := by
    by_cases h : q = p
    · subst h
      simp only [Kernel.modProc, Function.update_self]
      exact hf
    · simp only [Kernel.modProc, Function.update_of_ne h]

theorem setChildren (k : Kernel) (p : Addr) (q : Queue Addr) : FamilyOnly k (k.setChildren p q) :=
  .modProc k p _ rfl

end FamilyOnly

theorem pushChild_family (k : Kernel) (parent child : Addr) :
    FamilyOnly k (pushChild k parent child).2 := by
  unfold pushChild
  dsimp only
  refine FamilyOnly.trans ?_ (.setChildren _ _ _)
  rw [queuePush_kernel]
  exact ⟨rfl, fun _ => rfl⟩

theorem addChild_family (k : Kernel) (parent child : Addr) :
    FamilyOnly k (addChild k parent child).2 := by
  unfold addChild
  split
  · have hcreate : FamilyOnly k (queueCreate Addr k).2 := ⟨rfl, fun _ => rfl⟩
    exact (hcreate.trans (.setChildren _ parent _)).trans (pushChild_family _ parent child)
  · exact pushChild_family k parent child

theorem adoptLoop_family (initProcess : Addr) (children : List Addr) :
    ∀ k : Kernel, FamilyOnly k (adoptLoop k initProcess children) := by
  induction children with
  | nil => exact fun k => .refl k
  | cons child rest ih =>
      exact fun k => ((FamilyOnly.modProc k child _ rfl).trans (addChild_family _ _ _)).trans (ih _)

theorem addChild_ppid (k : Kernel) (parent child p : Addr) :
    ((addChild k parent child).2.proc p).ppid = (k.proc p).ppid := by
  have hset : ∀ (k : Kernel) (q : Queue Addr), ((k.setChildren parent q).proc p).ppid =
      (k.proc p).ppid := by
    intro k q
    simp only [Kernel.setChildren, Kernel.modProc, Function.update_apply]
    split
    · next h => rw [h]
    · rfl
  have hpush : ∀ k : Kernel, ((pushChild k parent child).2.proc p).ppid = (k.proc p).ppid := by
    intro k
    unfold pushChild
    dsimp only
    rw [hset, queuePush_kernel]
  unfold addChild
  split
  · rw [hpush, hset]
    rfl
  · exact hpush k

/-- Adoption gives a new parent to the children in the list only. -/
theorem adoptLoop_ppid (initProcess : Addr) {p : Addr} (children : List Addr) (hp : p ∉ children) :
    ∀ k : Kernel, ((adoptLoop k initProcess children).proc p).ppid = (k.proc p).ppid := by
  induction children with
  | nil => exact fun _ => rfl
  | cons child rest ih =>
      intro k
      unfold adoptLoop
      rw [ih fun h => hp (.tail _ h), addChild_ppid]
      have hne : p ≠ child := by
        rintro rfl
        exact hp List.mem_cons_self
      simp only [Kernel.modProc, Function.update_of_ne hne]

/-- A process that is not among the orphans keeps its parent. -/
theorem adoptOrphanChildren_ppid (k : Kernel) {p q : Addr}
    (h : p ∉ (k.proc q).children.getD []) :
    ((adoptOrphanChildren k q).proc p).ppid = (k.proc p).ppid := by
  have hset : ∀ (k : Kernel) (children : Queue Addr), ((k.setChildren q children).proc p).ppid =
      (k.proc p).ppid := by
    intro k children
    simp only [Kernel.setChildren, Kernel.modProc, Function.update_apply]
    split
    · next h => rw [h]
    · rfl
  unfold adoptOrphanChildren
  split
  · rfl
  · next children hc =>
    split
    · rfl
    · split
      · rfl
      · rw [hset, adoptLoop_ppid _ children (by simpa [hc] using h), hset]

theorem adoptOrphanChildren_family (k : Kernel) (p : Addr) :
    FamilyOnly k (adoptOrphanChildren k p) := by
  unfold adoptOrphanChildren
  split
  · exact .refl k
  · split
    · exact .refl k
    · split
      · exact .refl k
      · exact ((FamilyOnly.setChildren k p _).trans (adoptLoop_family _ _ _)).trans
          (.setChildren _ p _)

/-! ## Where `add_child` fails -/

/-- The children queue is as it was, or an empty one has been created. -/
def KeepsChildren (old new : Queue Addr) : Prop := new = old ∨ old = none ∧ new = some []

theorem KeepsChildren.trans {a b c : Queue Addr} (h : KeepsChildren a b) (h' : KeepsChildren b c) :
    KeepsChildren a c := by
  rcases h with rfl | ⟨rfl, rfl⟩
  · exact h'
  · rcases h' with rfl | ⟨hnone, -⟩
    · exact .inr ⟨rfl, rfl⟩
    · cases hnone

theorem KeepsChildren.refl (q : Queue Addr) : KeepsChildren q q := .inl rfl

theorem pushChild_fails {k : Kernel} {q child : Addr} (h : (pushChild k q child).1 = false) (r : Addr) :
    ((pushChild k q child).2.proc r).children = (k.proc r).children := by
  have hqueue : (queuePush k (k.proc q).children child).2.1 = (k.proc q).children := by
    change (queuePush k (k.proc q).children child).1 = false at h
    cases hc : (k.proc q).children with
    | none => rfl
    | some xs =>
        rw [hc] at h
        cases hok : k.allocOk with
        | true => simp [queuePush_ok k xs child hok] at h
        | false => rw [queuePush_fail k xs child hok]
  have hproc : (queuePush k (k.proc q).children child).2.2.proc = k.proc := by rw [queuePush_kernel]
  simp only [pushChild, Kernel.setChildren, Kernel.modProc, hqueue, hproc]
  by_cases hr : r = q
  · subst hr
    rw [Function.update_self]
  · rw [Function.update_of_ne hr]

/-- A failed `add_child` leaves the children as they were, or their queue empty. -/
theorem addChild_fails {k : Kernel} {q child : Addr} (h : (addChild k q child).1 = false) (r : Addr) :
    KeepsChildren (k.proc r).children ((addChild k q child).2.proc r).children := by
  unfold addChild at h ⊢
  split at h
  · next hnone =>
    rw [if_pos hnone]
    dsimp only at h ⊢
    rw [pushChild_fails h]
    simp only [Kernel.setChildren, Kernel.modProc, queueCreate]
    by_cases hr : r = q
    · subst hr
      rw [Function.update_self, Option.isNone_iff_eq_none.mp hnone]
      cases hok : k.allocOk with
      | true => exact .inr ⟨rfl, rfl⟩
      | false => exact .inl rfl
    · rw [Function.update_of_ne hr]
      exact .refl _
  · next hsome =>
    rw [if_neg hsome, pushChild_fails h]
    exact .refl _

end TpSo
