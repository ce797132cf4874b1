import TpSo.Machine.Exhaustion
import TpSo.Machine.Progress
import TpSo.Scheduler.Lossless

set_option autoImplicit false

/-! # Operations that spare a process

A process that nobody blocks, wakes, ends or makes anew keeps its state, its saved stack pointer
and, while memory lasts, its place in a ready queue. -/

namespace TpSo

/-- The operation is about another process, or only about priorities. -/
def SchedAct.Spares (p : Addr) : SchedAct → Prop
  | .block q | .unblock q | .exit q | .ready q | .fresh q => q ≠ p
  | .setPriority _ _ => True

/-! ## One operation -/

namespace SchedAct.Step

variable {k k' : Kernel} {a : SchedAct} {p : Addr}

theorem answers (h : a.Step k k') : k'.memAnswers = k.memAnswers := by
  cases a with
  | block q => exact h ▸ answers_of_outside (processBlock_outside k q)
  | unblock q => exact h ▸ answers_of_outside (processUnblock_outside k q)
  | exit q => exact h ▸ answers_of_outer (exitFirstHalf_outer k q)
  | ready q => exact h ▸ answers_of_outside (schedulerAddReady_outside k q)
  | setPriority pid n => exact h ▸ answers_of_outside (schedulerSetProcessPriority_between k pid n).2
  | fresh q => exact h.2.2.2.2.2.2.2.2

theorem lossless (h : a.Step k k') (hl : Lossless k) : Lossless k' :=
  hl.congr (h.hasQueues hl.queues) h.answers

theorem spared_state (h : a.Step k k') (hp : a.Spares p) : (k'.proc p).state = (k.proc p).state := by
  rcases h.spec.state p with hs | ⟨rfl, -⟩ | ⟨rfl, -, -⟩ | ⟨rfl, -⟩ | ⟨rfl | rfl, -⟩
  · exact hs
  all_goals exact absurd rfl hp

theorem spared_rsp (h : a.Step k k') (hp : a.Spares p) : (k'.proc p).rsp = (k.proc p).rsp := by
  rcases h.spec.rsp p with hs | ⟨rfl, -⟩
  · exact hs
  · exact absurd rfl hp

theorem spared_queued (h : a.Step k k') (hl : Lossless k) (hp : a.Spares p)
    (hr : (k.proc p).state = .ready) (hq : Queued k p) : Queued k' p := by
  cases a with
  | block q =>
      cases h
      rw [processBlock_eq]
      split
      · exact hq
      · exact queued_leaveReady_of_ne (Ne.symm hp) hq
  | unblock q =>
      cases h
      unfold processUnblock
      split
      · exact hq
      · exact queued_schedulerAddReady_of_queued hl q hq
  | exit q =>
      cases h
      obtain ⟨i, hi⟩ := queued_leaveReady_of_ne (Ne.symm hp) hq
      refine ⟨i, ?_⟩
      have hfamily := (adoptOrphanChildren_family ((leaveReady k q).setState q .terminated) q).kernel
      rw [exitFirstHalf_eq]
      unfold passForeground
      split <;>
      · rw [entries, hfamily]
        exact hi
  | ready q => exact h ▸ queued_schedulerAddReady_of_queued hl q hq
  | setPriority pid n => exact h ▸ queued_schedulerSetProcessPriority hl pid n hq hr
  | fresh q =>
      obtain ⟨-, -, -, -, -, hready, -⟩ := h
      unfold Queued entries at hq ⊢
      rwa [hready]

/-- Idle, which nobody puts into a ready queue, is not put there. -/
theorem idle_not_queued (h : a.Step k k') (hidle : k.idle = some p) (hp : a.Spares p)
    (hq : ¬ Queued k p) : ¬ Queued k' p := by
  intro hq'
  rcases h.spec.queued p hq' with h' | rfl | ⟨rfl, -⟩ | ⟨pid, n, rfl, -⟩
  · exact hq h'
  · exact hp rfl
  · exact hp rfl
  · cases h
    exact hq (queued_setPriority_idle hidle hq')

end SchedAct.Step

/-! ## A sequence of operations -/

namespace SchedActs

variable {k k' : Kernel} {as : List SchedAct} {p : Addr}

theorem answers (h : SchedActs k as k') : k'.memAnswers = k.memAnswers := by
  induction h with
  | done hs => exact hs.answers
  | act hs ha _ ih => exact ih.trans (ha.answers.trans hs.answers)

theorem lossless (h : SchedActs k as k') (hl : Lossless k) : Lossless k' :=
  hl.congr (h.hasQueues hl.queues) h.answers

/-- **Whom the operations spare** keeps its state, its saved stack pointer and its place. -/
theorem spared (h : SchedActs k as k') (hl : Lossless k) (hp : ∀ a ∈ as, a.Spares p) :
    (k'.proc p).state = (k.proc p).state ∧ (k'.proc p).rsp = (k.proc p).rsp ∧
      ((k.proc p).state = .ready → Queued k p → Queued k' p) := by
  induction h with
  | done hs => exact ⟨hs.state p, hs.rsp p, fun _ hq => (hs.queued p).mpr hq⟩
  | @act k k1 k2 k' a as hs ha _ ih =>
      have hl1 : Lossless k1 := hl.congr (hs.hasQueues hl.queues) hs.answers
      have hspare := hp a List.mem_cons_self
      have hstate := (ha.spared_state hspare).trans (hs.state p)
      obtain ⟨hs', hr', hq'⟩ := ih (ha.lossless hl1) fun b hb => hp b (.tail _ hb)
      refine ⟨hs'.trans hstate, hr'.trans ((ha.spared_rsp hspare).trans (hs.rsp p)), fun hr hq => ?_⟩
      refine hq' (hstate.trans hr) (ha.spared_queued hl1 hspare ((hs.state p).trans hr) ?_)
      exact (hs.queued p).mpr hq

theorem idle_not_queued (h : SchedActs k as k') (hidle : k.idle = some p)
    (hp : ∀ a ∈ as, a.Spares p) (hq : ¬ Queued k p) : ¬ Queued k' p := by
  induction h with
  | done hs => exact fun h => hq ((hs.queued p).mp h)
  | act hs ha _ ih =>
      have hidle1 := hs.idle.trans hidle
      refine ih (ha.spec.idle.trans hidle1) (fun b hb => hp b (.tail _ hb)) ?_
      exact ha.idle_not_queued hidle1 (hp _ List.mem_cons_self) fun h => hq ((hs.queued p).mp h)

/-- A `BLOCKED` process that is woken is in a ready queue. -/
theorem woken (h : SchedActs k [.unblock p] k') (hl : Lossless k) (hb : (k.proc p).state = .blocked) :
    (k'.proc p).state = .ready ∧ (k'.proc p).rsp = (k.proc p).rsp ∧ Queued k' p := by
  cases h with
  | @act _ k1 k2 _ _ _ hs ha hrest =>
      cases hrest with
      | done hs' =>
          cases ha
          have hb1 : (k1.proc p).state = .blocked := (hs.state p).trans hb
          have hwoken : (processUnblock k1 p).2 = schedulerAddReady k1 p := by
            rw [processUnblock, if_neg (not_not.mpr hb1)]
          rw [hwoken] at hs'
          have hadd := schedulerAddReady_between k1 p
          refine ⟨(hs'.state p).trans ?_, (hs'.rsp p).trans ((hadd.rsp p).trans (hs.rsp p)),
            (hs'.queued p).mpr ?_⟩
          · rw [hadd.state p, stateBut, if_pos rfl]
          · exact queued_schedulerAddReady_self (hl.congr (hs.hasQueues hl.queues) hs.answers) p

/-- Placement is kept, where no process object is made over an entry of a ready queue. -/
theorem placed_of_fresh (h : SchedActs k as k') (hpl : Placed k)
    (hf : ∀ q, .fresh q ∈ as → as = [.fresh q] ∧ ¬ Queued k q) : Placed k' := by
  by_cases hno : ∀ q, .fresh q ∉ as
  · exact h.placed hpl hno
  · obtain ⟨q, hq⟩ := not_forall_not.mp hno
    obtain ⟨rfl, hnot⟩ := hf q hq
    cases h with
    | act hs ha hrest =>
        cases hrest with
        | done hs' =>
            refine hs'.placed (ha.placed_fresh (hs.placed hpl) fun i hi => ?_)
            exact hnot ((hs.queued q).mp ⟨i, hi⟩)

end SchedActs

end TpSo
