import TpSo.Machine.Spared

set_option autoImplicit false

/-! # Where a process is kept

A process that nobody else blocks, wakes or ends is current and on its own stack, or it is away with
its own stack pointer saved: in a ready queue, or `BLOCKED` until somebody wakes it. A switch moves
processes between these places, and falls back to idle only when no process is ready. -/

namespace TpSo

/-- What a run keeps up as long as memory lasts and nobody touches idle. -/
structure Sane (m : Machine) : Prop where
  lossless : Lossless m.k
  placed : Placed m.k
  idle : ¬ Queued m.k Boot.idle
  owners : Stacks m

/-- The place of a process `w` that waits for something or does not: `cpu` is the stack the processor
    is on. -/
structure Seat (k : Kernel) (cpu w : Addr) (waits : Bool) : Prop where
  on : cpu = w → k.current = some w ∧ (k.proc w).state = if waits then .blocked else .running
  away : cpu ≠ w → k.current ≠ some w ∧ (k.proc w).rsp = w ∧
    (k.proc w).state = (if waits then .blocked else .ready) ∧ (waits = false → Queued k w)

namespace Seat

variable {k k' : Kernel} {cpu w : Addr} {waits : Bool}

/-- A process that does not wait may be given the processor. -/
theorem runnable (h : Seat k cpu w false) (hi : k.idle ≠ some w) : Runnable k w := by
  by_cases hc : cpu = w
  · obtain ⟨hcur, hs⟩ := h.on hc
    exact .inr ⟨hcur, hi, hs⟩
  · exact .inl ((h.away hc).2.2.2 rfl)

/-- Nothing the process is kept by has changed. -/
theorem congr (h : Seat k cpu w waits) (hs : (k'.proc w).state = (k.proc w).state)
    (hr : (k'.proc w).rsp = (k.proc w).rsp) (hc : k'.current = k.current)
    (hq : (k.proc w).state = .ready → Queued k w → Queued k' w) : Seat k' cpu w waits := by
  refine ⟨fun hcpu => ?_, fun hcpu => ?_⟩
  · rw [hc, hs]
    exact h.on hcpu
  · obtain ⟨hne, hrsp, hstate, hqueued⟩ := h.away hcpu
    rw [hc, hs, hr]
    refine ⟨hne, hrsp, hstate, fun hw => ?_⟩
    rw [hw] at hstate
    exact hq hstate (hqueued hw)

/-- Operations that spare the process leave it where it is. -/
theorem spared (h : Seat k cpu w waits) {as : List SchedAct} (hacts : SchedActs k as k')
    (hl : Lossless k) (hp : ∀ a ∈ as, a.Spares w) : Seat k' cpu w waits := by
  obtain ⟨hs, hr, hq⟩ := hacts.spared hl hp
  exact h.congr hs hr hacts.current hq

/-- The stack pointer a switch saves for the process is its own. -/
theorem leftRsp (h : Seat k cpu w waits) : TpSo.leftRsp k cpu w = w := by
  unfold TpSo.leftRsp
  split
  · next hc =>
    by_contra hne
    exact (h.away hne).1 hc
  · next hc =>
    refine (h.away fun hcpu => hc (h.on hcpu).1).2.1

/-- The state the process is left in when it loses the processor. -/
theorem leftState (h : Seat k cpu w waits) (hi : k.idle ≠ some w) :
    TpSo.leftState k w = if waits then .blocked else .ready := by
  unfold TpSo.leftState
  by_cases hcpu : cpu = w
  · obtain ⟨hc, hs⟩ := h.on hcpu
    cases waits
    · rw [if_pos ⟨hc, .inr hs⟩]
      rfl
    · rw [if_neg]
      · exact hs
      · rintro ⟨-, hid | hr⟩
        · exact hi hid
        · exact absurd (hs.symm.trans hr) (by simp)
  · obtain ⟨hc, -, hs, -⟩ := h.away hcpu
    rw [if_neg fun hno => hc hno.1, hs]

end Seat

/-! ## A switch -/

/-- **A switch** leaves every process of a group in its place, gives the processor to none that waits,
    and takes it from one only if somebody else is ready. -/
theorem scheduleTick_seats {k : Kernel} {cpu : Addr} {group : Addr → Prop} {waits : Addr → Bool}
    (hl : Lossless k) (hpl : Placed k) (hidle : k.idle = some Boot.idle)
    (hout : ¬ Queued k Boot.idle)
    (hsaved : ∀ p, p ≠ Boot.idle → TpSo.leftRsp k cpu p = p ∨ TpSo.leftRsp k cpu p = 0)
    (hgroup : ∀ w, group w → w ≠ 0 ∧ w ≠ Boot.idle) (hseat : ∀ w, group w → Seat k cpu w (waits w))
    (hother : group cpu → waits cpu = true → ∃ w, group w ∧ waits w = false)
    {w : Addr} (hw : group w) :
    Seat (scheduleTick k cpu).2 (scheduleTick k cpu).1 w (waits w) ∧
      (waits w = true → (scheduleTick k cpu).1 ≠ w) := by
  have hne : ∀ v, group v → k.idle ≠ some v := by
    intro v hv h
    cases hidle.symm.trans h
    exact (hgroup _ hv).2 rfl
  have hnotIdle : ∀ p, k.idle = some p → ¬ Queued k p := by
    intro p hp
    cases hidle.symm.trans hp
    exact hout
  have hs := hseat w hw
  -- whoever is ready and not current after the switch is in a ready queue
  have hqueued : waits w = false → (scheduleTick k cpu).2.current ≠ some w →
      Queued (scheduleTick k cpu).2 w := by
    intro hwait hcur
    rw [hwait] at hs
    exact (scheduleTick_runnable hl hpl hnotIdle cpu (hs.runnable (hne w hw))).resolve_right hcur
  cases scheduleTick_cases k cpu with
  | keep c keeps resume current state saved _ =>
      rw [resume]
      have hcur : (scheduleTick k cpu).2.current = k.current := current.trans keeps.1.symm
      refine ⟨⟨fun hcpu => ?_, fun hcpu => ?_⟩, fun hwait hcpu => ?_⟩
      · rw [hcur, state w]
        exact hs.on hcpu
      · obtain ⟨hc, -, hstate, -⟩ := hs.away hcpu
        rw [hcur, state w, saved w, hs.leftRsp]
        exact ⟨hc, rfl, hstate, fun hwait => hqueued hwait (hcur ▸ hc)⟩
      · obtain ⟨hc, hstate⟩ := hs.on hcpu
        cases keeps.1.symm.trans hc
        rw [hwait] at hstate
        exact absurd (hstate.symm.trans keeps.2.2.1) (by simp)
  | dispatch n notIdle ready _ resume current state saved _ =>
      by_cases hwn : w = n
      · subst hwn
        have hcpu : (scheduleTick k cpu).1 = w := resume.trans hs.leftRsp
        have hwait : waits w = false := by
          rw [← Bool.not_eq_true]
          intro hwait
          have hstate : (k.proc w).state = .blocked := by
            rw [hwait] at hs
            by_cases hc : cpu = w
            · exact (hs.on hc).2
            · exact (hs.away hc).2.2.1
          rcases ready with ⟨-, hr⟩ | ⟨-, hr⟩ <;> exact absurd (hstate.symm.trans hr) (by decide)
        rw [hwait, hcpu]
        refine ⟨⟨fun _ => ⟨current, ?_⟩, fun h => absurd rfl h⟩, fun h => absurd h (by simp)⟩
        rw [state w, if_pos rfl]
        rfl
      · have hcpu : (scheduleTick k cpu).1 ≠ w := by
          rw [resume]
          intro h
          have hn : n ≠ Boot.idle := fun h => notIdle (h ▸ hidle)
          rcases hsaved n hn with hr | hr
          · exact hwn (h.symm.trans hr)
          · exact (hgroup w hw).1 (h.symm.trans hr)
        have hcur : (scheduleTick k cpu).2.current ≠ some w := by
          rw [current]
          exact fun h => hwn (Option.some.inj h).symm
        refine ⟨⟨fun h => absurd h hcpu, fun _ => ⟨hcur, ?_, ?_, fun hwait => hqueued hwait hcur⟩⟩,
          fun _ => hcpu⟩
        · rw [saved w, hs.leftRsp]
        · rw [state w, if_neg hwn, hs.leftState (hne w hw)]
  | idle d isIdle nothing resume current state saved _ =>
      cases hidle.symm.trans isIdle
      have hnobody := nobody_runnable hl hpl hnotIdle cpu nothing
      have hfree : ¬ group cpu := by
        intro hcpu
        have hscpu := hseat cpu hcpu
        cases hwait : waits cpu with
        | false =>
            rw [hwait] at hscpu
            exact hnobody cpu (hscpu.runnable (hne cpu hcpu))
        | true =>
            obtain ⟨v, hv, hvw⟩ := hother hcpu hwait
            have hsv := hseat v hv
            rw [hvw] at hsv
            exact hnobody v (hsv.runnable (hne v hv))
      have hcpu : cpu ≠ w := by
        rintro rfl
        exact hfree hw
      have hwi := (hgroup w hw).2
      rw [resume]
      have hcur : (scheduleTick k cpu).2.current ≠ some w := by
        rw [current]
        exact fun h => hwi (Option.some.inj h).symm
      refine ⟨⟨fun h => absurd h hcpu, fun _ => ⟨hcur, ?_, ?_, fun hwait => hqueued hwait hcur⟩⟩,
        fun _ => hcpu⟩
      · rw [saved w, if_neg hwi, hs.leftRsp]
      · rw [state w, if_neg hwi, hs.leftState (hne w hw)]
  | nobody noIdle _ _ _ _ _ => exact absurd (noIdle.symm.trans hidle) (by simp)

/-! ## Steps -/

/-- Only `createProcess` makes a process object, and it does nothing else to the scheduler. -/
theorem fresh_alone {m : Machine} {a : Action} {q : Addr} (h : .fresh q ∈ m.stepActs a) :
    m.stepActs a = [.fresh q] := by
  have hinstr : ∀ i, .fresh q ∈ schedActs m.k i → schedActs m.k i = [.fresh q] := by
    intro i hi
    cases mem_schedActs hi with
    | @create args use _ hp =>
        simp only [schedActs, createActs] at hi ⊢
        split at hi
        · cases hi
        · next hno => rw [if_neg hno, hp]; rfl
  cases a with
  | exec =>
      simp only [Machine.stepActs] at h ⊢
      split at h
      · cases h
      · next i _ =>
        exact hinstr i h
  | tick =>
      obtain ⟨e, he, p, hwake, hp, hf⟩ := mem_sleeperActs h
      cases hf
  | _ => cases h

/-- **Step.** Placement is kept, where no process object is made over one in a ready queue. -/
theorem Placed.step {m m' : Machine} {a : Action} (h : Placed m.k)
    (hfresh : ∀ q, .fresh q ∈ m.stepActs a → ¬ Queued m.k q) (hs : m.step a = some m') : Placed m'.k := by
  have hplaced : Placed (m.prepared a) :=
    (m.prepared_acts a).placed_of_fresh h fun q hq => ⟨fresh_alone hq, hfresh q hq⟩
  cases Machine.step_cases hs with
  | stays _ hk _ => exact hk ▸ hplaced
  | switched _ hk _ => exact hk ▸ scheduleTick_placed hplaced m.cpu

/-- The process is not over an entry of its own ready queue. -/
def offQueue (k : Kernel) : SchedAct → Bool
  | .fresh q => decide (k.idle ≠ some q) && decide (q ∉ entries k (priorityIndex (k.proc q).priority))
  | _ => true

theorem Placed.not_queued_of_offQueue {k : Kernel} (h : Placed k) {q : Addr}
    (hoff : offQueue k (.fresh q) = true) : ¬ Queued k q := by
  simp only [offQueue, Bool.and_eq_true, decide_eq_true_eq] at hoff
  rintro ⟨level, hentry⟩
  obtain ⟨-, rfl⟩ := h.entry level q hentry hoff.1
  exact hoff.2 hentry

/-- **Run.** -/
theorem placed_of_run {memAnswers : Nat → Option Addr} {as : List Action} {m : Machine}
    (h : GuardedRun Machine.step (fun m a => (m.stepActs a).all (offQueue m.k)) (Boot.machine memAnswers) as m) :
    Placed m.k :=
  h.invariant (fun m => Placed m.k) (fun _ _ _ hpl hg hs =>
    hpl.step (fun _ hq => hpl.not_queued_of_offQueue (List.all_eq_true.mp hg _ hq)) hs)
    (SchedInv.boot memAnswers).placed

/-- A stack is prepared for a process object that the same step has made. -/
theorem fresh_of_spawns {m : Machine} {a : Action} {t : Addr} (h : m.Spawns a t) :
    .fresh t ∈ m.stepActs a := by
  obtain ⟨i, ⟨rfl, hn⟩, hsp⟩ := h
  simp only [Machine.stepActs, hn]
  unfold Outcome.spawned at hsp
  obtain ⟨⟨p, code⟩, hspawn, hpt⟩ := Option.map_eq_some_iff.mp hsp
  cases hpt
  obtain ⟨-, args, use, rfl⟩ := exec_spawn hspawn
  simp only [exec, createProcessCode] at hspawn
  simp only [schedActs, createActs]
  split at hspawn
  · cases hspawn
  · next he =>
    split at hspawn
    · cases hspawn
    · next hpid =>
      rw [if_neg (by tauto)]
      split at hspawn
      · cases hspawn
      · next q k' hq =>
        rw [hq]
        split at hspawn <;> cases hspawn
        exact List.mem_singleton.mpr rfl

/-- **Step lemma.** -/
theorem Sane.step {m m' : Machine} {a : Action} (h : Sane m) (hs : m.step a = some m')
    (hidle : ∀ act ∈ m.stepActs a, act.Spares Boot.idle)
    (hfresh : ∀ q, .fresh q ∈ m.stepActs a → ¬ Queued m.k q) : Sane m' := by
  have hacts := m.prepared_acts a
  have hl := hacts.lossless h.lossless
  have hpl := hacts.placed_of_fresh h.placed fun q hq => ⟨fresh_alone hq, hfresh q hq⟩
  have hout := hacts.idle_not_queued h.owners.idle hidle h.idle
  cases Machine.step_cases hs with
  | stays _ hk _ =>
      refine ⟨?_, ?_, ?_, h.owners.step hs⟩ <;> rw [hk]
      · exact hl
      · exact hpl
      · exact hout
  | switched _ hk _ =>
      refine ⟨?_, ?_, ?_, h.owners.step hs⟩ <;> rw [hk]
      · exact scheduleTick_lossless hl m.cpu
      · exact scheduleTick_placed hpl m.cpu
      · have hi : (m.prepared a).idle = some Boot.idle := hacts.idle.trans h.owners.idle
        intro hq
        have hleft : ¬ (Queued (m.prepared a) Boot.idle ∨ (m.prepared a).current = some Boot.idle ∧
            (m.prepared a).idle ≠ some Boot.idle ∧ ((m.prepared a).proc Boot.idle).state = .running) :=
          fun h => h.elim hout fun h => h.2.1 hi
        cases scheduleTick_cases (m.prepared a) m.cpu with
        | keep _ _ _ _ _ _ queued => exact hout (queued _ hq)
        | dispatch _ _ _ _ _ _ _ _ queued => exact hleft (queued _ hq)
        | idle _ _ _ _ _ _ _ queued => exact hleft (queued _ hq)
        | nobody _ _ _ _ _ queued => exact hleft (queued _ hq)

end TpSo
