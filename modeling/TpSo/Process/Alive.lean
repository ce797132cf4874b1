import TpSo.Machine.Spared
import TpSo.Machine.Table
import TpSo.Process.ReapCode
import TpSo.Sem.KernelSems
import TpSo.Sem.TokenSafety

set_option autoImplicit false

/-! # Processes that have not ended

As long as a process is not `TERMINATED` nobody has posted on its exit semaphore, its object is in the
hands of at most one instruction, and every reap of it still has a `sem_wait` before it. This holds
along every run whose steps leave the exits alone, and so no reap comes to a process too early. -/

namespace TpSo

namespace Machine

/-- The kernel still knows the process: it is in the process table or in a ready queue, or code that is
    to be executed names it. -/
def Knows (m : Machine) (p : Addr) : Prop :=
  Registered m.k p ∨ Queued m.k p ∨ ∃ t, ∃ i ∈ m.code t, i.concerns p = true

end Machine

/-! ## The condition -/

/-- The step lets a reap past the exit semaphore only after the post of `process_exit`, and gives away
    no memory of a process that the kernel knows. -/
structure LeavesExits (m : Machine) (a : Action) : Prop where
  waits : HonoursWaits m a
  /-- A `sem_wait` on an exit semaphore without a token is called by a current process. -/
  called : ∀ s p, m.Executes a (.semWaitLocked s) → (m.k.proc p).exitSem = some s → (m.k.sem s).count = 0 →
    m.k.current ≠ none
  /-- As long as a process has not ended, only its `process_exit` posts on its exit semaphore. -/
  posted : ∀ s p, m.Executes a (.semPostLocked s) → (m.k.proc p).exitSem = some s →
    p = Boot.idle ∨ (m.k.proc p).state = .terminated
  /-- A semaphore is not initialised where a process still has its exit semaphore. -/
  renewed : ∀ s p, m.Inits a s → (m.k.proc p).exitSem ≠ some s
  /-- A process object is made only where the kernel knows no process. -/
  rebuilt : ∀ p, .fresh p ∈ m.stepActs a → ¬ m.Knows p
  /-- A process the kernel knows stays `TERMINATED`: it is neither blocked nor made ready. -/
  ended : ∀ p, p ≠ Boot.idle → m.Knows p → (m.k.proc p).state = .terminated →
    .block p ∉ m.stepActs a ∧ .ready p ∉ m.stepActs a
  /-- Nobody reaps the process whose stack the processor is on, or idle. -/
  reaped : ∀ p, m.Executes a (.reapChildProcess p) → m.cpu ≠ p ∧ p ≠ Boot.idle

/-! ## What is true of a process that has not ended -/

/-- The exit semaphore of `p` is as `createProcess` left it. -/
structure Unposted (start : Addr → Nat) (m : Machine) (p s : Addr) : Prop where
  exitSem : (m.k.proc p).exitSem = some s
  only : ∀ q, (m.k.proc q).exitSem = some s → q = p
  initial : initialCount s (start s) m.log = 0
  posts : postCalls s m.log = 0

/-- The instructions on a stack that have the object of `p` in their hands. -/
abbrev Machine.hands (m : Machine) (p t : Addr) : Nat := (m.code t).countP (Instr.handles p)

theorem Machine.hands_pos {m : Machine} {p t : Addr} :
    0 < m.hands p t ↔ ∃ i ∈ m.code t, i.handles p = true := List.countP_pos_iff

/-- The hands an object is in after an instruction. -/
theorem Machine.execInstr_hands {m : Machine} {i : Instr} (hi : i ≠ .int20) (hn : m.next = some i)
    (p t : Addr) :
    (t = m.cpu → (m.execInstr i).hands p t + (if i.handles p then 1 else 0) ≤
      (exec m.k m.thread.regs i).code.countP (Instr.handles p) + m.hands p t) ∧
    (t ≠ m.cpu → (m.execInstr i).hands p t ≤ m.hands p t) := by
  obtain ⟨rest, hcode, hrest⟩ := Machine.code_of_next hn
  have hentry : entryCode.countP (Instr.handles p) = 0 := rfl
  unfold Machine.hands
  rw [Machine.execInstr_code hi hrest]
  refine ⟨fun ht => ?_, fun ht => ?_⟩
  · subst ht
    rw [if_pos rfl, hcode, List.countP_cons]
    split
    · omega
    · rw [List.countP_append]
      omega
  · rw [if_neg ht]
    split
    · rw [hentry]
      exact Nat.zero_le _
    · exact Nat.le_refl _

structure Alive (start : Addr → Nat) (m : Machine) (p : Addr) : Prop where
  unmourned : ∀ t, ∀ i ∈ m.code t, i.mourns p = false
  once : ∀ t, m.hands p t ≤ 1
  alone : ∀ t t', t ≠ t' → m.hands p t = 0 ∨ m.hands p t' = 0
  unknown : ∀ t, ∀ i ∈ m.code t, i.handles p = true →
    ¬ Registered m.k p ∧ ∀ t', ∀ j ∈ m.code t', j.reaps p = false
  failed : ∀ t front i back, m.code t = front ++ i :: back → i.discards p = true →
    ∃ use rest, back = .createFailed use :: rest
  unposted : (Registered m.k p ∨ ∃ t, ∃ i ∈ m.code t, i.makes p = true ∨ i.reaps p = true) →
    ∃ s, Unposted start m p s
  awaited : ∀ t front back, m.code t = front ++ .reapUnregister p :: back →
    ∃ s, (m.k.proc p).exitSem = some s ∧ ∃ j ∈ front, j.awaits s = true

/-- A process the kernel does not know has not ended, as far as it goes. -/
theorem Alive.of_unknown {start : Addr → Nat} {m : Machine} {p : Addr} (h : ¬ m.Knows p) :
    Alive start m p := by
  have hreg : ¬ Registered m.k p := fun hr => h (.inl hr)
  have hcode : ∀ t, ∀ i ∈ m.code t, i.handles p = false ∧ i.reaps p = false ∧ i.mourns p = false := by
    intro t i hi
    have hno : i.concerns p = false := by
      rw [← Bool.not_eq_true]
      exact fun hc => h (.inr (.inr ⟨t, i, hi, hc⟩))
    simpa [Instr.concerns, and_assoc] using hno
  have hzero : ∀ t, m.hands p t = 0 := fun t => List.countP_eq_zero.mpr fun i hi => by
    simp [(hcode t i hi).1]
  refine ⟨fun t i hi => (hcode t i hi).2.2, fun t => by simp [hzero], fun t _ _ => .inl (hzero t),
    fun t i hi hh => ?_, fun t front i back hf hh => ?_, fun hreg' => ?_, fun t front back hf => ?_⟩
  · rw [(hcode t i hi).1] at hh
    cases hh
  · have hno := (hcode t i (hf ▸ by simp)).1
    simp [Instr.handles, hh] at hno
  · rcases hreg' with hr | ⟨t, i, hi, hm | hr⟩
    · exact absurd hr hreg
    · have hno := (hcode t i hi).1
      simp [Instr.handles, hm] at hno
    · rw [(hcode t i hi).2.1] at hr
      cases hr
  · have hno := (hcode t (.reapUnregister p) (hf ▸ by simp)).2.1
    simp [Instr.reaps] at hno

/-! ## The exit semaphore -/

section Exec
variable {start : Addr → Nat} {m : Machine} {p s : Addr} {i : Instr}

/-- The exit semaphore stays with its process until the object is freed or made anew. -/
theorem exec_exitSem_eq {k : Kernel} (r : Regs) (hfresh : .fresh p ∉ schedActs k i)
    (hfree : i ≠ .processFreeRest p) : ((exec k r i).k.proc p).exitSem = (k.proc p).exitSem := by
  by_cases hcreate : ∃ args use, i = .createProcess args use
  · obtain ⟨args, use, rfl⟩ := hcreate
    change ((createProcessCode k r args use).k.proc p).exitSem = _
    change _ ∉ createActs k args at hfresh
    cases createProcess_case k r args use with
    | refused _ _ _ proc _ => rw [proc]
    | failed q acts _ _ proc _ =>
        rw [proc p]
        rintro rfl
        exact hfresh (by simp [acts])
    | built q s c targets _ acts _ _ _ proc _ _ _ =>
        rw [proc p]
        rintro rfl
        exact hfresh (by simp [acts])
  · by_cases hrest : ∃ q, i = .processFreeRest q
    · obtain ⟨q, rfl⟩ := hrest
      have hpq : p ≠ q := by
        rintro rfl
        exact hfree rfl
      change ((freeExitSemAndProcess k q).proc p).exitSem = _
      rw [(freeExitSemAndProcess_frees k q).other p hpq]
    · exact exec_sameExitSems k r (fun args use h => hcreate ⟨args, use, h⟩) (fun q h => hrest ⟨q, h⟩) p

/-- An exit semaphore that was not there before has just been initialised. -/
theorem exec_exitSem_new {k : Kernel} {r : Regs} {q : Addr}
    (h : ((exec k r i).k.proc q).exitSem = some s) : (k.proc q).exitSem = some s ∨
      ∃ e ∈ (exec k r i).events, e.inits s ≠ none := by
  by_cases hcreate : ∃ args use, i = .createProcess args use
  · obtain ⟨args, use, rfl⟩ := hcreate
    change ((createProcessCode k r args use).k.proc q).exitSem = some s at h
    change _ ∨ ∃ e ∈ (createProcessCode k r args use).events, e.inits s ≠ none
    cases createProcess_case k r args use with
    | refused _ _ _ proc _ => exact .inl (by rwa [proc] at h)
    | failed p _ _ _ proc events =>
        by_cases hq : q = p
        · subst hq
          exact .inr ⟨_, by rw [events, h]; exact List.mem_singleton_self _, by simp [initEvent, Event.inits]⟩
        · exact .inl (by rwa [proc q hq] at h)
    | built p t c targets _ _ _ _ _ proc exitSem _ events =>
        by_cases hq : q = p
        · subst hq
          cases exitSem.symm.trans h
          exact .inr ⟨_, by rw [events]; exact List.mem_singleton_self _, by simp [initEvent, Event.inits]⟩
        · exact .inl (by rwa [proc q hq] at h)
  · exact .inl (exec_keepsExitSems k r (fun args use h => hcreate ⟨args, use, h⟩) q s h)

/-- **Nobody posts** on the exit semaphore of a process whose end is not being executed. -/
theorem Unposted.exec (h : Unposted start m p s) (hg : LeavesExits m .exec) (hn : m.next = some i)
    (hi : i ≠ .int20) (hfresh : .fresh p ∉ schedActs m.k i) (hfree : i ≠ .processFreeRest p)
    (hpost : i ≠ .exitSemPost p) (hposted : i ≠ .semPostLocked s) :
    Unposted start (m.execInstr i) p s := by
  have hinits : ∀ e ∈ (TpSo.exec m.k m.thread.regs i).events, e.inits s = none := by
    intro e he
    by_contra hne
    exact hg.renewed s p ⟨i, ⟨rfl, hn⟩, e, he, hne⟩ h.exitSem
  have hposts : (TpSo.exec m.k m.thread.regs i).events.countP (Event.postsTo s) = 0 := by
    refine List.countP_eq_zero.mpr fun e he => ?_
    cases exec_books m.k m.thread.regs i s with
    | still _ events _ => simp [(events e he).2.2]
    | took _ _ events _ => simp [events] at he
    | waits _ _ _ _ _ events _ => simp [events] at he
    | returned _ _ events _ =>
        rw [events, List.mem_singleton] at he
        simp [he, Event.postsTo]
    | posted instr _ _ _ =>
        rcases instr with rfl | ⟨q, rfl, hq⟩
        · exact absurd rfl hposted
        · exact absurd (by rw [h.only q hq]) hpost
    | inited _ _ _ quiet => simp [(quiet e he).2]
    | stored _ _ _ events _ => simp [(events e he).2.2]
  refine ⟨?_, fun q hq => ?_, ?_, ?_⟩
  · rw [m.execInstr_k hi, exec_exitSem_eq _ hfresh hfree]
    exact h.exitSem
  · rw [m.execInstr_k hi] at hq
    rcases exec_exitSem_new hq with hq | ⟨e, he, hne⟩
    · exact h.only q hq
    · exact absurd (hinits e he) hne
  · rw [m.execInstr_log, initialCount_append _ _ hinits]
    exact h.initial
  · rw [m.execInstr_log, postCalls_append _ hinits, hposts, h.posts]

/-- Nobody has posted on a new exit semaphore. -/
theorem Unposted.of_created {args : CreateArgs} {use : CreateUse} (hg : LeavesExits m .exec)
    (hn : m.next = some (.createProcess args use))
    (hproc : ∀ q, q ≠ p → (createProcessCode m.k m.thread.regs args use).k.proc q = m.k.proc q)
    (hexit : ((createProcessCode m.k m.thread.regs args use).k.proc p).exitSem = some s)
    (hcount : ((createProcessCode m.k m.thread.regs args use).k.sem s).count = 0)
    (hevents : (createProcessCode m.k m.thread.regs args use).events =
      [initEvent (createProcessCode m.k m.thread.regs args use).k s]) :
    Unposted start (m.execInstr (.createProcess args use)) p s := by
  have hinits : m.Inits .exec s := by
    refine ⟨_, ⟨rfl, hn⟩, initEvent (createProcessCode m.k m.thread.regs args use).k s, ?_, ?_⟩
    · show _ ∈ (createProcessCode m.k m.thread.regs args use).events
      rw [hevents]
      exact List.mem_singleton_self _
    · simp [initEvent, Event.inits]
  have hinit : ∃ e ∈ (createProcessCode m.k m.thread.regs args use).events, e.inits s ≠ none :=
    ⟨_, by rw [hevents]; exact List.mem_singleton_self _, by simp [initEvent, Event.inits]⟩
  have hzero : ∀ e ∈ (createProcessCode m.k m.thread.regs args use).events, ∀ n, e.inits s = some n → n = 0 := by
    rw [hevents]
    simp [initEvent, Event.inits, hcount]
  obtain ⟨-, hposts, hinitial⟩ := books_inited (start s) m.log hinit hzero
    (by rw [hevents]; simp [initEvent, Event.returnsTo, Event.postsTo])
  refine ⟨?_, fun q hq => ?_, ?_, ?_⟩
  · rw [m.execInstr_k (by simp)]
    exact hexit
  · rw [m.execInstr_k (by simp)] at hq
    by_contra hne
    exact hg.renewed s q hinits (hproc q hne ▸ hq)
  · rw [m.execInstr_log]
    exact hinitial
  · rw [m.execInstr_log]
    exact hposts

/-- No `sem_wait` on it has returned 0. -/
theorem Unposted.not_returned (h : Unposted start m p s) {waits : Addr → Option Addr}
    {given : List (Addr × Addr)} {log : List Event} (hlog : m.log = .semReturned s 0 :: log) :
    ¬ Ledger start m waits given := by
  intro hledger
  have htok := hledger.tokens s
  rw [h.initial, h.posts, hlog, show (.semReturned s 0 :: log : List Event) = [.semReturned s 0] ++ log from rfl,
    waitReturns_append _ (by simp [Event.inits])] at htok
  simp [Event.returnsTo] at htok

end Exec

/-! ## A stretch of code -/

namespace Alive
variable {start : Addr → Nat} {m : Machine} {p : Addr} {i : Instr}

/-- The instruction of a stack that has the object in its hands is the only one. -/
theorem hands_unique (h : Alive start m p) {t t' : Addr} {j j' : Instr} (hj : j ∈ m.code t)
    (hj' : j' ∈ m.code t') (hp : j.handles p = true) (hp' : j'.handles p = true) : t = t' ∧ j = j' := by
  have hpos : ∀ {t j}, j ∈ m.code t → j.handles p = true → m.hands p t ≠ 0 := fun hj hp =>
    (Machine.hands_pos.mpr ⟨_, hj, hp⟩).ne'
  have ht : t = t' := by
    by_contra hne
    exact (h.alone t t' hne).elim (hpos hj hp) (hpos hj' hp')
  subst ht
  refine ⟨rfl, ?_⟩
  obtain ⟨x, hx⟩ := List.length_eq_one_iff.mp
    (List.countP_eq_length_filter.symm.trans (Nat.le_antisymm (h.once t) (Nat.pos_of_ne_zero (hpos hj hp))))
  have hmem : ∀ {j}, j ∈ m.code t → j.handles p = true → j = x := fun hj hp =>
    List.mem_singleton.mp (hx ▸ List.mem_filter.mpr ⟨hj, hp⟩)
  exact (hmem hj hp).trans (hmem hj' hp').symm

theorem alone_mono (h : Alive start m p) {m' : Machine} (hle : ∀ t, m'.hands p t ≤ m.hands p t) {t t' : Addr}
    (ht : t ≠ t') : m'.hands p t = 0 ∨ m'.hands p t' = 0 :=
  (h.alone t t' ht).imp (fun h0 => Nat.le_zero.mp (Nat.le_trans (hle t) (Nat.le_of_eq h0)))
    fun h0 => Nat.le_zero.mp (Nat.le_trans (hle t') (Nat.le_of_eq h0))

/-- A process in somebody's hands is neither registered nor reaped, and one that is freed is not in the
    hands of its creation. -/
theorem not_freed (h : Alive start m p) {t : Addr} (hj : i ∈ m.code t) (hf : i.discards p = true) :
    ¬ (Registered m.k p ∨ ∃ t, ∃ i ∈ m.code t, i.makes p = true ∨ i.reaps p = true) := by
  have hp : i.handles p = true := by simp [Instr.handles, hf]
  obtain ⟨hreg, hreaps⟩ := h.unknown t i hj hp
  rintro (hr | ⟨t', j, hj', hm | hr⟩)
  · exact hreg hr
  · obtain ⟨-, rfl⟩ := h.hands_unique hj hj' hp (by simp [Instr.handles, hm])
    cases i <;> first | cases hm | cases hf
  · rw [hreaps t' j hj'] at hr
    cases hr

/-- A reap that goes on still has its `sem_wait` before it. -/
theorem not_unregistered (h : Alive start m p) (hn : m.next = some i) : i ≠ .reapUnregister p := by
  rintro rfl
  obtain ⟨rest, hcode, -⟩ := Machine.code_of_next hn
  obtain ⟨s, -, j, hj, -⟩ := h.awaited m.cpu [] rest hcode
  cases hj

/-- The object is in no more hands than before. -/
theorem exec_hands (h : Alive start m p) (hn : m.next = some i) (hi : i ≠ .int20)
    (hfresh : .fresh p ∉ schedActs m.k i) (t : Addr) : (m.execInstr i).hands p t ≤ m.hands p t := by
  have hnew := exec_handles (r := m.thread.regs) hfresh (h.not_unregistered hn)
  obtain ⟨hself, hother⟩ := Machine.execInstr_hands hi hn p t
  by_cases ht : t = m.cpu
  · have hle := hself ht
    omega
  · exact hother ht

/-- A reap begins with the `sem_wait` on the exit semaphore. -/
theorem exec_awaited (h : Alive start m p) (hn : m.next = some i) {m' : Machine} {front back : List Instr}
    (hkept : ∀ {s}, (Registered m.k p ∨ ∃ t, ∃ i ∈ m.code t, i.makes p = true ∨ i.reaps p = true) →
      Unposted start m p s → Unposted start m' p s)
    (hnew : (TpSo.exec m.k m.thread.regs i).code = front ++ .reapUnregister p :: back) :
    ∃ s, (m'.k.proc p).exitSem = some s ∧ ∃ j ∈ front, j.awaits s = true := by
  obtain ⟨rest, hcode, -⟩ := Machine.code_of_next hn
  have hcomes := exec_comesTo m.k m.thread.regs i (.reapUnregister p) (hnew ▸ by simp)
  cases i <;> try cases hcomes
  case reapChildProcess q =>
      have hq : q = p := by
        have hmem : Instr.reapUnregister p ∈ (TpSo.exec m.k m.thread.regs (.reapChildProcess q)).code :=
          hnew ▸ by simp
        simp only [TpSo.exec, onSem] at hmem
        split at hmem <;> simp_all
      subst hq
      have hknown : Registered m.k q ∨ ∃ t, ∃ i ∈ m.code t, i.makes q = true ∨ i.reaps q = true :=
        .inr ⟨m.cpu, _, hcode ▸ List.mem_cons_self, .inr (by simp [Instr.reaps])⟩
      obtain ⟨s, hs⟩ := h.unposted hknown
      refine ⟨s, (hkept hknown hs).exitSem, .semWait s, ?_, by simp [Instr.awaits]⟩
      simp only [TpSo.exec, onSem, hs.exitSem] at hnew
      cases front with
      | nil => simp at hnew
      | cons x front =>
          obtain ⟨rfl, -⟩ := List.cons.inj hnew
          exact List.mem_cons_self

section Exec
variable (h : Alive start m p) (hn : m.next = some i) (hi : i ≠ .int20) (hfresh : .fresh p ∉ schedActs m.k i)
  (hlive : ((exec m.k m.thread.regs i).k.proc p).state ≠ .terminated)
include hfresh hlive

/-- An instruction that leaves the process alive does not find it `TERMINATED`. -/
theorem not_terminated (hb : .block p ∉ schedActs m.k i) (hr : .ready p ∉ schedActs m.k i) :
    (m.k.proc p).state ≠ .terminated :=
  fun ht => hlive ((exec_acts m.k m.thread.regs i).terminated ht hb hr hfresh)

include h hn

theorem exec_unmourned : ∀ j ∈ (exec m.k m.thread.regs i).code, j.mourns p = false := by
  intro j hj
  by_contra hm
  rcases exec_mourns hj (by simpa using hm) with hi | rfl | ⟨hacts, ht⟩
  · obtain ⟨rest, hcode, -⟩ := Machine.code_of_next hn
    rw [h.unmourned m.cpu i (hcode ▸ List.mem_cons_self)] at hi
    cases hi
  · have hexit : (SchedAct.exit p).Step m.k (exec m.k m.thread.regs (.processExit p)).k := rfl
    refine hlive ?_
    rw [show (exec m.k m.thread.regs (.processExit p)).k = _ from hexit,
      (exitFirstHalf_between m.k p).state p, stateBut, if_pos rfl]
  · exact not_terminated hfresh hlive (by simp [hacts]) (by simp [hacts]) ht

/-- A reap of the process is begun when it is registered. -/
theorem exec_reaped {j : Instr} (hj : j ∈ (exec m.k m.thread.regs i).code) (hp : j.reaps p = true) :
    i.reaps p = true ∨ Registered m.k p := by
  rcases exec_reaps hj hp with hi | hm | hreg | ⟨hacts, ht⟩
  · exact .inl hi
  · obtain ⟨rest, hcode, -⟩ := Machine.code_of_next hn
    rw [h.unmourned m.cpu i (hcode ▸ List.mem_cons_self)] at hm
    cases hm
  · exact .inr hreg
  · exact absurd ht (not_terminated hfresh hlive (by simp [hacts]) (by simp [hacts]))

/-- Nobody posts on the exit semaphore. -/
theorem exec_unposted (hg : LeavesExits m .exec) (hp : p ≠ Boot.idle) {s : Addr}
    (hs : (m.k.proc p).exitSem = some s) : i ≠ .semPostLocked s ∧ i ≠ .exitSemPost p := by
  refine ⟨?_, ?_⟩
  · rintro rfl
    have ht := (hg.posted s p ⟨rfl, hn⟩ hs).resolve_left hp
    refine not_terminated hfresh hlive (fun hb => ?_) (fun hr => ?_) ht
    · cases mem_schedActs hb
    · cases mem_schedActs hr
  · rintro rfl
    obtain ⟨rest, hcode, -⟩ := Machine.code_of_next hn
    have hno := h.unmourned m.cpu _ (hcode ▸ List.mem_cons_self)
    simp [Instr.mourns] at hno

/-- What the process is known for was so before. -/
theorem exec_known (hi : i ≠ .int20) (hk : Registered (m.execInstr i).k p ∨
      ∃ t, ∃ j ∈ (m.execInstr i).code t, j.makes p = true ∨ j.reaps p = true) :
    Registered m.k p ∨ ∃ t, ∃ j ∈ m.code t, j.makes p = true ∨ j.reaps p = true := by
  obtain ⟨rest, hcode, -⟩ := Machine.code_of_next hn
  have hself : i ∈ m.code m.cpu := hcode ▸ List.mem_cons_self
  rcases hk with ⟨pid, hreg⟩ | ⟨t, j, hj, hp⟩
  · rw [m.execInstr_k hi] at hreg
    rcases exec_lookup hreg with hold | ⟨c, attached, rfl, -, rfl, -⟩
    · exact .inl ⟨pid, hold⟩
    · exact .inr ⟨m.cpu, _, hself, .inl (by simp [Instr.makes])⟩
  · have hentry : j ≠ .entryWrapper := by
      rintro rfl
      rcases hp with hp | hp <;> cases hp
    rcases Machine.mem_execInstr hi hn hentry hj with hnew | hold
    · rcases hp with hm | hr
      · exact (exec_makes hnew hm).elim (fun hm => .inr ⟨m.cpu, i, hself, .inl hm⟩)
          fun hf => absurd hf hfresh
      · exact (exec_reaped h hn hfresh hlive hnew hr).elim (fun hr => .inr ⟨m.cpu, i, hself, .inr hr⟩) .inl
    · exact .inr ⟨t, j, hold, hp⟩

/-- In whose hands it is, it is neither registered nor reaped. -/
theorem exec_unknown (hi : i ≠ .int20) {t : Addr} {j : Instr} (hj : j ∈ (m.execInstr i).code t)
    (hp : j.handles p = true) : ¬ Registered (m.execInstr i).k p ∧
      ∀ t', ∀ x ∈ (m.execInstr i).code t', x.reaps p = false := by
  obtain ⟨rest, hcode, -⟩ := Machine.code_of_next hn
  have hself : i ∈ m.code m.cpu := hcode ▸ List.mem_cons_self
  have hpos : 0 < (m.execInstr i).hands p t := Machine.hands_pos.mpr ⟨j, hj, hp⟩
  obtain ⟨x, hx, hxp⟩ := Machine.hands_pos.mp (Nat.lt_of_lt_of_le hpos (h.exec_hands hn hi hfresh t))
  obtain ⟨hreg, hreaps⟩ := h.unknown t x hx hxp
  refine ⟨?_, fun t' y hy => ?_⟩
  · rintro ⟨pid, hnow⟩
    rw [m.execInstr_k hi] at hnow
    rcases exec_lookup hnow with hold | ⟨c, attached, rfl, hok, rfl, -⟩
    · exact hreg ⟨pid, hold⟩
    · -- the creation that ends well had the object alone, and leaves it to nobody
      have hentry : j ≠ .entryWrapper := by
        rintro rfl
        cases hp
      have hmine : (Instr.createRegister c attached).handles c.process = true := by
        simp [Instr.handles, Instr.makes]
      obtain ⟨front, back, hsplit⟩ := List.append_of_mem hj
      rcases Machine.execInstr_split hi hn hentry hsplit with ⟨-, mid, -, -, hnew, -⟩ | ⟨ht, mid, hold, -⟩ | ⟨ht, hold⟩
      · rw [createRegister_goesOn hok] at hnew
        have hlast : j ∈ [Instr.createForeground c] := hnew ▸ by simp
        cases List.mem_singleton.mp hlast
        cases hp
      · have honce := h.once t
        unfold Machine.hands at honce
        rw [hold] at honce
        simp [List.countP_append, hmine, hp] at honce
      · exact ht (h.hands_unique (hold ▸ by simp) hself hp hmine).1
  · by_contra hr
    have hentry : y ≠ .entryWrapper := by
      rintro rfl
      exact hr rfl
    rcases Machine.mem_execInstr hi hn hentry hy with hnew | hold
    · rcases exec_reaped h hn hfresh hlive hnew (by simpa using hr) with hir | hreg'
      · rw [hreaps m.cpu i hself] at hir
        cases hir
      · exact hreg hreg'
    · exact hr (hreaps t' y hold)

/-- **Execution** of a stretch of code that does not end the process. -/
theorem exec (hi : i ≠ .int20) (hg : LeavesExits m .exec) (hp : p ≠ Boot.idle) {waits : Addr → Option Addr}
    {given : List (Addr × Addr)} (hledger : Ledger start (m.execInstr i) waits given) :
    Alive start (m.execInstr i) p := by
  obtain ⟨rest, hcode, -⟩ := Machine.code_of_next hn
  have hself : i ∈ m.code m.cpu := hcode ▸ List.mem_cons_self
  have hhands := h.exec_hands hn hi hfresh
  -- the exit semaphore stays as it is until the process is freed
  have hkept : ∀ {s}, (Registered m.k p ∨ ∃ t, ∃ i ∈ m.code t, i.makes p = true ∨ i.reaps p = true) →
      Unposted start m p s → Unposted start (m.execInstr i) p s := by
    intro s hknown hs
    obtain ⟨hposted, hpost⟩ := exec_unposted h hn hfresh hlive hg hp hs.exitSem
    refine hs.exec hg hn hi hfresh ?_ hpost hposted
    rintro rfl
    exact h.not_freed hself (by simp [Instr.discards]) hknown
  refine ⟨fun t j hj => ?_, fun t => (hhands t).trans (h.once t), fun t t' ht => ?_, fun t j hj hh => ?_,
    fun t front j back hf hh => ?_, fun hk => ?_, fun t front back hf => ?_⟩
  · by_cases hentry : j = .entryWrapper
    · rw [hentry]
      rfl
    · exact (Machine.mem_execInstr hi hn hentry hj).elim (exec_unmourned h hn hfresh hlive j) (h.unmourned t j)
  · exact h.alone_mono hhands ht
  · exact exec_unknown h hn hfresh hlive hi hj hh
  · have hentry : j ≠ .entryWrapper := by
      rintro rfl
      cases hh
    rcases Machine.execInstr_split hi hn hentry hf with
      ⟨-, mid, rest, hcode, hnew, rfl⟩ | ⟨-, mid, hold, -⟩ | ⟨-, hold⟩
    · rcases exec_discards hnew hh with ⟨use, rfl⟩ | ⟨rfl, rfl⟩ | ⟨rfl, -⟩
      · exact ⟨use, rest, rfl⟩
      · exact h.failed m.cpu [] _ rest hcode (by simp [Instr.discards])
      · exact absurd rfl (h.not_unregistered hn)
    · exact h.failed t (i :: mid) j back hold hh
    · exact h.failed t front j back hold hh
  · obtain ⟨s, hs⟩ := h.unposted (exec_known h hn hfresh hlive hi hk)
    exact ⟨s, hkept (exec_known h hn hfresh hlive hi hk) hs⟩
  · have hreaped : ∀ t front back, m.code t = front ++ .reapUnregister p :: back → ∀ s,
        (m.k.proc p).exitSem = some s → Unposted start (m.execInstr i) p s := by
      intro t front back hold s hs
      have hknown : Registered m.k p ∨ ∃ t, ∃ i ∈ m.code t, i.makes p = true ∨ i.reaps p = true :=
        .inr ⟨t, .reapUnregister p, hold ▸ by simp, .inr (by simp [Instr.reaps])⟩
      obtain ⟨s', hs'⟩ := h.unposted hknown
      cases hs.symm.trans hs'.exitSem
      exact hkept hknown hs'
    rcases Machine.execInstr_split hi hn (by simp) hf with
      ⟨-, mid, rest, -, hnew, -⟩ | ⟨ht, mid, hold, hfront⟩ | ⟨-, hold⟩
    · exact h.exec_awaited hn hkept hnew
    · obtain ⟨s, hs, j, hj, hwait⟩ := h.awaited t (i :: mid) back hold
      have hun := hreaped t _ back hold s hs
      refine ⟨s, hun.exitSem, ?_⟩
      rcases List.mem_cons.mp hj with rfl | hj
      · rcases exec_awaits (k := m.k) (r := m.thread.regs) hwait with ⟨j', hj', hwait'⟩ | rfl | ⟨rfl, hzero, hnone⟩
        · exact ⟨j', hfront ▸ List.mem_append_left _ hj', hwait'⟩
        · exact absurd hledger (hun.not_returned rfl)
        · exact absurd hnone (hg.called s p ⟨rfl, hn⟩ hs hzero)
      · exact ⟨j, hfront ▸ List.mem_append_right _ hj, hwait⟩
    · obtain ⟨s, hs, hwait⟩ := h.awaited t front back hold
      exact ⟨s, (hreaped t front back hold s hs).exitSem, hwait⟩

end Exec

/-! ## A new process object -/

section Fresh
variable {args : CreateArgs} {use : CreateUse} (hunknown : ¬ m.Knows p)
  (hn : m.next = some (.createProcess args use))
include hunknown

/-- No code on the stacks concerns a process the kernel does not know. -/
theorem concerns_of_unknown {t : Addr} {j : Instr} (hj : j ∈ m.code t) : j.concerns p = false := by
  rw [← Bool.not_eq_true]
  exact fun hc => hunknown (.inr (.inr ⟨t, j, hj, hc⟩))

theorem hands_of_unknown (t : Addr) : m.hands p t = 0 := by
  refine List.countP_eq_zero.mpr fun j hj => ?_
  have hno := concerns_of_unknown hunknown hj
  simp only [Instr.concerns, Bool.or_eq_false_iff] at hno
  simp [hno.1.1]

theorem created_unregistered : ¬ Registered (m.execInstr (.createProcess args use)).k p := by
  rintro ⟨pid, hnow⟩
  rw [m.execInstr_k (by simp)] at hnow
  rcases exec_lookup hnow with hold | ⟨c, attached, heq, -⟩
  · exact hunknown (.inl ⟨pid, hold⟩)
  · cases heq

include hn

/-- What concerns the process after `createProcess` is what `createProcess` has left to be executed. -/
theorem created_split {t : Addr} {front back : List Instr} {j : Instr}
    (hf : (m.execInstr (.createProcess args use)).code t = front ++ j :: back) (hj : j.concerns p = true) :
    ∃ mid rest, (createProcessCode m.k m.thread.regs args use).code = front ++ j :: mid ∧
      back = mid ++ rest := by
  have hentry : j ≠ .entryWrapper := by
    rintro rfl
    cases hj
  rcases Machine.execInstr_split (by simp) hn hentry hf with
    ⟨-, mid, rest, -, hnew, hback⟩ | ⟨-, mid, hold, -⟩ | ⟨-, hold⟩
  · exact ⟨mid, rest, hnew, hback⟩
  · exact absurd hj (by simp [concerns_of_unknown hunknown (t := t) (j := j) (hold ▸ by simp)])
  · exact absurd hj (by simp [concerns_of_unknown hunknown (t := t) (j := j) (hold ▸ by simp)])

theorem created_mem {t : Addr} {j : Instr} (hj : j ∈ (m.execInstr (.createProcess args use)).code t)
    (hc : j.concerns p = true) : j ∈ (createProcessCode m.k m.thread.regs args use).code := by
  obtain ⟨front, back, hf⟩ := List.append_of_mem hj
  obtain ⟨mid, rest, hnew, -⟩ := created_split hunknown hn hf hc
  exact hnew ▸ by simp

theorem created_hands (t : Addr) :
    (m.execInstr (.createProcess args use)).hands p t ≤ if t = m.cpu then 1 else 0 := by
  obtain ⟨hself, hother⟩ := Machine.execInstr_hands (by simp) hn p t
  have hnew := (createProcess_hands m.k m.thread.regs args use p).1
  rw [hands_of_unknown hunknown t] at hself hother
  split
  · next ht =>
    have hle : _ ≤ (createProcessCode m.k m.thread.regs args use).code.countP (Instr.handles p) + 0 :=
      Nat.le_trans (Nat.le_add_right _ _) (hself ht)
    omega
  · next ht => exact hother ht

end Fresh

/-- **A process that is made** has an exit semaphore of its own, and only its creation knows it. -/
theorem exec_fresh (hn : m.next = some i) (hfresh : .fresh p ∈ schedActs m.k i) (hg : LeavesExits m .exec) :
    Alive start (m.execInstr i) p := by
  have hunknown : ¬ m.Knows p := hg.rebuilt p (by simpa only [Machine.stepActs, hn] using hfresh)
  obtain ⟨args, use, rfl⟩ : ∃ args use, i = .createProcess args use := by
    cases mem_schedActs hfresh
    exact ⟨_, _, rfl⟩
  have hmem : ∀ t j, j ∈ (m.execInstr (.createProcess args use)).code t → j.concerns p = true →
      j ∈ (createProcessCode m.k m.thread.regs args use).code := fun t j => created_mem hunknown hn
  have hquiet := (createProcess_hands m.k m.thread.regs args use p).2
  have hhands := created_hands hunknown hn
  have hmade : ∀ j ∈ (createProcessCode m.k m.thread.regs args use).code, j.makes p = true →
      ∃ s, Unposted start (m.execInstr (.createProcess args use)) p s := by
    intro j hj hp
    change _ ∈ createActs m.k args at hfresh
    cases createProcess_case m.k m.thread.regs args use with
    | refused acts _ _ _ _ => exact absurd hfresh (by simp [acts])
    | failed q _ code _ _ _ =>
        rw [code] at hj
        simp only [List.mem_cons, List.not_mem_nil, or_false] at hj
        rcases hj with rfl | rfl <;> cases hp
    | built q s c targets _ acts _ _ _ proc exitSem count events =>
        have hq : p = q := by simpa [acts] using hfresh
        exact ⟨s, .of_created hg hn (hq ▸ proc) (hq ▸ exitSem) count events⟩
  refine ⟨fun t j hj => ?_, fun t => ?_, fun t t' ht => ?_,
    fun t j hj hp => ⟨created_unregistered hunknown, fun t' x hx => ?_⟩, fun t front j back hf hp => ?_,
    fun hk => ?_, fun t front back hf => ?_⟩
  · by_contra hm
    have hm : j.mourns p = true := by simpa using hm
    rw [(hquiet j (hmem t j hj (by simp [Instr.concerns, hm]))).1] at hm
    cases hm
  · exact (hhands t).trans (by split <;> omega)
  · by_cases hcpu : t = m.cpu
    · exact .inr (Nat.le_zero.mp ((hhands t').trans (by rw [if_neg fun h => ht (hcpu.trans h.symm)])))
    · exact .inl (Nat.le_zero.mp ((hhands t).trans (by rw [if_neg hcpu])))
  · by_contra hr
    have hr : x.reaps p = true := by simpa using hr
    rw [(hquiet x (hmem t' x hx (by simp [Instr.concerns, hr]))).2] at hr
    cases hr
  · obtain ⟨mid, rest, hnew, rfl⟩ := created_split hunknown hn hf (by simp [Instr.concerns, Instr.handles, hp])
    rcases exec_discards (i := .createProcess args use) hnew hp with ⟨use', rfl⟩ | ⟨heq, -⟩ | ⟨heq, -⟩
    · exact ⟨use', rest, rfl⟩
    · cases heq
    · cases heq
  · obtain ⟨t, j, hj, hp⟩ := hk.resolve_left (created_unregistered hunknown)
    have hnew := hmem t j hj (by rcases hp with hp | hp <;> simp [Instr.concerns, Instr.handles, hp])
    rcases hp with hm | hr
    · exact hmade j hnew hm
    · rw [(hquiet j hnew).2] at hr
      cases hr
  · have hr : (Instr.reapUnregister p).reaps p = true := by simp [Instr.reaps]
    rw [(hquiet _ (hmem t _ (hf ▸ by simp) (by simp [Instr.concerns, hr]))).2] at hr
    cases hr

end Alive

/-! ## Handlers and switches -/

/-- The handler an action enters concerns no process in these ways. -/
theorem entered_concerns {m : Machine} {a : Action} {p : Addr} :
    ∀ j ∈ m.entered a, j.concerns p = false := by
  intro j hj
  have hstarts := Machine.entered_starts j hj
  cases j <;> first | rfl | cases hstarts

/-- **Every other step** leaves exit semaphores, process table and trace alone. -/
theorem Machine.step_quiet {m m' : Machine} {a : Action} (hs : m.step a = some m')
    (ha : ∀ i, m.Executes a i → i = .int20) :
    SameExitSems m.k m'.k ∧ m'.k.processes = m.k.processes ∧ m'.log = m.log := by
  have hswitch : ∀ k rsp, SameExitSems k (scheduleTick k rsp).2 ∧ (scheduleTick k rsp).2.processes = k.processes :=
    fun k rsp => ⟨.of_outside (scheduleTick_outside k rsp), processes_of_outside (scheduleTick_outside k rsp)⟩
  cases a with
  | exec =>
      obtain ⟨i, hn, -, rfl⟩ := Machine.step_exec hs
      cases ha i ⟨rfl, hn⟩
      exact ⟨(hswitch _ _).1, (hswitch _ _).2, rfl⟩
  | tick =>
      obtain ⟨-, rfl⟩ := Machine.step_tick hs
      exact ⟨(timerHandler_exitSems m.k).trans (hswitch _ _).1,
        (hswitch _ _).2.trans (timerHandler_processes m.k), rfl⟩
  | syscall c =>
      obtain ⟨-, -, -, rfl⟩ := Machine.step_syscall hs
      exact ⟨.refl _, rfl, rfl⟩
  | ret =>
      obtain ⟨-, -, rfl⟩ := Machine.step_ret hs
      exact ⟨.refl _, rfl, rfl⟩
  | exception =>
      obtain ⟨-, -, rfl⟩ := Machine.step_exception hs
      exact ⟨.refl _, rfl, rfl⟩
  | key e =>
      obtain ⟨-, rfl⟩ := Machine.step_key hs
      exact ⟨.refl _, rfl, rfl⟩

/-- **Any other step** changes nothing that the process is known for. -/
theorem Alive.other {start : Addr → Nat} {m m' : Machine} {p : Addr} {a : Action} (h : Alive start m p)
    (hs : m.step a = some m') (ha : ∀ i, m.Executes a i → i = .int20) : Alive start m' p := by
  obtain ⟨hsems, htable, hlog⟩ := Machine.step_quiet hs ha
  have hcode := (Machine.step_other hs ha).2
  -- an instruction that concerns the process was at the same place of the stack, but for what is in front
  have hplace : ∀ t front j back, m'.code t = front ++ j :: back → j.concerns p = true →
      ∃ gone new mid, m.code t = gone ++ mid ++ j :: back ∧ front = new ++ mid ∧
        ∀ i ∈ gone, i = .int20 ∨ i = .user := by
    intro t front j back hf hj
    obtain ⟨gone, new, rest, hold, hnew, hgone, hentered⟩ := hcode t
    rcases append_split (hf.symm.trans hnew) with ⟨mid, hin, -⟩ | ⟨mid, hfront, hrest⟩
    · rw [entered_concerns j (hentered j (hin ▸ by simp))] at hj
      cases hj
    · exact ⟨gone, new, mid, by rw [hold, hrest, List.append_assoc], hfront, hgone⟩
  have hmem : ∀ t, ∀ j ∈ m'.code t, j.concerns p = true → j ∈ m.code t := by
    intro t j hj hc
    obtain ⟨front, back, hf⟩ := List.append_of_mem hj
    obtain ⟨gone, new, mid, hold, -⟩ := hplace t front j back hf hc
    exact hold ▸ by simp
  have hhands : ∀ t, m'.hands p t ≤ m.hands p t := by
    intro t
    obtain ⟨gone, new, rest, hold, hnew, -, hentered⟩ := hcode t
    have hzero : new.countP (Instr.handles p) = 0 := List.countP_eq_zero.mpr fun j hj => by
      have hno : j.concerns p = false := entered_concerns j (hentered j hj)
      simp only [Instr.concerns, Bool.or_eq_false_iff] at hno
      simp [hno.1.1]
    unfold Machine.hands
    rw [hold, hnew, List.countP_append, List.countP_append, hzero]
    omega
  have hreg : Registered m'.k p ↔ Registered m.k p := Registered.congr htable
  refine ⟨fun t j hj => ?_, fun t => (hhands t).trans (h.once t), fun t t' ht => ?_, fun t j hj hp => ?_,
    fun t front j back hf hp => ?_, fun hk => ?_, fun t front back hf => ?_⟩
  · by_contra hm
    have hm : j.mourns p = true := by simpa using hm
    rw [h.unmourned t j (hmem t j hj (by simp [Instr.concerns, hm]))] at hm
    cases hm
  · exact h.alone_mono hhands ht
  · obtain ⟨hno, hreaps⟩ := h.unknown t j (hmem t j hj (by simp [Instr.concerns, hp])) hp
    refine ⟨fun hr => hno (hreg.mp hr), fun t' x hx => ?_⟩
    by_contra hr
    have hr : x.reaps p = true := by simpa using hr
    rw [hreaps t' x (hmem t' x hx (by simp [Instr.concerns, hr]))] at hr
    cases hr
  · obtain ⟨gone, new, mid, hold, -⟩ := hplace t front j back hf (by simp [Instr.concerns, Instr.handles, hp])
    exact h.failed t _ j back hold hp
  · have hknown : Registered m.k p ∨ ∃ t, ∃ i ∈ m.code t, i.makes p = true ∨ i.reaps p = true := by
      refine hk.imp hreg.mp ?_
      rintro ⟨t, j, hj, hp⟩
      refine ⟨t, j, hmem t j hj ?_, hp⟩
      rcases hp with hp | hp <;> simp [Instr.concerns, Instr.handles, hp]
    obtain ⟨s, hs⟩ := h.unposted hknown
    refine ⟨s, (hsems p).trans hs.exitSem, fun q hq => hs.only q ((hsems q).symm.trans hq), ?_, ?_⟩
    · rw [hlog]
      exact hs.initial
    · rw [hlog]
      exact hs.posts
  · obtain ⟨gone, new, mid, hold, hfront, hgone⟩ := hplace t front _ back hf (by simp [Instr.concerns, Instr.reaps])
    obtain ⟨s, hs, j, hj, hwait⟩ := h.awaited t _ back hold
    refine ⟨s, (hsems p).trans hs, j, ?_, hwait⟩
    rcases List.mem_append.mp hj with hj | hj
    · rcases hgone j hj with rfl | rfl <;> cases hwait
    · exact hfront ▸ List.mem_append_right _ hj

end TpSo
