import TpSo.Machine.Terminated
import TpSo.Sem.Tokens

set_option autoImplicit false

/-! # Token safety

Every stretch of code keeps the ledger of tokens, so the `sem_wait` calls that have returned 0 never
exceed the initial count and the `sem_post` calls. -/

namespace TpSo

namespace Ledger

variable {start : Addr → Nat} {m m' : Machine} {waits : Addr → Option Addr} {given : List (Addr × Addr)}

/-! ## A stretch of code -/

section Exec
variable {i : Instr} {rest : List Instr}

/-- The inequality for a semaphore of which nothing happens but tokens lost. -/
theorem tokens_still (h : Ledger start m waits given) {s : Addr} {given' : List (Addr × Addr)}
    {o : Outcome} (hev : Unrelated s o.events) (hcount : (o.k.sem s).count ≤ (m.k.sem s).count)
    (hgiven : given'.countP (fun g => g.2 = s) ≤ given.countP (fun g => g.2 = s)) :
    waitReturns s (o.events ++ m.log) + given'.countP (fun g => g.2 = s) + (o.k.sem s).count ≤
      initialCount s (start s) (o.events ++ m.log) + postCalls s (o.events ++ m.log) := by
  have hinit : ∀ e ∈ o.events, e.inits s = none := fun e he => (hev e he).1
  have hret : o.events.countP (Event.returnsTo s) = 0 :=
    List.countP_eq_zero.mpr fun e he => by simp [(hev e he).2.1]
  have hpost : o.events.countP (Event.postsTo s) = 0 :=
    List.countP_eq_zero.mpr fun e he => by simp [(hev e he).2.2]
  rw [waitReturns_append _ hinit, postCalls_append _ hinit, initialCount_append _ _ hinit, hret, hpost]
  have htok := h.tokens s
  omega

/-- Another semaphore than the one an instruction is about. -/
theorem tokens_other (h : Ledger start m waits given) (hg : HonoursWaits m .exec) (hn : m.next = some i)
    {s : Addr} (given' : List (Addr × Addr))
    (hwait : i = .semWaitLocked s → m.k.current = none ∧ (m.k.sem s).count = 0)
    (hret : i ≠ .semWaitReturn s 0) (hpost : ¬ PostsOn m.k i s)
    (hgiven : given'.countP (fun g => g.2 = s) ≤ given.countP (fun g => g.2 = s))
    (hrenew : m.Inits .exec s → given'.countP (fun g => g.2 = s) = 0) :
    (exec m.k m.thread.regs i).code.countP (Instr.returnsTo s) = 0 ∧
    waitReturns s ((exec m.k m.thread.regs i).events ++ m.log) + given'.countP (fun g => g.2 = s) +
      ((exec m.k m.thread.regs i).k.sem s).count ≤
        initialCount s (start s) ((exec m.k m.thread.regs i).events ++ m.log) +
          postCalls s ((exec m.k m.thread.regs i).events ++ m.log) := by
  cases exec_books m.k m.thread.regs i s with
  | still code events count => exact ⟨code, h.tokens_still events count hgiven⟩
  | took instr _ _ count =>
      rw [(hwait instr).2] at count
      cases count
  | waits c instr _ current _ _ _ => exact absurd ((hwait instr).1.symm.trans current) (by simp)
  | returned instr _ _ _ => exact absurd instr hret
  | posted instr _ _ _ => exact absurd instr hpost
  | inited code init events quiet =>
      refine ⟨code, ?_⟩
      obtain ⟨hreturns, hposts, hinitial⟩ := books_inited (start s) m.log init
        (fun e he n hn => events e he n hn) quiet
      rw [hreturns, hposts, hinitial, hrenew ⟨i, ⟨rfl, hn⟩, init⟩]
      omega
  | stored value instr code events count =>
      have hle := hg.lowered s value ⟨rfl, by rw [hn, instr]⟩
      exact ⟨code, h.tokens_still events (by omega) hgiven⟩

/-- Calls in progress and their tokens, on a stack. -/
abbrev covered (waits : Addr → Option Addr) (given : List (Addr × Addr)) (a s : Addr) : Nat :=
  given.count (a, s) + if waits a = some s then 1 else 0

/-- The code on the stacks after an instruction, by what it removes and adds. -/
theorem pending_exec (h : Ledger start m waits given) (hi : i ≠ .int20) (hn : m.next = some i)
    {waits' : Addr → Option Addr} {given' : List (Addr × Addr)}
    (hother : ∀ a s, a ≠ m.cpu → (exec m.k m.thread.regs i).spawned ≠ some a →
      m.Pending a s → covered waits given a s ≤ covered waits' given' a s)
    (hcpu : ∀ s n, (exec m.k m.thread.regs i).spawned ≠ some m.cpu →
      (m.code m.cpu).countP (Instr.returnsTo s) = n + (if i.returnsTo s then 1 else 0) →
      n + (exec m.k m.thread.regs i).code.countP (Instr.returnsTo s) ≤ covered waits' given' m.cpu s)
    (a s : Addr) : ((m.execInstr i).code a).countP (Instr.returnsTo s) ≤ covered waits' given' a s := by
  obtain ⟨rest, hcode, hrest⟩ := Machine.code_of_next hn
  rw [Machine.execInstr_code hi hrest]
  split
  · simp [entryCode, Instr.returnsTo]
  · next hsp =>
    split
    · next ha =>
      subst ha
      rw [List.countP_append, Nat.add_comm]
      exact hcpu s _ hsp (by rw [hcode, List.countP_cons])
    · next ha =>
      by_cases hp : m.Pending a s
      · exact Nat.le_trans (h.pending a s) (hother a s ha hsp hp)
      · rw [pending_iff] at hp
        omega

/-- The suspended process of the running stack still leaves first. -/
theorem leavesFirst_exec (hl : LeavesFirst m waits given) (hi : i ≠ .int20) (hn : m.next = some i)
    {waits' : Addr → Option Addr} {given' : List (Addr × Addr)}
    (hsub : ∀ s, waits' m.cpu = some s → waits m.cpu = some s ∧
      (exec m.k m.thread.regs i).spawned ≠ some m.cpu)
    (hcpu : ∀ s n, waits' m.cpu = some s →
      n + (if i.returnsTo s then 1 else 0) ≤ given.count (m.cpu, s) →
      n + (exec m.k m.thread.regs i).code.countP (Instr.returnsTo s) ≤ given'.count (m.cpu, s)) :
    LeavesFirst (m.execInstr i) waits' given' := by
  intro s hs
  rw [m.execInstr_cpu hi] at hs ⊢
  obtain ⟨hw, hsp⟩ := hsub s hs
  obtain ⟨front, back, hfb, hfront, hback⟩ := hl s hw
  obtain ⟨rest, hcode, hrest⟩ := Machine.code_of_next hn
  rw [hcode] at hfb
  cases front with
  | nil =>
      cases hfb
      exact absurd rfl hi
  | cons j front =>
      rw [List.cons_append] at hfb
      cases hfb
      refine ⟨(exec m.k m.thread.regs i).code ++ front, back, ?_, ?_, hback⟩
      · rw [Machine.execInstr_code hi hrest, if_neg hsp, if_pos rfl, List.append_assoc]
      · rw [List.countP_cons] at hfront
        rw [List.countP_append, Nat.add_comm]
        exact hcpu s _ hs hfront

/-- A call in progress on a stack whose code is not made anew stays, unless it returns. -/
theorem pending_kept (hi : i ≠ .int20) (hn : m.next = some i) {a s : Addr} (hp : m.Pending a s)
    (hsp : (exec m.k m.thread.regs i).spawned ≠ some a) (hret : a = m.cpu → i.returnsTo s = false) :
    (m.execInstr i).Pending a s := by
  obtain ⟨rest, hcode, hrest⟩ := Machine.code_of_next hn
  obtain ⟨j, hj, hjs⟩ := hp
  refine ⟨j, ?_, hjs⟩
  rw [Machine.execInstr_code hi hrest, if_neg hsp]
  split
  · next ha =>
    subst ha
    rw [hcode] at hj
    rcases List.mem_cons.mp hj with rfl | hj
    · rw [hret rfl] at hjs
      cases hjs
    · exact List.mem_append_right _ hj
  · exact hj

/-- Who is suspended stays so, where nobody posts his semaphore. -/
theorem down_exec (h : Ledger start m waits given) (hg : HonoursWaits m .exec) (hi : i ≠ .int20)
    (hn : m.next = some i) {a s : Addr} (ha : waits a = some s)
    (hpost : .unblock a ∈ schedActs m.k i → ¬ PostsOn m.k i s)
    (hsp : (exec m.k m.thread.regs i).spawned ≠ some a) : Down (m.execInstr i).k a := by
  have hprep : (m.execInstr i).k = m.prepared .exec := by
    rw [m.execInstr_k hi]
    simp only [Machine.prepared, hn]
  have hacts : m.stepActs .exec = schedActs m.k i := by simp only [Machine.stepActs, hn]
  rw [hprep]
  refine h.down_prepared hg ha (fun hu => ?_) (fun _ => ?_) fun hu hb => ?_
  · rintro ⟨j, ⟨-, hj⟩, hjs⟩
    cases hn.symm.trans hj
    exact hpost (hacts ▸ hu) hjs
  · rintro ⟨j, ⟨-, hj⟩, hjs⟩
    cases hn.symm.trans hj
    exact hsp hjs
  · rw [hacts] at hu hb
    have hu' := mem_schedActs hu
    have hb' := mem_schedActs hb
    cases hu' <;> cases hb'

/-- Code other than that of a semaphore's tokens. -/
theorem exec_other (h : Ledger start m waits given) (hl : LeavesFirst m waits given)
    (hg : HonoursWaits m .exec) (hi : i ≠ .int20) (hn : m.next = some i)
    (hwait : ∀ s, i = .semWaitLocked s → m.k.current = none ∧ (m.k.sem s).count = 0)
    (hret : ∀ s, i ≠ .semWaitReturn s 0) (hpost : ∀ s, ¬ PostsOn m.k i s) :
    ∃ waits' given', Ledger start (m.execInstr i) waits' given' ∧
      LeavesFirst (m.execInstr i) waits' given' := by
  set o := TpSo.exec m.k m.thread.regs i with ho
  let kept : Addr × Addr → Bool := fun g => o.events.all (fun e => (e.inits g.2).isNone)
  let waits' : Addr → Option Addr := fun a => if o.spawned = some a then none else waits a
  have hkept : ∀ a s, m.Pending a s → kept (a, s) = true := by
    intro a s hp
    refine List.all_eq_true.mpr fun e he => Option.isNone_iff_eq_none.mpr ?_
    by_contra hne
    exact hg.renewed s ⟨i, ⟨rfl, hn⟩, e, he, hne⟩ a hp
  have hcount : ∀ a s, m.Pending a s → (given.filter kept).count (a, s) = given.count (a, s) :=
    fun a s hp => List.count_filter (hkept a s hp)
  have hfilter : ∀ s, m.Inits .exec s → (given.filter kept).countP (fun g => g.2 = s) = 0 := by
    rintro s ⟨j, ⟨-, hj⟩, e, he, hne⟩
    cases hn.symm.trans hj
    refine List.countP_eq_zero.mpr fun g hmem => ?_
    have hall := List.all_eq_true.mp (List.mem_filter.mp hmem).2 e he
    simp only [decide_eq_true_eq]
    rintro rfl
    exact hne (Option.isNone_iff_eq_none.mp hall)
  have hstill := fun s => h.tokens_other hg hn (given.filter kept) (hwait s) (hret s) (hpost s)
    List.filter_sublist.countP_le (hfilter s)
  have hreturns : ∀ s, i.returnsTo s = false := by
    intro s
    cases i <;> try rfl
    next t ret =>
    simp only [Instr.returnsTo, Bool.and_eq_false_iff, beq_eq_false_iff_ne]
    by_contra hne
    simp only [not_or, not_not] at hne
    obtain ⟨rfl, rfl⟩ := hne
    exact hret t rfl
  have hwaits : ∀ a s, waits' a = some s → waits a = some s ∧ o.spawned ≠ some a := by
    intro a s ha
    simp only [waits'] at ha
    split at ha
    · cases ha
    · next hsp => exact ⟨ha, hsp⟩
  -- the tokens dropped from `given` are those of semaphores made anew, which nobody is waiting on
  have hcovered : ∀ a s, o.spawned ≠ some a → m.Pending a s →
      covered waits given a s = covered waits' (given.filter kept) a s := by
    intro a s hsp hp
    simp only [covered, waits', if_neg hsp, hcount a s hp]
  refine ⟨waits', given.filter kept, ⟨fun s => ?_, ?_, fun a s ha => ?_, fun a s ha => ?_, ?_⟩, ?_⟩
  · rw [m.execInstr_log i, m.execInstr_k hi]
    exact (hstill s).2
  · refine h.pending_exec hi hn (fun a s _ hsp hp => Nat.le_of_eq (hcovered a s hsp hp))
      fun s n hsp hle => ?_
    rw [(hstill s).1]
    by_cases hp : m.Pending m.cpu s
    · have hold : _ ≤ covered waits given m.cpu s := h.pending m.cpu s
      rw [hcovered m.cpu s hsp hp, hle] at hold
      exact Nat.le_trans (Nat.le_add_right _ _) hold
    · rw [pending_iff] at hp
      omega
  · obtain ⟨hw, hsp⟩ := hwaits a s ha
    exact pending_kept hi hn (h.inProgress a s hw) hsp fun _ => hreturns s
  · obtain ⟨hw, hsp⟩ := hwaits a s ha
    exact h.down_exec hg hi hn hw (fun _ => hpost s) hsp
  · simp only [waits', h.nobody.1, h.nobody.2, ite_self, and_self]
  · refine leavesFirst_exec hl hi hn (fun s hs => hwaits _ s hs) fun s n hs hle => ?_
    rw [hcount m.cpu s (h.inProgress _ s (hwaits _ s hs).1), (hstill s).1]
    exact Nat.le_trans (Nat.le_add_right _ _) hle

/-- A `sem_wait` that finds a token. -/
theorem exec_took (h : Ledger start m waits given) (hl : LeavesFirst m waits given)
    (hg : HonoursWaits m .exec) {s0 : Addr} (hn : m.next = some (.semWaitLocked s0))
    (hpos : 0 < (m.k.sem s0).count) :
    Ledger start (m.execInstr (.semWaitLocked s0)) waits ((m.cpu, s0) :: given) ∧
      LeavesFirst (m.execInstr (.semWaitLocked s0)) waits ((m.cpu, s0) :: given) := by
  have hi : Instr.semWaitLocked s0 ≠ .int20 := (by simp)
  have hsp : ∀ a, (TpSo.exec m.k m.thread.regs (.semWaitLocked s0)).spawned ≠ some a := by
    intro a ha
    cases (spawned_eq_none m.k m.thread.regs (by intro _ _ h; cases h)).symm.trans ha
  have hcounts : (TpSo.exec m.k m.thread.regs (.semWaitLocked s0)).code = [.semWaitReturn s0 0] ∧
      (TpSo.exec m.k m.thread.regs (.semWaitLocked s0)).events = [] ∧
      ((TpSo.exec m.k m.thread.regs (.semWaitLocked s0)).k.sem s0).count + 1 = (m.k.sem s0).count := by
    have hbody : semWaitBody m.k s0 = (0, false, m.k.modSem s0 Sem.takeToken) := by
      unfold semWaitBody
      rw [if_pos hpos]
    simp only [TpSo.exec, hbody, Bool.false_eq_true, if_false, List.nil_append, Kernel.modSem,
      Function.update_self, Sem.takeToken, true_and]
    omega
  obtain ⟨hcode, hevents, hcount⟩ := hcounts
  have hnew : ∀ s, (TpSo.exec m.k m.thread.regs (.semWaitLocked s0)).code.countP (Instr.returnsTo s) =
      if s = s0 then 1 else 0 := by
    intro s
    rw [hcode]
    by_cases hs : s = s0
    · simp [Instr.returnsTo, hs]
    · simp [Instr.returnsTo, hs, Ne.symm hs]
  have hgiven : ∀ a s, ((m.cpu, s0) :: given).count (a, s) =
      given.count (a, s) + if a = m.cpu ∧ s = s0 then 1 else 0 := by
    intro a s
    rw [List.count_cons]
    simp only [beq_iff_eq, Prod.ext_iff]
    simp only [eq_comm]
  have hcov : ∀ a s, covered waits given a s ≤ covered waits ((m.cpu, s0) :: given) a s := by
    intro a s
    simp only [covered, hgiven]
    omega
  have hpost : ∀ s, ¬ PostsOn m.k (.semWaitLocked s0) s := by
    rintro s (heq | ⟨q, heq, -⟩) <;> cases heq
  -- the token leaves the count and is written down as given in the same step
  refine ⟨⟨fun s => ?_, ?_, fun a s ha => ?_, fun a s ha => ?_, h.nobody⟩, ?_⟩
  · rw [m.execInstr_log, m.execInstr_k hi]
    by_cases hs : s = s0
    · subst hs
      have htok := h.tokens s
      rw [hevents, List.countP_cons]
      simp only [List.nil_append, decide_true, if_true]
      omega
    · refine (h.tokens_other hg hn _ ?_ (by simp) (hpost s) (Nat.le_of_eq ?_) ?_).2
      · intro heq
        cases heq
        exact absurd rfl hs
      · rw [List.countP_cons, if_neg (by simpa using Ne.symm hs), Nat.add_zero]
      · rintro ⟨j, ⟨-, hj⟩, e, he, -⟩
        cases hn.symm.trans hj
        rw [hevents] at he
        cases he
  · refine h.pending_exec hi hn (fun a s _ _ _ => hcov a s) fun s n _ hle => ?_
    have hold : _ ≤ covered waits given m.cpu s := h.pending m.cpu s
    rw [hle] at hold
    rw [hnew]
    simp only [covered, hgiven, true_and] at hold ⊢
    omega
  · exact pending_kept hi hn (h.inProgress a s ha) (hsp a) fun _ => rfl
  · exact h.down_exec hg hi hn ha (fun _ => hpost s) (hsp a)
  · refine leavesFirst_exec hl hi hn (fun s hs => ⟨hs, hsp _⟩) fun s n _ hle => ?_
    rw [hnew, hgiven]
    simp only [true_and]
    omega

/-- A `sem_wait` without a token suspends the process. -/
theorem exec_waits (h : Ledger start m waits given) (hg : HonoursWaits m .exec) {s0 c : Addr}
    (hn : m.next = some (.semWaitLocked s0)) (hzero : (m.k.sem s0).count = 0)
    (hc : m.k.current = some c) :
    Ledger start (m.execInstr (.semWaitLocked s0)) (Function.update waits m.cpu (some s0)) given ∧
      LeavesFirst (m.execInstr (.semWaitLocked s0)) (Function.update waits m.cpu (some s0)) given := by
  have hi : Instr.semWaitLocked s0 ≠ .int20 := (by simp)
  obtain ⟨rfl, hc0, hcidle, hstate, hfree⟩ := hg.called s0 c ⟨rfl, hn⟩ hzero hc
  have hsp : ∀ a, (TpSo.exec m.k m.thread.regs (.semWaitLocked s0)).spawned ≠ some a := by
    intro a ha
    cases (spawned_eq_none m.k m.thread.regs (by intro _ _ h; cases h)).symm.trans ha
  have hunmoved : ((enqueueWaiter m.k s0 m.cpu).proc m.cpu).state ≠ .blocked := by
    rwa [(enqueueWaiter_same m.k s0 m.cpu).state m.cpu]
  have hcode : (TpSo.exec m.k m.thread.regs (.semWaitLocked s0)).code =
      [.int20, .semWaitReturn s0 0] := by
    simp [TpSo.exec, semWaitBody, hzero, hc, processBlock, hunmoved]
  have hevents : (TpSo.exec m.k m.thread.regs (.semWaitLocked s0)).events = [] := rfl
  have hcount : ((TpSo.exec m.k m.thread.regs (.semWaitLocked s0)).k.sem s0).count = 0 := by
    rw [show (TpSo.exec m.k m.thread.regs (.semWaitLocked s0)).k.sem = _ from
      sem_of_outside (semWaitBody_outside m.k s0)]
    simp [Kernel.modSem, waitedSem, hzero, hc]
  have hblocked : ((TpSo.exec m.k m.thread.regs (.semWaitLocked s0)).k.proc m.cpu).state = .blocked :=
    semWait_blocked m.thread.regs hzero hc
  obtain ⟨rest, hfront, hrest⟩ := Machine.code_of_next hn
  have hself : (m.execInstr (.semWaitLocked s0)).code m.cpu = [.int20, .semWaitReturn s0 0] ++ rest := by
    rw [Machine.execInstr_code hi hrest, if_neg (hsp _), if_pos rfl, hcode]
  -- a process that runs is down on no semaphore, so `waits` has room for this one
  have hnone : waits m.cpu = none := by
    cases hw : waits m.cpu with
    | none => rfl
    | some t =>
        rcases h.suspended _ t hw with hb | ht
        · exact absurd hb hstate
        · exact absurd (h.inProgress _ t hw) (hfree ht t)
  have hpost : ∀ s, ¬ PostsOn m.k (.semWaitLocked s0) s := by
    rintro s (heq | ⟨q, heq, -⟩) <;> cases heq
  refine ⟨⟨fun s => ?_, ?_, fun a s ha => ?_, fun a s ha => ?_, ?_⟩, ?_⟩
  · rw [m.execInstr_log, m.execInstr_k hi]
    by_cases hs : s = s0
    · subst hs
      rw [hevents, hcount, List.nil_append, ← hzero]
      exact h.tokens s
    · refine (h.tokens_other hg hn _ ?_ (by simp) (hpost s) (Nat.le_refl _) ?_).2
      · intro heq
        cases heq
        exact absurd rfl hs
      · rintro ⟨j, ⟨-, hj⟩, e, he, -⟩
        cases hn.symm.trans hj
        rw [hevents] at he
        cases he
  · refine h.pending_exec hi hn (fun a s ha _ _ => ?_) fun s n _ hle => ?_
    · simp only [covered, Function.update_of_ne ha, Nat.le_refl]
    · have hold : _ ≤ covered waits given m.cpu s := h.pending m.cpu s
      simp only [hle, covered, hnone, reduceCtorEq, if_false] at hold
      simp only [covered, Function.update_self, hcode, Option.some.injEq, List.countP_cons,
        List.countP_nil, Instr.returnsTo]
      by_cases hs : s0 = s
      · simp [hs]
        omega
      · simp [hs]
        omega
  · by_cases hac : a = m.cpu
    · subst hac
      rw [Function.update_self] at ha
      cases ha
      exact ⟨.semWaitReturn s0 0, by simp [hself], by simp [Instr.returnsTo]⟩
    · rw [Function.update_of_ne hac] at ha
      exact pending_kept hi hn (h.inProgress a s ha) (hsp a) fun hac' => absurd hac' hac
  · by_cases hac : a = m.cpu
    · subst hac
      rw [m.execInstr_k hi]
      exact .inl hblocked
    · rw [Function.update_of_ne hac] at ha
      exact h.down_exec hg hi hn ha (fun _ => hpost s) (hsp a)
  · rw [Function.update_of_ne (Ne.symm hc0), Function.update_of_ne (Ne.symm hcidle)]
    exact h.nobody
  · intro s hs
    rw [m.execInstr_cpu hi, Function.update_self] at hs
    cases hs
    rw [m.execInstr_cpu hi]
    exact ⟨[], .semWaitReturn s0 0 :: rest, hself, Nat.zero_le _, .semWaitReturn s0 0,
      List.mem_cons_self, by simp [Instr.returnsTo]⟩

/-- A `sem_wait` that returns 0 gives back the token it was given. -/
theorem exec_returned (h : Ledger start m waits given) (hl : LeavesFirst m waits given)
    (hg : HonoursWaits m .exec) {s0 : Addr} (hn : m.next = some (.semWaitReturn s0 0)) :
    Ledger start (m.execInstr (.semWaitReturn s0 0)) waits (given.erase (m.cpu, s0)) ∧
      LeavesFirst (m.execInstr (.semWaitReturn s0 0)) waits (given.erase (m.cpu, s0)) := by
  have hi : Instr.semWaitReturn s0 0 ≠ .int20 := nofun
  have hsp : ∀ a, (TpSo.exec m.k m.thread.regs (.semWaitReturn s0 0)).spawned ≠ some a := nofun
  have hpost : ∀ s, ¬ PostsOn m.k (.semWaitReturn s0 0) s := by
    rintro s (heq | ⟨q, heq, -⟩) <;> cases heq
  have hreturns : ∀ s, (if (Instr.semWaitReturn s0 0).returnsTo s then 1 else 0) =
      if s0 = s then 1 else 0 := by
    intro s
    simp [Instr.returnsTo]
  obtain ⟨rest, hfront, hrest⟩ := Machine.code_of_next hn
  -- who returns was given a token: the suspended process leaves before it could come here
  have htoken : 0 < given.count (m.cpu, s0) := by
    by_cases hw : waits m.cpu = some s0
    · obtain ⟨front, back, hfb, hle, -⟩ := hl s0 hw
      rw [hfront] at hfb
      cases front with
      | nil => cases hfb
      | cons j front =>
          rw [List.cons_append] at hfb
          cases hfb
          rw [List.countP_cons, hreturns, if_pos rfl] at hle
          omega
    · have hle := h.pending m.cpu s0
      rw [hfront, List.countP_cons, hreturns, if_pos rfl, if_neg hw] at hle
      omega
  have hgiven : ∀ a s, (given.erase (m.cpu, s0)).count (a, s) +
      (if a = m.cpu ∧ s0 = s then 1 else 0) = given.count (a, s) := by
    intro a s
    rw [List.count_erase]
    by_cases has : a = m.cpu ∧ s0 = s
    · obtain ⟨rfl, rfl⟩ := has
      simp only [BEq.rfl, and_self, if_true]
      omega
    · have hne : ((m.cpu, s0) == (a, s)) = false := by
        rw [beq_eq_false_iff_ne]
        intro heq
        cases heq
        exact has ⟨rfl, rfl⟩
      simp [hne, has]
  have htotal : ∀ s, (given.erase (m.cpu, s0)).countP (fun g => g.2 = s) +
      (if s0 = s then 1 else 0) = given.countP (fun g => g.2 = s) := by
    intro s
    have hperm := (List.perm_cons_erase (List.count_pos_iff.mp htoken)).countP_eq (fun g => g.2 = s)
    rw [hperm, List.countP_cons]
    simp
  refine ⟨⟨fun s => ?_, ?_, fun a s ha => ?_, fun a s ha => ?_, h.nobody⟩, ?_⟩
  · rw [m.execInstr_log, m.execInstr_k hi]
    have htok := h.tokens s
    rw [← htotal s] at htok
    rw [waitReturns_append _ (by simp [TpSo.exec, Event.inits]),
      postCalls_append _ (by simp [TpSo.exec, Event.inits]),
      initialCount_append _ _ (by simp [TpSo.exec, Event.inits])]
    simp only [TpSo.exec, List.countP_singleton, Event.returnsTo, Event.postsTo, BEq.rfl,
      Bool.and_true, beq_iff_eq, Bool.false_eq_true, if_false]
    omega
  · refine h.pending_exec hi hn (fun a s ha _ _ => ?_) fun s n _ hle => ?_
    · simp only [covered, ← hgiven a s, ha, false_and, if_false, Nat.add_zero, Nat.le_refl]
    · have hold : _ ≤ covered waits given m.cpu s := h.pending m.cpu s
      rw [hle, hreturns] at hold
      simp only [covered, ← hgiven m.cpu s, true_and] at hold
      simp only [covered, TpSo.exec, List.countP_nil]
      omega
  · by_cases hac : a = m.cpu ∧ s0 = s
    · obtain ⟨rfl, rfl⟩ := hac
      obtain ⟨front, back, hfb, -, j, hj, hjs⟩ := hl s0 ha
      refine ⟨j, ?_, hjs⟩
      rw [Machine.execInstr_code hi hrest, if_neg (hsp _), if_pos rfl]
      rw [hfront] at hfb
      cases front with
      | nil => cases hfb
      | cons j' front =>
          rw [List.cons_append] at hfb
          cases hfb
          simp [TpSo.exec, hj]
    · refine pending_kept hi hn (h.inProgress a s ha) (hsp a) fun hc => ?_
      simpa [Instr.returnsTo, hc] using hac
  · exact h.down_exec hg hi hn ha (fun _ => hpost s) (hsp a)
  · refine leavesFirst_exec hl hi hn (fun s hs => ⟨hs, hsp _⟩) fun s n _ hle => ?_
    rw [hreturns, ← hgiven m.cpu s] at hle
    simp only [TpSo.exec, List.countP_nil, true_and] at hle ⊢
    omega

/-- Who a `sem_post` unblocks. -/
theorem unblock_of_postsOn {k : Kernel} {s a : Addr} (h : PostsOn k i s)
    (hu : .unblock a ∈ schedActs k i) : firstBlocked k (waiters k s) = some a := by
  rcases h with rfl | ⟨q, rfl, hq⟩
  · cases mem_schedActs hu with
    | post hw => exact hw
  · cases mem_schedActs hu with
    | exitPost hs hw =>
        cases hq.symm.trans hs
        exact hw

/-- A `sem_post` gives the token to the process it wakes, if any. -/
theorem exec_posted (h : Ledger start m waits given) (hl : LeavesFirst m waits given)
    (hg : HonoursWaits m .exec) (hn : m.next = some i) {s0 : Addr} (hp : PostsOn m.k i s0) :
    ∃ waits' given', Ledger start (m.execInstr i) waits' given' ∧
      LeavesFirst (m.execInstr i) waits' given' := by
  set woken := firstBlocked m.k (waiters m.k s0) with hwoken
  let waits' : Addr → Option Addr := fun a => if woken = some a then none else waits a
  let given' := woken.toList.map (fun a => (a, s0)) ++ given
  have hi : i ≠ .int20 := by rcases hp with rfl | ⟨q, rfl, -⟩ <;> exact nofun
  have hother : ∀ s, s ≠ s0 → ¬ PostsOn m.k i s := by
    rintro s hs hps
    rcases hp with rfl | ⟨q, rfl, hq⟩ <;> rcases hps with heq | ⟨q', heq, hq'⟩
    · cases heq
      exact hs rfl
    · cases heq
    · cases heq
    · cases heq
      cases hq.symm.trans hq'
      exact hs rfl
  have hreturns : ∀ s, i.returnsTo s = false := by
    intro s
    rcases hp with rfl | ⟨q, rfl, -⟩ <;> rfl
  have hsp : ∀ a, (TpSo.exec m.k m.thread.regs i).spawned ≠ some a := by
    intro a ha
    have hnone := spawned_eq_none (i := i) m.k m.thread.regs fun args use heq => by
      rcases hp with rfl | ⟨q, rfl, -⟩ <;> cases heq
    cases hnone.symm.trans ha
  have hunblocks : ∀ a, .unblock a ∈ m.stepActs .exec → woken = some a := by
    intro a hu
    simp only [Machine.stepActs, hn] at hu
    exact unblock_of_postsOn hp hu
  -- who waits at another semaphore is not the one woken
  have hwaiter : ∀ a s, woken = some a → waits a = some s → s = s0 := by
    intro a s hwa hws
    by_contra hs
    have hu : .unblock a ∈ m.stepActs .exec := by
      simp only [Machine.stepActs, hn]
      rcases hp with rfl | ⟨q, rfl, hq⟩
      · simp [schedActs, postActs, ← hwoken, hwa]
      · simp [schedActs, postActs, hq, ← hwoken, hwa]
    obtain ⟨j, ⟨-, hj⟩, hjs⟩ := hg.woken a s hu (firstBlocked_state hwa) (h.inProgress a s hws)
    cases hn.symm.trans hj
    exact hother s hs hjs
  have hgiven : ∀ a s, given'.count (a, s) =
      given.count (a, s) + if woken = some a ∧ s0 = s then 1 else 0 := by
    intro a s
    cases hw : woken with
    | none => simp [given', hw]
    | some w => simp [given', hw, List.count_cons, Prod.ext_iff]
  have htotal : ∀ s, given'.countP (fun g => g.2 = s) =
      given.countP (fun g => g.2 = s) + if woken.isSome ∧ s0 = s then 1 else 0 := by
    intro s
    cases hw : woken with
    | none => simp [given', hw]
    | some w => simp [given', hw, List.countP_cons]
  have hwaits : ∀ a s, waits' a = some s → woken ≠ some a ∧ waits a = some s := by
    intro a s ha
    simp only [waits'] at ha
    split at ha
    · cases ha
    · next hwa => exact ⟨hwa, ha⟩
  have hcov : ∀ a s, covered waits given a s ≤ covered waits' given' a s := by
    intro a s
    simp only [covered, hgiven, waits']
    by_cases hwa : woken = some a
    · by_cases hws : waits a = some s
      · cases hwaiter a s hwa hws
        simp [hwa]
        split <;> simp
      · simp [hwa, hws]
    · simp [hwa]
  obtain ⟨hk, hevents⟩ := exec_postsOn m.thread.regs hp
  have hcount := semPostBody_count m.k s0
  rw [← hk, ← hwoken] at hcount
  have hnew : ∀ s, (TpSo.exec m.k m.thread.regs i).code.countP (Instr.returnsTo s) = 0 :=
    countP_returnsTo_zero (exec_isReturn _ _ fun t ht => by
      rcases hp with rfl | ⟨q, rfl, -⟩ <;> cases ht)
  refine ⟨waits', given', ⟨fun s => ?_, ?_, fun a s ha => ?_, fun a s ha => ?_, ?_⟩, ?_⟩
  · rw [m.execInstr_log, m.execInstr_k hi]
    by_cases hs : s = s0
    · subst hs
      have htok := h.tokens s
      rw [hevents, waitReturns_append _ (by simp [Event.inits]),
        postCalls_append _ (by simp [Event.inits]), initialCount_append _ _ (by simp [Event.inits]),
        htotal]
      simp only [List.countP_singleton, Event.returnsTo, Event.postsTo, BEq.rfl, if_true,
        Bool.false_eq_true, if_false, and_true]
      have hone : (if woken.isSome then 1 else 0) + (if woken.isSome then 0 else 1) = 1 := by
        cases woken <;> rfl
      omega
    · refine (h.tokens_other hg hn _ ?_ ?_ (hother s hs) (Nat.le_of_eq ?_) ?_).2
      · rintro rfl
        rcases hp with heq | ⟨q, heq, -⟩ <;> cases heq
      · rintro rfl
        rcases hp with heq | ⟨q, heq, -⟩ <;> cases heq
      · rw [htotal, if_neg (fun hc => hs hc.2.symm), Nat.add_zero]
      · rintro ⟨j, ⟨-, hj⟩, e, he, hne⟩
        cases hn.symm.trans hj
        rw [hevents] at he
        cases List.mem_singleton.mp he
        exact absurd rfl hne
  · refine h.pending_exec hi hn (fun a s _ _ _ => hcov a s) fun s n _ hle => ?_
    have hold : _ ≤ covered waits given m.cpu s := h.pending m.cpu s
    rw [hle] at hold
    rw [hnew]
    exact Nat.le_trans (Nat.le_add_right _ _) (Nat.le_trans hold (hcov _ _))
  · exact pending_kept hi hn (h.inProgress a s (hwaits a s ha).2) (hsp a) fun _ => hreturns s
  · refine h.down_exec hg hi hn (hwaits a s ha).2 (fun hu _ => ?_) (hsp a)
    exact (hwaits a s ha).1 (hunblocks a (by simpa only [Machine.stepActs, hn] using hu))
  · simp only [waits', h.nobody.1, h.nobody.2, ite_self, and_self]
  · refine leavesFirst_exec hl hi hn (fun s hs => ⟨(hwaits _ s hs).2, hsp _⟩) fun s n _ hle => ?_
    rw [hnew, hgiven]
    omega

end Exec

/-! ## All steps -/

/-- **Execution** of a stretch of code. -/
theorem exec (h : Ledger start m waits given) (hl : LeavesFirst m waits given) (hst : Stacks m)
    (hg : HonoursWaits m .exec) (hs : m.step .exec = some m') :
    ∃ waits' given', Ledger start m' waits' given' ∧ LeavesFirst m' waits' given' := by
  obtain ⟨i, hn, -, hm'⟩ := Machine.step_exec hs
  by_cases hi : i = .int20
  · exact ⟨_, _, h.int20 hst hg (hi ▸ hn) hs⟩
  · subst hm'
    by_cases hwait : ∃ s, i = .semWaitLocked s
    · obtain ⟨s, rfl⟩ := hwait
      by_cases hpos : 0 < (m.k.sem s).count
      · exact ⟨_, _, h.exec_took hl hg hn hpos⟩
      · cases hc : m.k.current with
        | some c => exact ⟨_, _, h.exec_waits hg hn (by omega) hc⟩
        | none =>
            refine h.exec_other hl hg hi hn (fun t ht => ?_) (fun t => nofun) ?_
            · cases ht
              exact ⟨hc, by omega⟩
            · rintro t (heq | ⟨q, heq, -⟩) <;> cases heq
    · by_cases hret : ∃ s, i = .semWaitReturn s 0
      · obtain ⟨s, rfl⟩ := hret
        exact ⟨_, _, h.exec_returned hl hg hn⟩
      · by_cases hpost : ∃ s, PostsOn m.k i s
        · obtain ⟨s, hps⟩ := hpost
          exact h.exec_posted hl hg hn hps
        · exact h.exec_other hl hg hi hn (fun s hs => absurd ⟨s, hs⟩ hwait)
            (fun s hs => hret ⟨s, hs⟩) fun s hs => hpost ⟨s, hs⟩

/-- **Step lemma.** -/
theorem step (h : Ledger start m waits given) (hl : LeavesFirst m waits given) (hst : Stacks m)
    {a : Action} (hg : HonoursWaits m a) (hs : m.step a = some m') :
    ∃ waits' given', Ledger start m' waits' given' ∧ LeavesFirst m' waits' given' := by
  cases a with
  | exec => exact h.exec hl hst hg hs
  | tick => exact ⟨_, _, h.tick hst hg hs⟩
  | syscall c =>
      obtain ⟨hif, -, -, rfl⟩ := Machine.step_syscall hs
      exact ⟨_, _, h.enter hl hif fun s => rfl⟩
  | ret =>
      obtain ⟨-, hn, rfl⟩ := Machine.step_ret hs
      obtain ⟨rest, hcode, hrest⟩ := Machine.code_of_next hn
      exact ⟨_, _, h.push hl _ [.user] _ (hrest []) hcode (fun _ => rfl) (fun _ => rfl) (by simp)⟩
  | exception =>
      obtain ⟨hif, -, rfl⟩ := Machine.step_exception hs
      refine ⟨_, _, h.enter hl hif (countP_returnsTo_zero ?_)⟩
      unfold Machine.exceptionCode
      split <;> simp [Instr.isReturn]
  | key e =>
      obtain ⟨hif, rfl⟩ := Machine.step_key hs
      refine ⟨_, _, h.enter hl hif (countP_returnsTo_zero ?_)⟩
      unfold Machine.keyHandler Machine.keyCode
      repeat' split
      all_goals simp [Instr.isReturn]

/-- At boot nobody waits and no token has been given. -/
theorem boot (memAnswers : Nat → Option Addr) :
    Ledger (fun s => ((Boot.kernel memAnswers).sem s).count) (Boot.machine memAnswers)
      (fun _ => none) [] where
  tokens s := by
    simp [waitReturns, postCalls, initialCount, sinceInit, Boot.machine]
  pending a s := by
    have hcode : (Boot.machine memAnswers).code a = entryCode ∨
        (Boot.machine memAnswers).code a = [.hlt] := by
      simp only [Machine.code, Boot.machine]
      split
      · exact .inl rfl
      · exact .inr rfl
    rcases hcode with h | h <;> rw [h] <;> exact Nat.zero_le _
  inProgress _ _ h := nomatch h
  suspended _ _ h := nomatch h
  nobody := ⟨rfl, rfl⟩

end Ledger

/-! ## Runs -/

/-- **Run lemma.** -/
theorem ledger_of_run {memAnswers : Nat → Option Addr} {as : List Action} {m : Machine}
    (h : GuardedRun Machine.step HonoursWaits (Boot.machine memAnswers) as m) :
    ∃ waits given, Ledger (fun s => ((Boot.kernel memAnswers).sem s).count) m waits given ∧
      LeavesFirst m waits given := by
  refine (h.invariant (fun m => Stacks m ∧ ∃ waits given, Ledger _ m waits given ∧
    LeavesFirst m waits given) (fun m a m' hm hg hs => ?_) ?_).2
  · obtain ⟨hst, waits, given, hledger, hleaves⟩ := hm
    exact ⟨hst.step hs, hledger.step hleaves hst hg hs⟩
  · exact ⟨.boot memAnswers, _, _, .boot memAnswers, nofun⟩

/-- **Token safety.** As long as every step honours the waits, the `sem_wait` calls that have returned 0
    never exceed the initial count and the `sem_post` calls. -/
theorem sem_wait_returns_bounded {memAnswers : Nat → Option Addr} {as : List Action} {m : Machine}
    (h : GuardedRun Machine.step HonoursWaits (Boot.machine memAnswers) as m) (s : Addr) :
    waitReturns s m.log ≤
      initialCount s ((Boot.kernel memAnswers).sem s).count m.log + postCalls s m.log := by
  obtain ⟨waits, given, hledger, -⟩ := ledger_of_run h
  have htok := hledger.tokens s
  omega

/-! ## A waiter that is posted, and one that is not -/

/-- On these stacks no `sem_wait` is about to return. -/
def noReturn (ts : List Addr) (m : Machine) : Bool := ts.all (fun t => !(m.code t).any Instr.isReturn)

theorem not_pending_of_noReturn {ts : List Addr} {m : Machine} (h : noReturn ts m = true) {t : Addr}
    (ht : t ∈ ts) (s : Addr) : ¬ m.Pending t s := by
  rintro ⟨i, hi, hret⟩
  have hno := List.all_eq_true.mp h t ht
  rw [Bool.not_eq_true', List.any_eq_false] at hno
  refine hno i hi ?_
  cases i <;> first | rfl | cases hret

/-- The event is the initialisation of a semaphore. -/
def Event.isInit : Event → Bool
  | .semInit _ _ => true
  | _ => false

/-- Somebody in a ready queue can take the processor over. -/
def offersSomebody (k : Kernel) (rsp : Nat) : Bool :=
  levels.any fun i => (entries (beforePick k rsp) i).head?.any fun p =>
    decide ((beforePick k rsp).idle ≠ some p ∧ ((beforePick k rsp).proc p).state = .ready)

/-- A process that the post wakes waits for it; none is made, or made ready, in the middle of a wait. -/
def honouredAct (m : Machine) (a : Action) : SchedAct → Bool
  | .unblock p =>
    match a, m.next with
    | .exec, some (.semPostLocked s) => (m.code p).all (fun i => !i.isReturn || i.returnsTo s)
    | _, _ => noReturn [p] m
  | .ready p | .fresh p => noReturn [p] m
  | _ => true

/-- A wait without a token is that of the running process, which leaves the processor to somebody. -/
def honouredInstr (m : Machine) : Instr → Bool
  | .semWaitLocked s =>
    decide ((m.k.sem s).count ≠ 0) ||
      decide (m.k.current = some m.cpu ∧ m.cpu ≠ 0 ∧ m.cpu ≠ Boot.idle ∧
        (m.k.proc m.cpu).state ≠ .blocked ∧ (m.k.proc m.cpu).state ≠ .terminated)
  | .int20 => noReturn [m.cpu] m || offersSomebody (m.prepared .exec) m.cpu
  | .semStoreValue _ _ => false
  | _ => true

/-- A step that honours the waits on these stacks, and goes to no others. -/
def honoured (ts : List Addr) (m : Machine) (a : Action) : Bool :=
  Machine.staysOn ts m a && (m.stepActs a).all (honouredAct m a) &&
    match a, m.next with
    | .exec, some i => honouredInstr m i &&
        ((exec m.k m.thread.regs i).events.all (fun e => !e.isInit) || noReturn ts m)
    | .tick, _ => noReturn [m.cpu] m || offersSomebody (m.prepared .tick) m.cpu
    | _, _ => true

/-- The end of a `sem_wait` is that of one semaphore only. -/
theorem returnsTo_unique {i : Instr} {s t : Addr} (hs : i.returnsTo s = true)
    (ht : (!i.isReturn || i.returnsTo t) = true) : t = s := by
  cases i with
  | semWaitReturn u ret =>
    have hreturns : (u == t && ret == 0) = true := ht
    rw [Instr.returnsTo, Bool.and_eq_true, beq_iff_eq] at hs
    rw [Bool.and_eq_true, beq_iff_eq] at hreturns
    exact hreturns.1.symm.trans hs.1
  | _ => cases hs

theorem not_nothingToRun {k : Kernel} {rsp : Nat} (h : offersSomebody k rsp = true) : ¬ NothingToRun k rsp := by
  rintro ⟨-, hnobody⟩
  obtain ⟨i, hi, hoffer⟩ := List.any_eq_true.mp h
  obtain ⟨p, hhead, hp⟩ := (Option.any_eq_true ..).mp hoffer
  obtain ⟨hidle, hready⟩ := of_decide_eq_true hp
  rcases hnobody i hi p hhead with heq | hne
  · exact hidle heq
  · exact hne hready

/-- **Such a step** honours the waits. -/
theorem honoursWaits_of_honoured {ts : List Addr} {m : Machine} {a : Action} (h : honoured ts m a = true)
    (hout : ∀ t, t ∉ ts → m.code t = [.hlt]) : HonoursWaits m a := by
  simp only [honoured, Bool.and_eq_true] at h
  obtain ⟨⟨-, hacts⟩, hinstr⟩ := h
  have hact : ∀ {act}, act ∈ m.stepActs a → honouredAct m a act = true := fun h => List.all_eq_true.mp hacts _ h
  have hexec : ∀ {i}, m.Executes a i → honouredInstr m i = true ∧
      ((exec m.k m.thread.regs i).events.all (fun e => !e.isInit) || noReturn ts m) = true := by
    rintro i ⟨rfl, hn⟩
    simpa only [hn, Bool.and_eq_true] using hinstr
  have hself : ∀ {p}, noReturn [p] m = true → ∀ s, ¬ m.Pending p s := fun h =>
    not_pending_of_noReturn h (List.mem_singleton_self _)
  refine ⟨fun p s hu _ hpend => ?_, fun s c hex hzero hcur => ?_, fun hsw hnothing _ s => ?_,
    fun p s hr => hself (hact hr) s, fun p s hf hpend => absurd hpend (hself (hact hf) s), fun s hs p => ?_,
    fun s v hex => ?_⟩
  · have hwoken := hact hu
    simp only [honouredAct] at hwoken
    split at hwoken
    · next t hn =>
      obtain ⟨i, hi, hret⟩ := hpend
      have hall := List.all_eq_true.mp hwoken i hi
      obtain rfl : t = s := returnsTo_unique hret hall
      exact ⟨_, ⟨rfl, hn⟩, .inl rfl⟩
    · exact absurd hpend (hself hwoken s)
  · have hwait := (hexec hex).1
    simp only [honouredInstr, hzero, ne_eq, not_true_eq_false, decide_false, Bool.false_or,
      decide_eq_true_eq] at hwait
    obtain ⟨hcpu, hne, hidle, hblocked, hended⟩ := hwait
    obtain rfl : m.cpu = c := Option.some.inj (hcpu.symm.trans hcur)
    exact ⟨rfl, hne, hidle, hblocked, fun ht => absurd ht hended⟩
  · have hoffer : noReturn [m.cpu] m = true ∨ offersSomebody (m.prepared a) m.cpu = true := by
      cases a with
      | exec => simpa only [honouredInstr, Bool.or_eq_true] using (hexec ⟨rfl, hsw⟩).1
      | tick => simpa only [Bool.or_eq_true] using hinstr
      | _ => cases hsw
    rcases hoffer with hno | hoffers
    · exact hself hno s
    · exact absurd hnothing (not_nothingToRun hoffers)
  · obtain ⟨i, hi, e, he, hne⟩ := hs
    rcases Bool.or_eq_true_iff.mp (hexec hi).2 with hnone | hno
    · have hinit := List.all_eq_true.mp hnone e he
      cases e with
      | semInit t n => cases hinit
      | _ => exact absurd rfl hne
    · by_cases hp : p ∈ ts
      · exact not_pending_of_noReturn hno hp s
      · rintro ⟨j, hj, hret⟩
        rw [hout p hp, List.mem_singleton] at hj
        cases hj
        cases hret
  · cases (hexec hex).1

/-- A run of such steps. -/
theorem honoursWaits_of_honoured_run {ts : List Addr} (hinit : Boot.init ∈ ts) {memAnswers : Nat → Option Addr}
    {as : List Action} {m : Machine}
    (h : GuardedRun Machine.step (fun m a => honoured ts m a) (Boot.machine memAnswers) as m) :
    GuardedRun Machine.step HonoursWaits (Boot.machine memAnswers) as m := by
  refine h.strengthen (fun m => ∀ t, t ∉ ts → m.code t = [.hlt]) (fun m a m' hout hg hs => ?_) fun t ht =>
    Machine.code_of_staysOn_boot hinit (.nil _) ht
  refine ⟨honoursWaits_of_honoured hg hout, fun t ht => ?_⟩
  have hstays : Machine.staysOn ts m a = true := by
    simp only [honoured, Bool.and_eq_true] at hg
    exact hg.1.1
  exact (Machine.code_of_staysOn (.cons hstays hs (.nil _)) ht).trans (hout t ht)

/-- The processes of boot, the shell, and its child. -/
def waiterStacks : List Addr := [0, Boot.idle, Boot.init, KERNEL_BASE + 100, KERNEL_BASE + 118]

/-- The shell opens a semaphore without tokens and creates a child, which waits for it. The shell posts, and the
    child goes on. -/
def postedWaiter : List Action :=
  startShell ++
  .syscall (.semOpen ['s'] 0 true) :: List.replicate 2 .exec ++
  .syscall (.processCreate 0 0 false (KERNEL_BASE * 4)) :: List.replicate 45 .exec ++
  List.replicate 4 .tick ++
  .exec :: .syscall (.semWait (KERNEL_BASE + 114)) :: List.replicate 11 .exec ++
  .syscall (.semPost (KERNEL_BASE + 114)) :: List.replicate 4 .exec ++ List.replicate 4 .tick ++
  List.replicate 7 .exec

set_option maxRecDepth 100000 in
/-- The child's `sem_wait` has returned, and the shell has posted once. -/
theorem sem_wait_returns_bounded_posted : ∃ m,
    GuardedRun Machine.step HonoursWaits (Boot.machine freshBlocks) postedWaiter m ∧
      waitReturns (KERNEL_BASE + 114) m.log = 1 ∧ postCalls (KERNEL_BASE + 114) m.log = 1 ∧
      waitReturns (KERNEL_BASE + 114) m.log ≤ initialCount (KERNEL_BASE + 114)
        ((Boot.kernel freshBlocks).sem (KERNEL_BASE + 114)).count m.log +
          postCalls (KERNEL_BASE + 114) m.log := by
  obtain ⟨m, hm, hfacts⟩ := (Option.any_eq_true (fun m : Machine =>
    decide (waitReturns (KERNEL_BASE + 114) m.log = 1) && decide (postCalls (KERNEL_BASE + 114) m.log = 1))
    (GuardedRun.check Machine.step (fun m a => honoured waiterStacks m a) (Boot.machine freshBlocks)
      postedWaiter)).mp (by decide +kernel)
  simp only [Bool.and_eq_true, decide_eq_true_eq] at hfacts
  have hrun := honoursWaits_of_honoured_run (by decide) (GuardedRun.of_check hm)
  exact ⟨m, hrun, hfacts.1, hfacts.2, sem_wait_returns_bounded hrun _⟩

/-- The shell opens a semaphore without tokens and creates a child, which waits for it. The shell
    unblocks the child. -/
def unblockedWaiter : List Action :=
  startShell ++
  .syscall (.semOpen ['s'] 0 true) :: List.replicate 2 .exec ++
  .syscall (.processCreate 0 0 false (KERNEL_BASE * 4)) :: List.replicate 45 .exec ++
  List.replicate 4 .tick ++
  .exec :: .syscall (.semWait (KERNEL_BASE + 114)) :: List.replicate 11 .exec ++
  .syscall (.processUnblock 4) :: .exec :: List.replicate 4 .tick ++ List.replicate 7 .exec

set_option maxRecDepth 100000 in
/-- The child's `sem_wait` has returned 0, though nobody has posted. -/
theorem unblocked_waiter_returns : ¬ ∀ (memAnswers : Nat → Option Addr) (as : List Action) (m : Machine),
    Reaches memAnswers as m → ∀ s, waitReturns s m.log ≤
      initialCount s ((Boot.kernel memAnswers).sem s).count m.log + postCalls s m.log := by
  intro h
  obtain ⟨m, hm, hfacts⟩ := (Option.any_eq_true (fun m : Machine =>
    decide (waitReturns (KERNEL_BASE + 114) m.log = 1) &&
      decide (initialCount (KERNEL_BASE + 114)
        ((Boot.kernel freshBlocks).sem (KERNEL_BASE + 114)).count m.log = 0) &&
      decide (postCalls (KERNEL_BASE + 114) m.log = 0))
    ((Boot.machine freshBlocks).run unblockedWaiter)).mp (by decide +kernel)
  simp only [Bool.and_eq_true, decide_eq_true_eq] at hfacts
  obtain ⟨⟨hone, hinitial⟩, hposts⟩ := hfacts
  have hle := h _ _ m hm (KERNEL_BASE + 114)
  rw [hone, hinitial, hposts] at hle
  exact absurd hle (by decide)

end TpSo
