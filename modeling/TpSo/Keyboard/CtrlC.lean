import TpSo.Keyboard.KeyStroke
import TpSo.Machine.Rest

set_option autoImplicit false

/-! # Ctrl+C

Ctrl+C runs `process_exit` of the foreground process on the stack of the interrupted one, and clears
`STDIN`. On the way it takes the mutexes of that process's pipes. `Calm` says that these have tokens
and nobody waits at them; every piece of the code keeps it, so the handler waits for none. -/

namespace TpSo

/-- The same three semaphores. -/
structure Pipe.SameSems (p p' : Pipe) : Prop where
  mutex : p'.mutex = p.mutex
  canRead : p'.canRead = p.canRead
  canWrite : p'.canWrite = p.canWrite

theorem Pipe.SameSems.trans {p p' p'' : Pipe} (h : p.SameSems p') (h' : p'.SameSems p'') :
    p.SameSems p'' :=
  ⟨h'.mutex.trans h.mutex, h'.canRead.trans h.canRead, h'.canWrite.trans h.canWrite⟩

/-! ## What the code may write -/

/-- Code that changes at most the count of the semaphore `t`, adds no waiter and blocks nobody, for a
    `TERMINATED` process `q`. -/
structure Touches (q : Addr) (t : Option Addr) (k k' : Kernel) : Prop where
  timerMasked : k'.timerMasked = k.timerMasked
  exitSem : (k'.proc q).exitSem = (k.proc q).exitSem
  ended : (k.proc q).state = .terminated → (k'.proc q).state = .terminated
  pipes : ∀ id a, pipeOf k' id = some a → pipeOf k id = some a
  handles : ∀ a, (k.pipe a).SameSems (k'.pipe a)
  blocked : ∀ x, (k'.proc x).state = .blocked → (k.proc x).state = .blocked
  waiters : FewerWaiters k k'
  counts : ∀ s, t ≠ some s → (k'.sem s).count = (k.sem s).count

section Instr
variable {q : Addr} {t : Option Addr} {k : Kernel} {r : Regs} {i : Instr}

/-- The scheduler's part, for every instruction that creates nothing and is no `sem_wait`. -/
theorem Touches.of_exec (hc : i.creates = false) (hrest : i.touchesRest = false)
    (hw : ∀ s, i ≠ .semWaitLocked s)
    (hexit : ((exec k r i).k.proc q).exitSem = (k.proc q).exitSem)
    (hpipes : ∀ id a, pipeOf (exec k r i).k id = some a → pipeOf k id = some a)
    (hhandles : ∀ a, (k.pipe a).SameSems ((exec k r i).k.pipe a))
    (hcounts : ∀ s, t ≠ some s → ((exec k r i).k.sem s).count = (k.sem s).count) :
    Touches q t k (exec k r i).k where
  timerMasked := (exec_sameRest k r hrest).timerMasked
  exitSem := hexit
  ended h := by
    refine (exec_acts k r i).terminated h (fun hact => ?_) (fun hact => ?_) fun hact => ?_
    · cases mem_schedActs hact with
      | wait _ _ => exact hw _ rfl
      | sleep _ _ => cases hc
      | sysBlock _ => cases hc
    · cases mem_schedActs hact with
      | done => cases hc
    · cases mem_schedActs hact with
      | create _ => cases hc
  pipes := hpipes
  handles := hhandles
  blocked x h := by
    refine ((exec_acts k r i).blocked h).resolve_right fun hact => ?_
    cases mem_schedActs hact with
    | wait _ _ => exact hw _ rfl
    | sleep _ _ => cases hc
    | sysBlock _ => cases hc
  waiters := exec_fewerWaiters k r hw
  counts := hcounts

/-- The first half of `process_exit` ends its process and touches no semaphore. -/
theorem exitFirstHalf_calm (k : Kernel) (q : Addr) : Touches q none k (exitFirstHalf k q).2 ∧
    ((exitFirstHalf k q).2.proc q).state = .terminated ∧
    (exitFirstHalf k q).1 = decide (k.runningPid = ((k.proc q).pid : Int)) := by
  have hb := exitFirstHalf_between k q
  have ho := SameObjects.of_outer (exitFirstHalf_outer k q)
  have hfam := adoptOrphanChildren_family ((leaveReady k q).setState q .terminated) q
  have hproc : ∀ x, ((exitFirstHalf k q).2.proc x).exitSem = (k.proc x).exitSem ∧
      ((exitFirstHalf k q).2.proc x).pid = (k.proc x).pid := by
    intro x
    have hset : (((leaveReady k q).setState q .terminated).proc x).exitSem = (k.proc x).exitSem ∧
        (((leaveReady k q).setState q .terminated).proc x).pid = (k.proc x).pid := by
      simp only [Kernel.setState, Kernel.modProc, Function.update_apply, (leaveReady_same k q).proc]
      split
      · next hx => rw [hx]; exact ⟨rfl, rfl⟩
      · exact ⟨rfl, rfl⟩
    rw [exitFirstHalf_eq, passForeground_eq]
    change ((adoptOrphanChildren _ q).proc x).exitSem = _ ∧ ((adoptOrphanChildren _ q).proc x).pid = _
    rw [hfam.proc x]
    exact hset
  have hrunning : (exitFirstHalf k q).2.runningPid = k.runningPid := by
    rw [exitFirstHalf_eq, passForeground_eq]
    change (adoptOrphanChildren _ q).runningPid = _
    rw [hfam.kernel]
    exact (leaveReady_same k q).runningPid
  have hstate : ((exitFirstHalf k q).2.proc q).state = .terminated := by
    rw [hb.state q, stateBut, if_pos rfl]
  have hmasked : (exitFirstHalf k q).2.timerMasked = k.timerMasked :=
    (congrArg Kernel.timerMasked (exitFirstHalf_outer k q) :)
  refine ⟨⟨hmasked, (hproc q).1, fun _ => hstate, fun id a h => ?_, fun a => ?_, fun x hx => ?_,
    .of_sem ho.sem, fun s _ => by rw [ho.sem]⟩, hstate, ?_⟩
  · unfold pipeOf at h ⊢
    rwa [ho.pipes] at h
  · rw [ho.pipe]
    exact ⟨rfl, rfl, rfl⟩
  · rw [hb.state x, stateBut] at hx
    split at hx
    · cases hx
    · exact hx
  · have hfst : (exitFirstHalf k q).1 =
        decide ((exitFirstHalf k q).2.runningPid = (((exitFirstHalf k q).2.proc q).pid : Int)) := rfl
    rw [hfst, hrunning, (hproc q).2]

end Instr

/-! ## Mutexes with tokens -/

/-- The pipes of these ids, and the exit semaphore of `q`, share no mutex. -/
def Apart (k : Kernel) (q : Addr) (ids : List Nat) : Prop :=
  ∀ id ∈ ids, ∀ a, pipeOf k id = some a → (k.proc q).exitSem ≠ some (k.pipe a).mutex ∧
    ∀ id' ∈ ids, ∀ b, pipeOf k id' = some b → (k.pipe b).canRead ≠ (k.pipe a).mutex ∧
      (k.pipe b).canWrite ≠ (k.pipe a).mutex ∧ (id' ≠ id → (k.pipe b).mutex ≠ (k.pipe a).mutex)

/-- The semaphore has a token, and nobody is suspended at it. -/
structure HasToken (k : Kernel) (s : Addr) : Prop where
  token : 0 < (k.sem s).count
  bound : (k.sem s).count < 2 ^ 32
  alone : ∀ w ∈ waiters k s, (k.proc w).state ≠ .blocked

/-- The tokens of a semaphore with the one the handler holds. -/
def tokensWith (k : Kernel) (held : Option Addr) (s : Addr) : Nat :=
  (k.sem s).count + if held = some s then 1 else 0

/-- Since `k0`, the code of `process_exit` has returned what it took, but for the mutex `held`. -/
structure Calm (k0 : Kernel) (q : Addr) (ids : List Nat) (held : Option Addr) (k : Kernel) : Prop where
  timerMasked : k.timerMasked = false
  exitSem : (k.proc q).exitSem = (k0.proc q).exitSem
  ended : (k.proc q).state = .terminated
  pipes : ∀ id a, pipeOf k id = some a → pipeOf k0 id = some a
  handles : ∀ a, (k0.pipe a).SameSems (k.pipe a)
  alone : ∀ id ∈ ids, ∀ a, pipeOf k id = some a → ∀ w ∈ waiters k (k0.pipe a).mutex,
    (k.proc w).state ≠ .blocked
  tokens : ∀ id ∈ ids, ∀ a, pipeOf k id = some a → 0 < tokensWith k held (k0.pipe a).mutex ∧
    tokensWith k held (k0.pipe a).mutex < 2 ^ 32

namespace Calm

variable {k0 k k' : Kernel} {q : Addr} {ids : List Nat} {held t : Option Addr}

theorem touch (h : Calm k0 q ids held k) (ht : Touches q t k k')
    (hne : ∀ id ∈ ids, ∀ a, pipeOf k' id = some a → t ≠ some (k0.pipe a).mutex) :
    Calm k0 q ids held k' where
  timerMasked := ht.timerMasked.trans h.timerMasked
  exitSem := ht.exitSem.trans h.exitSem
  ended := ht.ended h.ended
  pipes id a ha := h.pipes id a (ht.pipes id a ha)
  handles a := (h.handles a).trans (ht.handles a)
  alone id hid a ha w hw hb := h.alone id hid a (ht.pipes id a ha) w ((ht.waiters _).subset hw) (ht.blocked w hb)
  tokens id hid a ha := by
    unfold tokensWith
    rw [ht.counts _ (hne id hid a ha)]
    exact h.tokens id hid a (ht.pipes id a ha)

/-- Code that changes no count. -/
theorem touch_none (h : Calm k0 q ids held k) (ht : Touches q none k k') : Calm k0 q ids held k' :=
  h.touch ht fun _ _ _ _ => nofun

theorem mono {ids' : List Nat} (h : Calm k0 q ids held k) (hsub : ids' ⊆ ids) :
    Calm k0 q ids' held k :=
  { h with
    alone := fun id hid => h.alone id (hsub hid)
    tokens := fun id hid => h.tokens id (hsub hid) }

/-- A mutex is taken. -/
theorem take (h : Calm k0 q ids none k) (s : Addr) (hpos : 0 < (k.sem s).count) :
    Calm k0 q ids (some s) (k.modSem s Sem.takeToken) where
  timerMasked := h.timerMasked
  exitSem := h.exitSem
  ended := h.ended
  pipes := h.pipes
  handles := h.handles
  alone id hid a ha w hw := by
    refine h.alone id hid a ha w ?_
    unfold waiters at hw ⊢
    by_cases hs : (k0.pipe a).mutex = s
    · rw [hs] at hw ⊢
      simpa [Kernel.modSem, Sem.takeToken] using hw
    · simpa [Kernel.modSem, Function.update_of_ne hs] using hw
  tokens id hid a ha := by
    have hold := h.tokens id hid a ha
    unfold tokensWith at hold ⊢
    rw [takeToken_count]
    by_cases hs : (k0.pipe a).mutex = s
    · subst hs
      simp only [if_true, reduceCtorEq, if_false] at hold ⊢
      omega
    · have hs' : ¬ some s = some (k0.pipe a).mutex := fun h => hs (Option.some.inj h).symm
      simpa [hs, hs'] using hold

/-- The mutex that is held is given back. -/
theorem give {s : Addr} (h : Calm k0 q ids (some s) k) : Calm k0 q ids none (semPosted k s) := by
  have hsem : ∀ x, x ≠ s → (semPosted k s).sem x = k.sem x := fun x hx => semPosted_sem_of_ne hx
  have hacts := semPostBody_acts (semLocked k s) s
  have hmem : ∀ act ∈ postActs (semLocked k s) s, ∃ w, act = .unblock w := by
    intro act hact
    obtain ⟨w, -, rfl⟩ := mem_map_toList hact
    exact ⟨w, rfl⟩
  have hno : ∀ act ∈ postActs (semLocked k s) s, (∀ x, act ≠ .block x ∧ act ≠ .ready x ∧ act ≠ .fresh x) := by
    intro act hact x
    obtain ⟨w, rfl⟩ := hmem act hact
    exact ⟨nofun, nofun, nofun⟩
  have hblocked : ∀ x, ((semPosted k s).proc x).state = .blocked → (k.proc x).state = .blocked :=
    fun x hx => (hacts.blocked hx).resolve_right fun hact => (hno _ hact x).1 rfl
  have hpipes : ∀ id, pipeOf (semPosted k s) id = pipeOf k id := by
    intro id
    unfold pipeOf
    rw [show (semPosted k s).pipes = k.pipes from
      (SameObjects.of_outside (semPostBody_outside (semLocked k s) s)).pipes]
  have hwaiters : FewerWaiters k (semPosted k s) := by
    have hlock : FewerWaiters k (semLocked k s) := .modSem_same k s (fun x => { x with lock := true }) rfl
    exact hlock.trans (semPostBody_waiters _ _)
  have hexit : ((semPosted k s).proc q).exitSem = (k.proc q).exitSem :=
    (congrArg (fun k : Kernel => (k.proc q).exitSem) (semPostBody_outside (semLocked k s) s) :)
  refine ⟨(semPosted_masked k s).trans h.timerMasked, hexit.trans h.exitSem, ?_, fun id a ha => ?_,
    fun a => ?_, fun id hid a ha w hw hb => ?_, fun id hid a ha => ?_⟩
  · exact hacts.terminated h.ended (fun hact => (hno _ hact q).1 rfl) (fun hact => (hno _ hact q).2.1 rfl)
      fun hact => (hno _ hact q).2.2 rfl
  · exact h.pipes id a (hpipes id ▸ ha)
  · rw [semPosted_pipe]
    exact h.handles a
  · exact h.alone id hid a (hpipes id ▸ ha) w ((hwaiters _).subset hw) (hblocked w hb)
  · rw [hpipes id] at ha
    have hold := h.tokens id hid a ha
    unfold tokensWith at hold ⊢
    by_cases hs : (k0.pipe a).mutex = s
    · subst hs
      -- nobody waits for the mutex, so its count is what grows
      have hnone : firstBlocked (semLocked k (k0.pipe a).mutex)
          (waiters (semLocked k (k0.pipe a).mutex) (k0.pipe a).mutex) = none := by
        have hsame : waiters (semLocked k (k0.pipe a).mutex) (k0.pipe a).mutex =
            waiters k (k0.pipe a).mutex := by
          simp [waiters, semLocked, Kernel.modSem]
        rw [hsame]
        refine List.find?_eq_none.mpr fun w hw => ?_
        have hstate : ((semLocked k (k0.pipe a).mutex).proc w).state ≠ .blocked :=
          h.alone id hid a ha w hw
        simpa using hstate
      have hcount : ((semLocked k (k0.pipe a).mutex).sem (k0.pipe a).mutex).count =
          (k.sem (k0.pipe a).mutex).count := by
        simp [semLocked, Kernel.modSem]
      rw [semPosted_sem_self]
      unfold postedSem
      rw [hnone]
      simp only [if_true] at hold
      simp only [Sem.addToken, hcount, reduceCtorEq, if_false, Nat.add_zero]
      rw [Nat.mod_eq_of_lt hold.2]
      exact hold
    · have hs' : ¬ some s = some (k0.pipe a).mutex := fun h => hs (Option.some.inj h).symm
      rw [hsem _ hs]
      simpa [hs'] using hold

end Calm

/-! ## The code of `process_exit` -/

section Code
variable {p q : Addr} {k0 : Kernel} {ids : List Nat} {held : Option Addr}

/-- The state of the handler is calm. -/
abbrev IsCalm (k0 : Kernel) (q : Addr) (ids : List Nat) (held : Option Addr) (x : Kernel × Regs) : Prop :=
  Calm k0 q ids held x.1

/-- An instruction that touches no mutex, by what it expands to. -/
theorem calm_instr {i : Instr} {post : Kernel × Regs → Prop} (hi : i ≠ .int20)
    (hw : ∀ s, i ≠ .semWaitLocked s)
    (ht : ∀ k r, Calm k0 q ids held k → Touches q none k (exec k r i).k)
    (h : ∀ k r, Calm k0 q ids held k → Quiet p (IsCalm k0 q ids held) (exec k r i).code post) :
    Quiet p (IsCalm k0 q ids held) [i] post := by
  refine quiet_instr hi hw fun x hx => (h x.1 x.2 hx).conseq ?_ fun _ hy => hy
  rintro y rfl
  exact hx.touch_none (ht x.1 x.2 hx)

/-- One that expands to nothing. -/
theorem calm_simple {i : Instr} (hi : i ≠ .int20) (hw : ∀ s, i ≠ .semWaitLocked s)
    (hcode : ∀ k r, (exec k r i).code = [])
    (ht : ∀ k r, Calm k0 q ids held k → Touches q none k (exec k r i).k) :
    Quiet p (IsCalm k0 q ids held) [i] (IsCalm k0 q ids held) :=
  quiet_simple hi hw hcode fun x hx => hx.touch_none (ht x.1 x.2 hx)

/-- Nothing is written. -/
theorem Touches.refl (q : Addr) (k : Kernel) : Touches q none k k :=
  ⟨rfl, rfl, id, fun _ _ => id, fun _ => ⟨rfl, rfl, rfl⟩, fun _ => id,
    fun _ => List.Sublist.refl _, fun _ _ => rfl⟩

/-- A write to one semaphore that keeps its count and adds no waiter. -/
theorem Touches.modSem (q : Addr) (k : Kernel) (s : Addr) {f : Sem → Sem}
    (hcount : (f (k.sem s)).count = (k.sem s).count)
    (hw : ((f (k.sem s)).waitingProcesses.getD []).Sublist (TpSo.waiters k s)) :
    Touches q none k (k.modSem s f) := by
  refine ⟨rfl, rfl, id, fun _ _ => id, fun _ => ⟨rfl, rfl, rfl⟩, fun _ => id, .modSem k s f hw,
    fun t _ => ?_⟩
  simp only [Kernel.modSem, Function.update_apply]
  split
  · next ht => rw [ht, hcount]
  · rfl

/-- A write to a pipe that keeps its semaphores. -/
theorem Touches.modPipe (q : Addr) (k : Kernel) (a : Addr) {f : Pipe → Pipe}
    (hf : (k.pipe a).SameSems (f (k.pipe a))) : Touches q none k (k.modPipe a f) := by
  refine ⟨rfl, rfl, id, fun _ _ => id, fun b => ?_, fun _ => id, fun _ => List.Sublist.refl _,
    fun _ _ => rfl⟩
  simp only [Kernel.modPipe, Function.update_apply]
  split
  · next hb => rw [hb]; exact hf
  · exact ⟨rfl, rfl, rfl⟩

theorem Touches.trans {t : Option Addr} {k k' k'' : Kernel} (h : Touches q t k k')
    (h' : Touches q t k' k'') : Touches q t k k'' where
  timerMasked := h'.timerMasked.trans h.timerMasked
  exitSem := h'.exitSem.trans h.exitSem
  ended hk := h'.ended (h.ended hk)
  pipes id a ha := h.pipes id a (h'.pipes id a ha)
  handles a := (h.handles a).trans (h'.handles a)
  blocked x hx := h.blocked x (h'.blocked x hx)
  waiters := h.waiters.trans h'.waiters
  counts s hs := (h'.counts s hs).trans (h.counts s hs)

theorem semUnlock_touches (q : Addr) (k : Kernel) (s : Addr) : Touches q none k (semUnlock k s) :=
  .modSem q k s rfl (List.Sublist.refl _)

theorem semLocked_touches (q : Addr) (k : Kernel) (s : Addr) : Touches q none k (semLocked k s) :=
  .modSem q k s (f := fun t => { t with lock := true }) rfl (List.Sublist.refl _)

theorem registryLocked_touches (q : Addr) (k : Kernel) : Touches q none k (registryLocked k) :=
  ⟨rfl, rfl, id, fun _ _ => id, fun _ => ⟨rfl, rfl, rfl⟩, fun _ => id, .of_sem rfl, fun _ _ => rfl⟩

theorem semRemoveProcess_touches (q : Addr) (k : Kernel) (s : Addr) (pid : Nat) :
    Touches q none k (semRemoveProcess k s pid) := by
  refine .modSem q k s rfl ?_
  have hw := semRemoveProcess_waiters k s pid s
  simpa [waiters, semRemoveProcess, Kernel.modSem] using hw

/-- `sem_lock`. -/
theorem calm_lock (s : Addr) : Quiet p (IsCalm k0 q ids held) [.semLock s] (IsCalm k0 q ids held) :=
  quiet_semLock s fun x hx _ => hx.touch_none (semLocked_touches q x.1 s)

/-- `semLock(&registry_lock)`. -/
theorem calm_registryLock :
    Quiet p (IsCalm k0 q ids held) [.registryLock] (IsCalm k0 q ids held) :=
  quiet_registryLock fun x hx _ => hx.touch_none (registryLocked_touches q x.1)

/-- The mutex of an open pipe is taken. -/
theorem calm_wait {id : Nat} {a s : Addr} (hid : id ∈ ids) (hs : s = (k0.pipe a).mutex) :
    Quiet p (fun x => IsCalm k0 q ids none x ∧ pipeOf x.1 id = some a) [.semWait s]
      (fun x => IsCalm k0 q ids (some s) x ∧ x.2.rax = 0) := by
  subst hs
  have hpos : ∀ x : Kernel × Regs, IsCalm k0 q ids none x ∧ pipeOf x.1 id = some a →
      0 < (x.1.sem (k0.pipe a).mutex).count := by
    rintro x ⟨hcalm, ha⟩
    have htok := (hcalm.tokens id hid a ha).1
    simpa [tokensWith] using htok
  exact quiet_semWait _ (fun x hx _ => hpos x hx) fun x hx _ =>
    ⟨hx.1.take _ (hpos x hx), rfl⟩

/-- And given back. -/
theorem calm_give (s : Addr) :
    Quiet p (IsCalm k0 q ids (some s)) [.semPost s] (IsCalm k0 q ids none) := by
  refine quiet_semPost s (fun x hx hmasked => ?_) fun x hx _ => hx.give
  rw [hx.timerMasked] at hmasked
  cases hmasked

/-- `sem_post` on anything else. -/
theorem semPosted_touches (q : Addr) (k : Kernel) (s : Addr) :
    Touches q (some s) k (semPosted k s) := by
  have hlock : Touches q (some s) k (semLocked k s) := by
    have h := semLocked_touches q k s
    exact ⟨h.timerMasked, h.exitSem, h.ended, h.pipes, h.handles, h.blocked, h.waiters,
      fun t _ => h.counts t nofun⟩
  have hpost : Touches q (some s) (semLocked k s) (exec (semLocked k s) {} (.semPostLocked s)).k := by
    have hout := semPostBody_outside (semLocked k s) s
    refine .of_exec rfl rfl nofun ?_ (fun id a ha => ?_) (fun a => ?_) fun t ht => ?_
    · exact (congrArg (fun k : Kernel => (k.proc q).exitSem) hout :)
    · unfold pipeOf at ha ⊢
      rwa [show (exec (semLocked k s) {} (.semPostLocked s)).k.pipes = (semLocked k s).pipes from
        (SameObjects.of_outside hout).pipes] at ha
    · rw [show (exec (semLocked k s) {} (.semPostLocked s)).k.pipe = (semLocked k s).pipe from
        (SameObjects.of_outside hout).pipe]
      exact ⟨rfl, rfl, rfl⟩
    · rw [show (exec (semLocked k s) {} (.semPostLocked s)).k.sem = _ from sem_of_outside hout]
      have hts : t ≠ s := fun h => ht (congrArg some h.symm)
      simp only [Kernel.modSem, Function.update_of_ne hts]
  exact hlock.trans hpost

theorem calm_post {s : Addr} (hs : ∀ id ∈ ids, ∀ a, pipeOf k0 id = some a → s ≠ (k0.pipe a).mutex) :
    Quiet p (IsCalm k0 q ids none) [.semPost s] (IsCalm k0 q ids none) := by
  refine quiet_semPost s (fun x hx hmasked => ?_) fun x hx _ => ?_
  · rw [hx.timerMasked] at hmasked
    cases hmasked
  · refine hx.touch (semPosted_touches q x.1 s) fun id hid a ha h => ?_
    have ha' := hx.pipes id a ((semPosted_touches q x.1 s).pipes id a ha)
    exact hs id hid a ha' (Option.some.inj h)

/-- `sem_destroy` of a semaphore that is no mutex. -/
theorem calm_destroy {s : Addr}
    (hs : ∀ id ∈ ids, ∀ a, pipeOf k0 id = some a → s ≠ (k0.pipe a).mutex) :
    Quiet p (IsCalm k0 q ids none) [.semDestroy s] (IsCalm k0 q ids none) := by
  refine calm_instr nofun nofun (fun k r _ => .refl q k) fun k r _ =>
    .cons calm_registryLock (.cons (calm_simple nofun nofun (fun _ _ => rfl) fun k r _ => ?_)
      (.cons (calm_lock s) ?_))
  · exact .of_exec rfl rfl nofun rfl (fun _ _ => id) (fun _ => ⟨rfl, rfl, rfl⟩) fun _ _ => rfl
  · refine quiet_simple nofun nofun (fun _ _ => rfl) fun x hx => ?_
    have hout := semDestroyBody_outside x.1 s
    have ht : Touches q (some s) x.1 (exec x.1 x.2 (.semDestroyLocked s)).k := by
      refine .of_exec rfl rfl nofun ?_ (fun id a ha => ?_) (fun a => ?_) fun t ht => ?_
      · exact (congrArg (fun k : Kernel => (k.proc q).exitSem) hout :)
      · unfold pipeOf at ha ⊢
        rwa [show (exec x.1 x.2 (.semDestroyLocked s)).k.pipes = x.1.pipes from
          (SameObjects.of_outside hout).pipes] at ha
      · rw [show (exec x.1 x.2 (.semDestroyLocked s)).k.pipe = x.1.pipe from
          (SameObjects.of_outside hout).pipe]
        exact ⟨rfl, rfl, rfl⟩
      · rw [show (exec x.1 x.2 (.semDestroyLocked s)).k.sem = _ from sem_of_outside hout]
        have hts : t ≠ s := fun h => ht (congrArg some h.symm)
        simp only [Kernel.modSem, Function.update_of_ne hts]
    refine hx.touch ht fun id hid a ha h => ?_
    exact hs id hid a (hx.pipes id a (ht.pipes id a ha)) (Option.some.inj h)

/-- `unattach_from_pipe` for a pipe of the process. -/
theorem calm_exitUnattach {id : Nat} (hid : id ∈ ids) :
    Quiet p (IsCalm k0 q ids none) [.exitUnattach q id] (IsCalm k0 q ids none) := by
  refine calm_instr (by simp) (by simp) (fun k r _ => .refl q k) fun k r _ => ?_
  refine quiet_instr (by simp) (by simp) fun x hx => ?_
  simp only [exec]
  cases ha : pipeOf x.1 id with
  | none =>
      refine .nil ?_
      rintro y rfl
      exact hx
  | some a =>
      dsimp only
      split
      · refine .nil ?_
        rintro y rfl
        exact hx
      · set k1 := semRemoveProcess (semRemoveProcess x.1 (x.1.pipe a).canRead _) _ _ with hk1
        have ht : Touches q none x.1 k1 :=
          (semRemoveProcess_touches q x.1 _ _).trans (semRemoveProcess_touches q _ _ _)
        have hmutex : (k1.pipe a).mutex = (k0.pipe a).mutex := (hx.touch_none ht).handles a |>.mutex
        refine .cons (m := fun y => IsCalm k0 q ids (some (k1.pipe a).mutex) y ∧ y.2.rax = 0) ?_ ?_
        · refine (calm_wait hid hmutex).conseq ?_ fun _ h => h
          rintro y rfl
          exact ⟨hx.touch_none ht, ha⟩
        · have hdrop : Quiet p (IsCalm k0 q ids (some (k1.pipe a).mutex)) [.unattachLocked a]
              (IsCalm k0 q ids (some (k1.pipe a).mutex)) :=
            calm_simple (by simp) (by simp) (fun _ _ => rfl) fun k r _ => .modPipe q k a ⟨rfl, rfl, rfl⟩
          exact .cons (hdrop.conseq (fun _ h => h.1) fun _ h => h) (calm_give _)

/-- What is left of `close_pipe` while its mutex is held. -/
theorem calm_closeTail {id : Nat} {a : Addr} (hap : Apart k0 q ids) (hid : id ∈ ids)
    (ha : pipeOf k0 id = some a) {k : Kernel} (hk : Calm k0 q ids (some (k0.pipe a).mutex) k)
    (attached readers writers : Nat) :
    Quiet p (IsCalm k0 q ids (some (k0.pipe a).mutex)) (closeTail k id a attached readers writers)
      (IsCalm k0 q ids none) := by
  obtain ⟨hmutex, hread, hwrite⟩ := hk.handles a
  have hother : ∀ j ∈ ids, ∀ b, pipeOf k0 j = some b →
      (k0.pipe a).canRead ≠ (k0.pipe b).mutex ∧ (k0.pipe a).canWrite ≠ (k0.pipe b).mutex := by
    intro j hj b hb
    obtain ⟨hr, hw, -⟩ := (hap j hj b hb).2 id hid a ha
    exact ⟨hr, hw⟩
  unfold closeTail
  rw [hmutex, hread, hwrite]
  -- in the order of the source: the mutex is given back, the readers and the writers are woken,
  -- and the pipe goes if nobody is left
  refine .append (m := IsCalm k0 q ids none) (.append (m := IsCalm k0 q ids none)
    (.append (m := IsCalm k0 q ids none) (calm_give _) ?_) ?_) ?_
  · exact .replicate readers (calm_post fun j hj b hb => (hother j hj b hb).1)
  · exact .replicate writers (calm_post fun j hj b hb => (hother j hj b hb).2)
  · refine quiet_instr (by simp) (by simp) fun x hx => ?_
    obtain ⟨hmutex, hread, hwrite⟩ := hx.handles a
    simp only [exec]
    split
    · -- the pipe goes away with its mutex; the others are not concerned
      rw [hmutex, hread, hwrite]
      have hrest : ∀ {s : Addr}, s = (k0.pipe a).mutex → ∀ j ∈ ids.filter (· ≠ id), ∀ b,
          pipeOf k0 j = some b → s ≠ (k0.pipe b).mutex := by
        rintro s rfl j hj b hb
        obtain ⟨hj, hne⟩ := List.mem_filter.mp hj
        exact ((hap j hj b hb).2 id hid a ha).2.2 fun h => by simp [h] at hne
      refine .cons (m := IsCalm k0 q ids none) ?_ (.cons (m := IsCalm k0 q ids none) ?_
        (.cons (m := IsCalm k0 q (ids.filter (· ≠ id)) none) ?_
          (.cons (m := IsCalm k0 q ids none) ?_ ?_)))
      · refine (calm_destroy fun j hj b hb => (hother j hj b hb).1).conseq ?_ fun _ h => h
        rintro y rfl
        exact hx
      · exact calm_destroy fun j hj b hb => (hother j hj b hb).2
      · exact (calm_destroy (hrest rfl)).conseq (fun y hy => hy.mono List.filter_sublist.subset) fun _ h => h
      · refine quiet_simple (by simp) (by simp) (fun _ _ => rfl) fun y hy => ?_
        have hgone : ∀ j, pipeOf (exec y.1 y.2 (.destroyPipeFree id a)).k j =
            if j = id then none else pipeOf y.1 j := by
          intro j
          simp only [exec, pipeOf, Kernel.memFree, Function.update_apply]
          split
          · split <;> rfl
          · rfl
        refine ⟨hy.timerMasked, hy.exitSem, hy.ended, fun j b hb => ?_, hy.handles, fun j hj b hb => ?_,
          fun j hj b hb => ?_⟩
        all_goals
          rw [hgone j] at hb
          split at hb
          · cases hb
        · exact hy.pipes j b hb
        · next hne => exact hy.alone j (List.mem_filter.mpr ⟨hj, by simpa using hne⟩) b hb
        · next hne => exact hy.tokens j (List.mem_filter.mpr ⟨hj, by simpa using hne⟩) b hb
      · exact calm_simple (by simp) (by simp) (fun _ _ => rfl) fun k r _ => .refl q k
    · refine .nil ?_
      rintro y rfl
      exact hx

/-- `close_pipe` for a pipe of the process. -/
theorem calm_closePipe (hap : Apart k0 q ids) {id : Nat} (hid : id ∈ ids) :
    Quiet p (IsCalm k0 q ids none) [.closePipe id] (IsCalm k0 q ids none) := by
  refine quiet_instr (by simp) (by simp) fun x hx => ?_
  simp only [exec]
  cases ha : pipeOf x.1 id with
  | none =>
      refine .nil ?_
      rintro y rfl
      exact hx
  | some a =>
      have ha0 := hx.pipes id a ha
      have hmutex := (hx.handles a).mutex
      dsimp only
      rw [hmutex]
      refine .cons (m := fun y => IsCalm k0 q ids (some (k0.pipe a).mutex) y ∧ y.2.rax = 0) ?_ ?_
      · refine (calm_wait hid rfl).conseq ?_ fun _ h => h
        rintro y rfl
        exact ⟨hx, ha⟩
      · refine quiet_instr (by simp) (by simp) ?_
        rintro y ⟨hy, hrax⟩
        simp only [exec, hrax]
        rw [if_neg (by decide)]
        split
        · refine .cons (m := IsCalm k0 q ids (some (k0.pipe a).mutex))
            ((calm_lock _).conseq ?_ fun _ h => h) ?_
          · rintro z rfl
            exact hy
          · refine calm_instr (by simp) (by simp) (fun k r _ => semUnlock_touches q k _) fun k r _ => ?_
            refine .cons (calm_lock _) ?_
            refine quiet_instr (by simp) (by simp) fun z hz => ?_
            have hz' := hz.touch_none (semUnlock_touches q z.1 (z.1.pipe a).canWrite)
            refine (calm_closeTail hap hid ha0 hz' _ _ _).conseq ?_ fun _ h => h
            rintro w rfl
            exact hz'
        · refine (calm_closeTail hap hid ha0 hy _ 0 0).conseq ?_ fun _ h => h
          rintro z rfl
          exact hy

/-- The exit semaphore is posted. -/
theorem calm_exitPost (hap : Apart k0 q ids) :
    Quiet p (IsCalm k0 q ids none) [.exitSemLock q, .exitSemPost q] (IsCalm k0 q ids none) := by
  refine .cons (m := IsCalm k0 q ids none) ?_ ?_
  · refine calm_instr (by simp) (by simp) (fun k r _ => .refl q k) fun k r _ => ?_
    simp only [exec]
    unfold onSem
    split
    · exact .nil fun _ h => h
    · exact calm_lock _
  · refine quiet_instr (by simp) (by simp) fun x hx => ?_
    simp only [exec]
    cases hs : (x.1.proc q).exitSem with
    | none =>
        refine .nil ?_
        rintro y rfl
        exact hx
    | some s =>
        dsimp only
        rw [hx.timerMasked, if_neg (by simp)]
        refine .nil ?_
        rintro y rfl
        have hout := semPostBody_outside x.1 s
        have hexec : (exec x.1 x.2 (.exitSemPost q)).k = (semPostBody x.1 s).2 := by
          simp only [exec, hs]
        have ht : Touches q (some s) x.1 (exec x.1 x.2 (.exitSemPost q)).k := by
          refine .of_exec rfl rfl (by simp) ?_ (fun id a ha => ?_) (fun a => ?_) fun t ht => ?_
          · rw [hexec]
            exact (congrArg (fun k : Kernel => (k.proc q).exitSem) hout :)
          · rw [hexec] at ha
            unfold pipeOf at ha ⊢
            rwa [(SameObjects.of_outside hout).pipes] at ha
          · rw [hexec, (SameObjects.of_outside hout).pipe]
            exact ⟨rfl, rfl, rfl⟩
          · have hts : t ≠ s := fun h => ht (congrArg some h.symm)
            rw [hexec, sem_of_outside hout]
            simp only [Kernel.modSem, Function.update_of_ne hts]
        rw [← hexec]
        refine hx.touch ht fun id hid a ha h => ?_
        have ha0 := hx.pipes id a (ht.pipes id a ha)
        exact (hap id hid a ha0).1 (hx.exitSem.symm.trans (hs.trans h))

/-- `clear_pipe`. -/
theorem calm_clearPipe (hap : Apart k0 q ids) {id : Nat} (hid : id ∈ ids) :
    Quiet p (IsCalm k0 q ids none) [.clearPipe id] (IsCalm k0 q ids none) := by
  refine quiet_instr (by simp) (by simp) fun x hx => ?_
  simp only [exec]
  cases ha : pipeOf x.1 id with
  | none =>
      refine .nil ?_
      rintro y rfl
      exact hx
  | some a =>
      have ha0 := hx.pipes id a ha
      dsimp only
      rw [(hx.handles a).mutex]
      refine .cons (m := fun y => IsCalm k0 q ids (some (k0.pipe a).mutex) y ∧ y.2.rax = 0) ?_ ?_
      · refine (calm_wait hid rfl).conseq ?_ fun _ h => h
        rintro y rfl
        exact ⟨hx, ha⟩
      · have hclear : Quiet p (IsCalm k0 q ids (some (k0.pipe a).mutex)) [.clearLocked a]
            (IsCalm k0 q ids none) := by
          refine calm_instr (by simp) (by simp) (fun k r _ => .modPipe q k a ⟨rfl, rfl, rfl⟩) fun k r hk => ?_
          refine .cons (calm_lock _) ?_
          refine quiet_instr (by simp) (by simp) fun z hz => ?_
          have hz' := hz.touch_none (semUnlock_touches q z.1 (z.1.pipe a).canWrite)
          obtain ⟨hmutex, -, hwrite⟩ := hz.handles a
          simp only [exec]
          rw [hmutex, hwrite]
          rw [hwrite] at hz'
          refine .cons (m := IsCalm k0 q ids none) ((calm_give _).conseq ?_ fun _ h => h) ?_
          · rintro w rfl
            exact hz'
          · exact .replicate _ (calm_post fun j hj b hb =>
              ((hap j hj b hb).2 id hid a ha0).2.1)
        exact hclear.conseq (fun _ h => h.1) fun _ h => h

/-- The pipes `process_exit` releases, and the one Ctrl+C clears. -/
def exitPipes (k : Kernel) (q : Addr) : List Nat :=
  [(k.proc q).fdTargets 0, (k.proc q).fdTargets 1, (k.proc q).fdTargets 2, STDIN]

/-- Ending `q` on the stack of `p` finds every mutex on the way with a token and nobody at it. -/
structure ExitsCalmly (k : Kernel) (p q : Addr) : Prop where
  unmasked : k.timerMasked = false
  own : q ≠ p → k.runningPid ≠ ((k.proc q).pid : Int)
  tokens : ∀ id ∈ exitPipes k q, ∀ a, pipeOf k id = some a → HasToken k (k.pipe a).mutex
  apart : Apart k q (exitPipes k q)

/-- **Ctrl+C** waits for nothing then. -/
theorem quiet_ctrlC {k : Kernel} (h : ExitsCalmly k p q) :
    Quiet p (fun x => x.1 = k) [.processExit q, .clearPipe STDIN] (fun _ => True) := by
  obtain ⟨htouch, hended, hflag⟩ := exitFirstHalf_calm k q
  set ids := exitPipes k q with hids
  have hstart : Calm k q ids none (exitFirstHalf k q).2 := by
    refine ⟨htouch.timerMasked.trans h.unmasked, htouch.exitSem, hended, htouch.pipes, htouch.handles,
      fun id hid a ha w hw hb => ?_, fun id hid a ha => ?_⟩
    · exact (h.tokens id hid a (htouch.pipes id a ha)).alone w ((htouch.waiters _).subset hw) (htouch.blocked w hb)
    · obtain ⟨htoken, hbound, -⟩ := h.tokens id hid a (htouch.pipes id a ha)
      unfold tokensWith
      rw [htouch.counts _ (by simp)]
      simpa using ⟨htoken, hbound⟩
  have hfd : ∀ fd, (k.proc q).fdTargets fd ∈ ids := by
    intro fd
    match fd with
    | 0 | 1 | 2 => simp [hids, exitPipes]
  have hstdin : STDIN ∈ ids := by simp [hids, exitPipes]
  refine .cons (m := IsCalm k q ids none) ?_ ((calm_clearPipe h.apart hstdin).conseq (fun _ h => h)
    fun _ _ => trivial)
  refine quiet_instr (by simp) (by simp) ?_
  rintro x rfl
  simp only [exec]
  have hbody : Quiet p (IsCalm x.1 q ids none) ([.exitUnattach q ((x.1.proc q).fdTargets 0),
      .exitUnattach q ((x.1.proc q).fdTargets 1), .exitUnattach q ((x.1.proc q).fdTargets 2),
      .closePipe ((x.1.proc q).fdTargets 0), .closePipe ((x.1.proc q).fdTargets 1),
      .closePipe ((x.1.proc q).fdTargets 2)] ++ [.exitSemLock q, .exitSemPost q])
      (IsCalm x.1 q ids none) := by
    refine .append (m := IsCalm x.1 q ids none) ?_ (calm_exitPost h.apart)
    exact .cons (calm_exitUnattach (hfd 0)) (.cons (calm_exitUnattach (hfd 1))
      (.cons (calm_exitUnattach (hfd 2)) (.cons (calm_closePipe h.apart (hfd 0))
        (.cons (calm_closePipe h.apart (hfd 1)) (calm_closePipe h.apart (hfd 2))))))
  refine .append (m := IsCalm x.1 q ids none) (hbody.conseq ?_ fun _ h => h) ?_
  · rintro y rfl
    exact hstart
  · split
    · next hyield =>
      -- the process that ends is the interrupted one, so it does not come back
      have hqp : q = p := by
        by_contra hne
        rw [hflag, decide_eq_true_eq] at hyield
        exact h.own hne hyield
      refine .leave rfl (fun _ _ => waitless_of_ne (by simp)) ?_
      rintro y y' hy ⟨hrun, -⟩
      rw [← hqp, hy.ended] at hrun
      cases hrun
    · exact .nil fun _ h => h

end Code

/-! ## Every key -/

/-- The handler waits for nothing: what is typed goes through, and who is ended exits calmly. -/
def KeyCalm (k : Kernel) (p : Addr) : Option Key → Prop
  | none => True
  | some (.char _) => ∀ a, pipeOf k STDIN = some a → GoesThrough k a
  | some .ctrlC => ∀ q, 0 < k.foregroundPid → processLookup k k.foregroundPid.toNat = some q →
      ExitsCalmly k p q

theorem keyCode_creates (k : Kernel) (e : Key) : ∀ i ∈ Machine.keyCode k e, i.creates = false := by
  cases e with
  | char byte => simp [Machine.keyCode, Instr.creates]
  | ctrlC =>
      simp only [Machine.keyCode]
      repeat' split
      all_goals simp [Instr.creates]

theorem quiet_key {k : Kernel} {p : Addr} {e : Key} (h : KeyCalm k p (some e)) :
    Quiet p (fun x => x.1 = k) (Machine.keyCode k e) (fun _ => True) := by
  cases e with
  | char byte => exact quiet_char h byte
  | ctrlC =>
      simp only [Machine.keyCode]
      split
      · next hfg =>
        split
        · exact .nil fun _ _ => trivial
        · next q hq => exact quiet_ctrlC (h q hfg hq)
      · exact .nil fun _ _ => trivial

/-- `keyboardHandler`, interrupting `p`, can come to an instruction that suspends `p`. -/
def HandlerSuspends (m : Machine) (p : Addr) (kb : Keyboard) (scancode : UInt8) : Prop :=
  ∃ e, (keyboardHandler kb scancode).2 = some e ∧ KeySuspends m p e

/-- The first block `freshBlocks` gives: the process object of the shell. -/
def firstBlock : Addr := KERNEL_BASE + 100

/-- The machine with so many characters in `STDIN` that nobody has read. -/
def typedAhead (m : Machine) (n : Nat) : Machine :=
  { m with k := m.k.modPipe (Boot.pipeAddr 0) (fun p => { p with dataCount := n }) }

end TpSo
