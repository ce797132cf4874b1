import TpSo.Kernel.Keyboard
import TpSo.Machine.Handler
import TpSo.Machine.Terminated
import TpSo.Sem.Waiters

set_option autoImplicit false

/-! # Keys typed into a process's time

The keyboard handler runs on the stack of whatever process it interrupts and goes through
`write_pipe`, so a `sem_wait` in it that finds no token suspends that process. -/

namespace TpSo

/-- The step puts `p` into a waiting queue, or makes it `BLOCKED`. -/
def Suspends (p : Addr) (k k' : Kernel) : Prop :=
  (k.proc p).state ≠ .blocked ∧ (k'.proc p).state = .blocked ∨
    ∃ s, p ∉ waiters k s ∧ p ∈ waiters k' s

/-- The handler of this key, interrupting `p`, can come to an instruction that suspends `p`. -/
def KeySuspends (m : Machine) (p : Addr) (e : Key) : Prop :=
  ∃ m0 m1 m2 i rest, m.step (.key e) = some m0 ∧ Handles p m0 m1 ∧ m1.thread.sys = i :: rest ∧
    i ≠ .int20 ∧ m1.step .exec = some m2 ∧ Suspends p m1.k m2.k

/-! ## Which instructions suspend -/

/-- Only a `sem_wait` that finds no token does. -/
theorem waitsOn_of_suspends {k : Kernel} {r : Regs} {i : Instr} {p : Addr} (hc : i.creates = false)
    (h : Suspends p k (exec k r i).k) : ∃ s, WaitsOn k i s p := by
  rcases h with ⟨hbefore, hafter⟩ | ⟨s, hbefore, hafter⟩
  · rcases (exec_acts k r i).blocked hafter with hb | hact
    · exact absurd hb hbefore
    · cases mem_schedActs hact with
      | wait hcount hcur => exact ⟨_, rfl, hcount, hcur⟩
      | sleep _ _ => cases hc
      | sysBlock _ => cases hc
  · exact ⟨s, (exec_waiters hafter).resolve_left hbefore⟩

/-- And it does, if the process is not `BLOCKED` already. -/
theorem suspends_of_waitsOn {k : Kernel} (r : Regs) {i : Instr} {s p : Addr} (h : WaitsOn k i s p)
    (hp : (k.proc p).state ≠ .blocked) : Suspends p k (exec k r i).k := by
  obtain ⟨rfl, hcount, hcur⟩ := h
  refine .inl ⟨hp, ?_⟩
  simp only [exec, semWaitBody, hcount, hcur, gt_iff_lt, Nat.lt_irrefl, if_false]
  exact processBlock_blocked _ p

/-- No `sem_wait` without a token is executed here. -/
def Waitless (p : Addr) (s : Kernel × Regs) (i : Instr) : Prop := ∀ sem, ¬ WaitsOn s.1 i sem p

theorem waitless_of_ne {p : Addr} {s : Kernel × Regs} {i : Instr} (h : ∀ sem, i ≠ .semWaitLocked sem) :
    Waitless p s i := fun sem hw => h sem hw.1

/-! ## `sem_wait` and `sem_post` in a handler -/

/-- The spin lock of a semaphore is taken. -/
def semLocked (k : Kernel) (s : Addr) : Kernel := k.modSem s (fun t => { t with lock := true })

section Handler
variable {p : Addr} {k : Kernel} {pre post : Kernel × Regs → Prop}

/-- Code of the handler without a `sem_wait` that blocks. -/
abbrev Quiet (p : Addr) (pre : Kernel × Regs → Prop) (code : List Instr)
    (post : Kernel × Regs → Prop) : Prop := (handlerCode p).Triple (Waitless p) pre code post

/-- `semLock`: a lock that is held is waited for, and kept. -/
theorem quiet_semLock (s : Addr) (h : ∀ x, pre x → (x.1.sem s).lock = false →
    post (semLocked x.1 s, x.2)) : Quiet p pre [.semLock s] post := by
  refine .spin (by rintro ⟨⟩) (fun _ _ => waitless_of_ne nofun) fun x hx => ?_
  simp only [handlerCode, exec]
  cases hl : (x.1.sem s).lock with
  | true => exact .inl rfl
  | false => exact .inr ⟨rfl, h x hx hl⟩

/-- `registry_lock` is taken. -/
def registryLocked (k : Kernel) : Kernel := { k with registryLock := true }

theorem quiet_registryLock (h : ∀ x, pre x → x.1.registryLock = false →
    post (registryLocked x.1, x.2)) : Quiet p pre [.registryLock] post := by
  refine .spin (by rintro ⟨⟩) (fun _ _ => waitless_of_ne nofun) fun x hx => ?_
  simp only [handlerCode, exec]
  cases hl : x.1.registryLock with
  | true => exact .inl rfl
  | false => exact .inr ⟨rfl, h x hx hl⟩

/-- An instruction other than `sem_wait`'s that expands to nothing. -/
theorem quiet_simple {i : Instr} (hi : i ≠ .int20) (hw : ∀ s, i ≠ .semWaitLocked s)
    (hcode : ∀ k r, (exec k r i).code = [])
    (h : ∀ x, pre x → post ((exec x.1 x.2 i).k, (exec x.1 x.2 i).r)) : Quiet p pre [i] post :=
  .simple hi (fun _ _ => hcode _ _) (fun _ _ => waitless_of_ne hw) h

/-- An instruction other than `sem_wait`'s, by what it expands to. -/
theorem quiet_instr {i : Instr} (hi : i ≠ .int20) (hw : ∀ s, i ≠ .semWaitLocked s)
    (h : ∀ x, pre x → Quiet p (fun y => y = ((exec x.1 x.2 i).k, (exec x.1 x.2 i).r))
      (exec x.1 x.2 i).code post) : Quiet p pre [i] post :=
  .instr hi fun x hx => ⟨waitless_of_ne hw, h x hx⟩

/-- The lock is taken and released with the token. -/
theorem lock_takeToken (k : Kernel) (s : Addr) :
    (semLocked k s).modSem s Sem.takeToken = k.modSem s Sem.takeToken := by
  unfold semLocked
  rw [modSem_modSem]
  exact modSem_congr k s rfl

/-- `sem_wait` that finds a token, if it gets the lock. -/
theorem quiet_semWait (s : Addr)
    (hcount : ∀ x, pre x → (x.1.sem s).lock = false → 0 < (x.1.sem s).count)
    (h : ∀ x, pre x → (x.1.sem s).lock = false →
      post (x.1.modSem s Sem.takeToken, { x.2 with rax := 0 })) : Quiet p pre [.semWait s] post := by
  refine quiet_instr (by simp) (by simp) fun x hx => ?_
  refine .cons (m := fun y => y = (semLocked x.1 s, x.2) ∧
    (x.1.sem s).lock = false) ?_ ?_
  · refine quiet_semLock s ?_
    rintro y rfl hl
    exact ⟨rfl, hl⟩
  · refine .instr Instr.noConfusion ?_
    rintro y ⟨rfl, hl⟩
    have hpos := hcount x hx hl
    have htake : ((semLocked x.1 s).sem s).count > 0 := by
      simpa [semLocked, Kernel.modSem] using hpos
    refine ⟨fun t ht => ?_, ?_⟩
    · obtain ⟨heq, hzero, -⟩ := ht
      cases heq
      change ((semLocked x.1 s).sem s).count = 0 at hzero
      omega
    · have hbody : semWaitBody (semLocked x.1 s) s =
          (0, false, x.1.modSem s Sem.takeToken) := by
        unfold semWaitBody
        rw [if_pos htake, lock_takeToken]
      simp only [handlerCode, exec, hbody, Bool.false_eq_true, if_false, List.nil_append]
      refine quiet_simple (by simp) (by simp) (fun _ _ => rfl) ?_
      rintro y rfl
      exact h x hx hl

/-- `sem_post` waits for nothing. -/
theorem quiet_semPost_any (s : Addr) : Quiet p pre [.semPost s] (fun _ => True) := by
  refine quiet_instr (by simp) (by simp) fun x _ => ?_
  refine .cons (m := fun _ => True) (quiet_semLock s fun _ _ _ => trivial) ?_
  refine quiet_instr (by simp) (by simp) fun y _ => ?_
  simp only [exec]
  split
  · refine quiet_instr (by simp) (by simp) fun z _ => ?_
    simp only [exec]
    split
    · exact .nil fun _ _ => trivial
    · exact .leave rfl (fun _ _ => waitless_of_ne (by simp)) fun _ _ _ _ => trivial
  · exact .nil fun _ _ => trivial

/-- The kernel after a `sem_post`. -/
def semPosted (k : Kernel) (s : Addr) : Kernel :=
  (semPostBody (semLocked k s) s).2

/-- `sem_post` where the caller keeps the processor. -/
theorem quiet_semPost (s : Addr)
    (hstay : ∀ x, pre x → x.1.timerMasked = true → firstBlocked x.1 (waiters x.1 s) = none)
    (h : ∀ x, pre x → (x.1.sem s).lock = false → post (semPosted x.1 s, { x.2 with rax := 0 })) :
    Quiet p pre [.semPost s] post := by
  refine quiet_instr nofun nofun fun x hx => ?_
  refine .cons (m := fun y => y = (semLocked x.1 s, x.2) ∧
    (x.1.sem s).lock = false) ?_ ?_
  · refine quiet_semLock s ?_
    rintro y rfl hl
    exact ⟨rfl, hl⟩
  · refine quiet_instr nofun nofun ?_
    rintro y ⟨rfl, hl⟩
    have hwaiters : waiters (semLocked x.1 s) s = waiters x.1 s := by
      simp [waiters, semLocked, Kernel.modSem]
    have hno : ¬ ((semPostBody (semLocked x.1 s) s).1 = true ∧
        x.1.timerMasked = true) := by
      rintro ⟨hwoke, hmasked⟩
      have hnone := hstay x hx hmasked
      rw [semPostBody_fst, hwaiters] at hwoke
      change (firstBlocked x.1 (waiters x.1 s)).isSome = true at hwoke
      rw [hnone] at hwoke
      cases hwoke
    simp only [exec]
    split
    · next hyield => exact absurd hyield hno
    · refine .nil ?_
      rintro y rfl
      exact h x hx hl

/-- `sem_wait` on a semaphore whose lock is held: the handler never gets past it. -/
theorem quiet_semWait_locked (s : Addr) (hl : ∀ x, pre x → (x.1.sem s).lock = true) :
    Quiet p pre [.semWait s] (fun _ => False) :=
  quiet_semWait s (fun x hx h => by rw [hl x hx] at h; cases h)
    fun x hx h => by rw [hl x hx] at h; cases h

end Handler

/-! ## A character -/

/-- The semaphores and the ring of a pipe let a byte in: its mutex is held for ever, or has a token
    and the ring has room. (Or the ring is full, but the handler does not come to wait for
    room: it is stuck at the lock of `can_write`.) -/
def GoesThrough (k : Kernel) (a : Addr) : Prop :=
  let mutex := (k.pipe a).mutex
  let canWrite := (k.pipe a).canWrite
  (k.sem mutex).lock = true ∨
    0 < (k.sem mutex).count ∧ ((k.pipe a).dataCount ≠ PIPE_BUFFER_SIZE ∨
      canWrite ≠ mutex ∧ (k.sem canWrite).lock = true ∧
        (k.timerMasked = true → firstBlocked k (waiters k mutex) = none))

/-- What a `sem_post` does to the other semaphores. -/
theorem semPosted_sem_of_ne {k : Kernel} {s t : Addr} (h : t ≠ s) : (semPosted k s).sem t = k.sem t := by
  unfold semPosted
  rw [sem_of_outside (semPostBody_outside (semLocked k s) s)]
  simp only [semLocked, Kernel.modSem, Function.update_of_ne h]

theorem semPosted_masked (k : Kernel) (s : Addr) : (semPosted k s).timerMasked = k.timerMasked :=
  (congrArg Kernel.timerMasked (semPostBody_outside (semLocked k s) s) :)

/-- **A character goes through** `write_pipe` without waiting. -/
theorem quiet_char {p : Addr} {k : Kernel} (h : ∀ a, pipeOf k STDIN = some a → GoesThrough k a)
    (byte : UInt8) : Quiet p (fun x => x.1 = k) [.writePipe STDIN [byte]] (fun _ => True) := by
  refine quiet_instr (by simp) (by simp) fun x hx => ?_
  subst hx
  simp only [exec, List.length_singleton, Nat.one_ne_zero, if_false]
  cases ha : pipeOf x.1 STDIN with
  | none => exact .nil fun _ _ => trivial
  | some a =>
      refine quiet_instr (by simp) (by simp) ?_
      rintro y rfl
      simp only [exec, List.length_singleton, Nat.zero_lt_one, if_true]
      rcases h a ha with hlock | ⟨htoken, hroom⟩
      · refine .cons (quiet_semWait_locked _ ?_) (.unreached fun _ => id)
        rintro y rfl
        exact hlock
      · refine .cons (m := fun y => y.1 = x.1.modSem (x.1.pipe a).mutex Sem.takeToken) ?_ ?_
        · refine quiet_semWait _ ?_ ?_
          · rintro y rfl _
            exact htoken
          · rintro y rfl _
            rfl
        · refine quiet_instr (by simp) (by simp) fun y hy => ?_
          have hpipe : y.1.pipe a = x.1.pipe a := by rw [hy]; rfl
          simp only [exec]
          rw [hpipe]
          split
          · next hfull =>
            obtain ⟨hne, hlock, hstay⟩ := hroom.resolve_left (not_not.mpr hfull)
            refine .cons (m := fun z => (z.1.sem (x.1.pipe a).canWrite).lock = true) ?_ ?_
            · refine quiet_semPost _ ?_ ?_
              · rintro z rfl hmasked
                have hnone := hstay (by rw [hy] at hmasked; exact hmasked)
                have hw : waiters y.1 (x.1.pipe a).mutex = waiters x.1 (x.1.pipe a).mutex := by
                  rw [hy]
                  simp [waiters, Kernel.modSem, Sem.takeToken]
                have hproc : y.1.proc = x.1.proc := by rw [hy]; rfl
                change (waiters y.1 (x.1.pipe a).mutex).find?
                  (fun q => decide ((y.1.proc q).state = .blocked)) = none
                rw [hw, hproc]
                exact hnone
              · rintro z rfl _
                rw [semPosted_sem_of_ne hne]
                rw [hy]
                simpa [Kernel.modPipe, Kernel.modSem, Function.update_of_ne hne] using hlock
            · exact .cons (quiet_semWait_locked _ fun _ h => h) (.unreached fun _ => id)
          · refine .cons (quiet_semPost_any _) (.cons (quiet_semPost_any _) ?_)
            refine quiet_instr (by simp) (by simp) fun z _ => ?_
            simp only [exec, List.length_singleton, Nat.zero_add, Nat.lt_irrefl, if_false]
            exact .nil fun _ _ => trivial

/-! ## A character that does not -/

section Stuck
variable {p a : Addr} {k k' : Kernel} {r : Regs} {rest : List Instr}

/-- `p` is current, can still be suspended, and gets the processor back where it yields. -/
structure Stays (p : Addr) (k : Kernel) : Prop where
  current : k.current = some p
  notBlocked : (k.proc p).state ≠ .blocked
  running : k.timerMasked = true → (k.proc p).state = .running

/-- The handler can come to a `sem_wait` that finds no token, while `p` is not `BLOCKED`. -/
def GetsStuck (p : Addr) (k : Kernel) (r : Regs) (code : List Instr) : Prop :=
  ∃ s i more sem, (handlerCode p).Path ((k, r), code) (s, i :: more) ∧ WaitsOn s.1 i sem p ∧
    (s.1.proc p).state ≠ .blocked

theorem getsStuck_instr {i : Instr} (hi : i ≠ .int20)
    (h : GetsStuck p (exec k r i).k (exec k r i).r ((exec k r i).code ++ rest)) :
    GetsStuck p k r (i :: rest) := by
  obtain ⟨s, j, more, sem, hpath, hw⟩ := h
  exact ⟨s, j, more, sem, .head (.run (C := handlerCode p) hi) hpath, hw⟩

/-- A `sem_wait` with the lock free either gets stuck or goes on with a token less. -/
theorem getsStuck_semWait {s : Addr} (hl : (k.sem s).lock = false) (hstay : Stays p k)
    (h : 0 < (k.sem s).count → GetsStuck p (k.modSem s Sem.takeToken) { r with rax := 0 } rest) :
    GetsStuck p k r (.semWait s :: rest) := by
  refine getsStuck_instr (by simp) (getsStuck_instr (by simp) ?_)
  simp only [exec, hl, Bool.false_eq_true, if_false, List.nil_append]
  change GetsStuck p (semLocked k s) r (.semWaitLocked s :: rest)
  have hcount : ((semLocked k s).sem s).count = (k.sem s).count := by
    simp [semLocked, Kernel.modSem]
  by_cases hzero : (k.sem s).count = 0
  · exact ⟨(semLocked k s, r), .semWaitLocked s, rest, s, .refl,
      ⟨rfl, hcount.trans hzero, hstay.current⟩, hstay.notBlocked⟩
  · have hpos : ((semLocked k s).sem s).count > 0 := by omega
    have hbody : semWaitBody (semLocked k s) s = (0, false, k.modSem s Sem.takeToken) := by
      unfold semWaitBody
      rw [if_pos hpos, lock_takeToken]
    refine getsStuck_instr (by simp) ?_
    simp only [exec, hbody, Bool.false_eq_true, if_false, List.nil_append, List.singleton_append]
    exact getsStuck_instr (by simp) (h (by omega))

/-- `sem_post` suspends nobody. -/
theorem Stays.post (h : Stays p k) (s : Addr) : Stays p (semPosted k s) := by
  have hacts := semPostBody_acts (semLocked k s) s
  have hmem : ∀ act ∈ postActs (semLocked k s) s, ∃ q, act = .unblock q := by
    intro act hact
    obtain ⟨q, -, rfl⟩ := mem_map_toList hact
    exact ⟨q, rfl⟩
  refine ⟨hacts.current.trans h.current, fun hb => ?_, fun hmasked => ?_⟩
  · rcases hacts.blocked hb with hb | hact
    · exact h.notBlocked hb
    · obtain ⟨q, hq⟩ := hmem _ hact
      cases hq
  · refine hacts.running (h.running ((semPosted_masked k s).symm.trans hmasked)) ?_ ?_ ?_ ?_
    all_goals
      intro hact
      obtain ⟨q, hq⟩ := hmem _ hact
      cases hq

theorem semPosted_pipe (k : Kernel) (s : Addr) : (semPosted k s).pipe = k.pipe :=
  (SameObjects.of_outside (semPostBody_outside (semLocked k s) s)).pipe

theorem semPosted_sem_self (k : Kernel) (s : Addr) :
    (semPosted k s).sem s = postedSem (semLocked k s) s := by
  unfold semPosted
  rw [sem_of_outside (semPostBody_outside (semLocked k s) s)]
  simp [Kernel.modSem]

theorem semPosted_lock {t : Addr} (s : Addr) (h : (k.sem t).lock = false) :
    ((semPosted k s).sem t).lock = false := by
  by_cases ht : t = s
  · subst ht
    rw [semPosted_sem_self]
    unfold postedSem
    split <;> rfl
  · rw [semPosted_sem_of_ne ht]
    exact h

/-- A `sem_post` with the lock free goes on, possibly after others have run. -/
theorem getsStuck_semPost {s : Addr} (hl : (k.sem s).lock = false) (hstays : Stays p k)
    (h : (k.timerMasked = true → firstBlocked k (waiters k s) = none) →
      GetsStuck p (semPosted k s) { r with rax := 0 } rest)
    (hback : k.timerMasked = true → ∃ k', k'.current = some p ∧ (k'.proc p).state = .running ∧
      GetsStuck p k' { r with rax := 0 } rest) : GetsStuck p k r (.semPost s :: rest) := by
  refine getsStuck_instr (by simp) (getsStuck_instr (by simp) ?_)
  simp only [exec, hl, Bool.false_eq_true, if_false, List.nil_append]
  change GetsStuck p (semLocked k s) r (.semPostLocked s :: rest)
  refine getsStuck_instr (by simp) ?_
  simp only [exec]
  split
  · next hyield =>
    obtain ⟨hcur', -, hrun'⟩ := hstays.post s
    have hmasked : k.timerMasked = true := hyield.2
    obtain ⟨k', hk', hp', sx, j, more, sem, hpath, hw⟩ := hback hmasked
    change GetsStuck p (semPosted k s) { r with rax := 0 } (.processYield :: rest)
    refine getsStuck_instr (by simp) ?_
    simp only [exec, hcur', List.singleton_append]
    have hyield : (((semPosted k s).modProc p Process.endQuantum).proc p).state = .running := by
      simpa [Kernel.modProc, Process.endQuantum] using hrun' ((semPosted_masked k s).trans hmasked)
    have hstep : (handlerCode p).Step
        (((semPosted k s).modProc p Process.endQuantum, { r with rax := 0 }), .int20 :: rest)
        ((k', { r with rax := 0 }), rest) := .leave rfl ⟨hyield, hk', hp', rfl⟩
    exact ⟨sx, j, more, sem, .head hstep hpath, hw⟩
  · next hstay =>
    refine h fun hmasked => ?_
    have hwaiters : waiters (semLocked k s) s = waiters k s := by
      simp [waiters, semLocked, Kernel.modSem]
    cases hw : firstBlocked k (waiters k s) with
    | none => rfl
    | some w =>
        refine absurd ⟨?_, hmasked⟩ hstay
        rw [semPostBody_fst, hwaiters]
        exact congrArg Option.isSome hw

/-- Before the full pipe at `a`, nothing but a missing token keeps `p` from going on. -/
structure BeforeFull (p a mutex canWrite : Addr) (k : Kernel) : Prop where
  stays : Stays p k
  mutexIs : (k.pipe a).mutex = mutex
  canWriteIs : (k.pipe a).canWrite = canWrite
  mutexFree : (k.sem mutex).lock = false
  canWriteFree : (k.sem canWrite).lock = false
  full : (k.pipe a).dataCount = PIPE_BUFFER_SIZE

namespace BeforeFull

variable {mutex canWrite : Addr}

/-- A write to one semaphore that leaves it unlocked. -/
theorem modSem (h : BeforeFull p a mutex canWrite k) (s : Addr) {f : Sem → Sem}
    (hf : (f (k.sem s)).lock = false) : BeforeFull p a mutex canWrite (k.modSem s f) where
  stays := ⟨h.stays.current, h.stays.notBlocked, h.stays.running⟩
  mutexIs := h.mutexIs
  canWriteIs := h.canWriteIs
  mutexFree := by
    simp only [Kernel.modSem, Function.update_apply]
    split
    · exact hf
    · exact h.mutexFree
  canWriteFree := by
    simp only [Kernel.modSem, Function.update_apply]
    split
    · exact hf
    · exact h.canWriteFree
  full := h.full

/-- Posting, without a yield. -/
theorem post (h : BeforeFull p a mutex canWrite k) (s : Addr) :
    BeforeFull p a mutex canWrite (semPosted k s) where
  stays := h.stays.post s
  mutexIs := by rw [semPosted_pipe, h.mutexIs]
  canWriteIs := by rw [semPosted_pipe, h.canWriteIs]
  mutexFree := semPosted_lock s h.mutexFree
  canWriteFree := semPosted_lock s h.canWriteFree
  full := by rw [semPosted_pipe, h.full]

/-- Writing a counter of the pipe. -/
theorem modPipe (h : BeforeFull p a mutex canWrite k) {f : Pipe → Pipe}
    (hf : (f (k.pipe a)).canWrite = (k.pipe a).canWrite ∧ (f (k.pipe a)).mutex = (k.pipe a).mutex ∧
      (f (k.pipe a)).dataCount = (k.pipe a).dataCount) :
    BeforeFull p a mutex canWrite (k.modPipe a f) where
  stays := ⟨h.stays.current, h.stays.notBlocked, h.stays.running⟩
  mutexIs := by simpa only [Kernel.modPipe, Function.update_self, hf.2.1] using h.mutexIs
  canWriteIs := by simpa only [Kernel.modPipe, Function.update_self, hf.1] using h.canWriteIs
  mutexFree := h.mutexFree
  canWriteFree := h.canWriteFree
  full := by simpa only [Kernel.modPipe, Function.update_self, hf.2.2] using h.full

/-- Counting the waiting writers. -/
theorem countWriters (h : BeforeFull p a mutex canWrite k) {f : Pipe → Pipe}
    (hf : ∃ n, f (k.pipe a) = { k.pipe a with waitingWriters := n }) :
    BeforeFull p a mutex canWrite (k.modPipe a f) := by
  obtain ⟨n, hn⟩ := hf
  refine h.modPipe ?_
  rw [hn]
  exact ⟨rfl, rfl, rfl⟩

/-- A `sem_wait` of `write_pipe`. -/
theorem wait (h : BeforeFull p a mutex canWrite k) {s : Addr} (hs : s = mutex ∨ s = canWrite)
    (hgo : 0 < (k.sem s).count → GetsStuck p (k.modSem s Sem.takeToken) { r with rax := 0 } rest) :
    GetsStuck p k r (.semWait s :: rest) := by
  refine getsStuck_semWait ?_ h.stays hgo
  rcases hs with rfl | rfl
  · exact h.mutexFree
  · exact h.canWriteFree

/-- If others have run in between, they may have taken all tokens. -/
theorem wait_drained (h : BeforeFull p a mutex canWrite k) {s : Addr} (hs : s = mutex ∨ s = canWrite) :
    GetsStuck p (k.modSem s (fun t => { t with count := 0, lock := false })) r (.semWait s :: rest) := by
  refine (h.modSem s rfl).wait hs fun hpos => ?_
  simp [Kernel.modSem] at hpos

end BeforeFull

theorem takeToken_count (k : Kernel) (s t : Addr) : ((k.modSem s Sem.takeToken).sem t).count =
    if t = s then (k.sem t).count - 1 else (k.sem t).count := by
  simp only [Kernel.modSem, Function.update_apply]
  split
  · next h => rw [h]; rfl
  · rfl

theorem semPosted_count (k : Kernel) (s t : Addr) : ((semPosted k s).sem t).count ≤
    if t = s then (k.sem t).count + 1 else (k.sem t).count := by
  split
  · next h =>
    subst h
    have hcount : ((semLocked k t).sem t).count = (k.sem t).count := by
      simp [semLocked, Kernel.modSem]
    rw [semPosted_sem_self]
    unfold postedSem
    split
    · exact hcount ▸ Nat.le_succ _
    · refine Nat.le_trans (Nat.mod_le _ _) ?_
      exact Nat.le_of_eq (congrArg (· + 1) hcount)
  · next h =>
    rw [semPosted_sem_of_ne h]

/-- **A full pipe** holds its writer in the end: each turn of `write_pipe` takes a token of `can_write`
    that no reader has put there. -/
theorem getsStuck_writeLoop {mutex canWrite : Addr} (byte : UInt8) (n : Nat) :
    ∀ (k : Kernel) (r : Regs), BeforeFull p a mutex canWrite k → (k.sem canWrite).count = n →
      GetsStuck p k r (.writeLoop a [byte] 0 :: rest) := by
  induction n using Nat.strongRecOn with
  | _ n ih =>
    intro k r h hn
    refine getsStuck_instr (by simp) ?_
    simp only [exec, List.length_singleton, Nat.zero_lt_one, if_true, List.cons_append,
      List.nil_append, h.mutexIs]
    refine h.wait (.inl rfl) fun _ => ?_
    have h1 := h.modSem mutex (f := Sem.takeToken) rfl
    have hcount1 := takeToken_count k mutex canWrite
    revert h1 hcount1
    generalize k.modSem mutex Sem.takeToken = k1
    intro h1 hcount1
    refine getsStuck_instr (by simp) ?_
    simp only [exec, if_pos h1.full, List.cons_append, List.nil_append, h1.mutexIs, h1.canWriteIs]
    have h2 := h1.countWriters (f := Pipe.addWriter) ⟨_, rfl⟩
    have hcount2 : ((k1.modPipe a Pipe.addWriter).sem canWrite).count = (k1.sem canWrite).count := rfl
    revert h2 hcount2
    generalize k1.modPipe a Pipe.addWriter = k2
    intro h2 hcount2
    refine getsStuck_semPost h2.mutexFree h2.stays ?_ ?_
    rotate_left
    · intro hmasked
      have hdrained := h2.modSem canWrite (f := fun t => { t with count := 0, lock := false }) rfl
      exact ⟨_, hdrained.stays.current, hdrained.stays.running hmasked, h2.wait_drained (.inr rfl)⟩
    intro _
    have h3 := h2.post mutex
    have hcount3 := semPosted_count k2 mutex canWrite
    revert h3 hcount3
    generalize semPosted k2 mutex = k3
    intro h3 hcount3
    refine h3.wait (.inr rfl) fun hcan => ?_
    have h4 := h3.modSem canWrite (f := Sem.takeToken) rfl
    have hcount4 := takeToken_count k3 canWrite canWrite
    revert h4 hcount4
    generalize k3.modSem canWrite Sem.takeToken = k4
    intro h4 hcount4
    refine h4.wait (.inl rfl) fun hagain => ?_
    have h5 := h4.modSem mutex (f := Sem.takeToken) rfl
    have hcount5 := takeToken_count k4 mutex canWrite
    revert h5 hcount5
    generalize k4.modSem mutex Sem.takeToken = k5
    intro h5 hcount5
    refine getsStuck_instr (by simp) ?_
    simp only [exec, List.nil_append]
    have h6 := h5.countWriters (f := Pipe.dropWriter) ⟨_, rfl⟩
    have hcount6 : ((k5.modPipe a Pipe.dropWriter).sem canWrite).count = (k5.sem canWrite).count := rfl
    revert h6 hcount6
    generalize k5.modPipe a Pipe.dropWriter = k6
    intro h6 hcount6
    refine getsStuck_semPost h6.mutexFree h6.stays ?_ ?_
    · intro _
      refine ih _ ?_ _ _ (h6.post mutex) rfl
      -- `can_write` has lost a token, also where it is the mutex itself
      have hcount7 := semPosted_count k6 mutex canWrite
      by_cases hsame : canWrite = mutex
      · subst hsame
        simp only [if_true] at hcount1 hcount3 hcount4 hcount5 hcount7
        omega
      · simp only [hsame, if_false, if_true] at hcount1 hcount3 hcount4 hcount5 hcount7
        omega
    · intro hmasked
      have hdrained := h6.modSem mutex (f := fun t => { t with count := 0, lock := false }) rfl
      refine ⟨_, hdrained.stays.current, hdrained.stays.running hmasked, getsStuck_instr (by simp) ?_⟩
      simp only [exec, List.length_singleton, Nat.zero_lt_one, if_true, List.cons_append,
        List.nil_append, hdrained.mutexIs]
      exact h6.wait_drained (.inl rfl)

/-- **A character that does not go through** gets stuck. -/
theorem getsStuck_char (byte : UInt8) (hstays : Stays p k)
    (ha : pipeOf k STDIN = some a) (hno : ¬ GoesThrough k a) :
    GetsStuck p k r [.writePipe STDIN [byte]] := by
  simp only [GoesThrough, not_or, not_and, not_not, Bool.not_eq_true] at hno
  obtain ⟨hlock, hno⟩ := hno
  refine getsStuck_instr (by simp) ?_
  simp only [exec, List.length_singleton, Nat.one_ne_zero, if_false, ha, List.append_nil]
  by_cases hfree : (k.pipe a).dataCount = PIPE_BUFFER_SIZE ∧ ((k.pipe a).canWrite = (k.pipe a).mutex ∨
      (k.sem (k.pipe a).canWrite).lock = false)
  · obtain ⟨hfull, hw⟩ := hfree
    refine getsStuck_writeLoop byte _ k r ⟨hstays, rfl, rfl, hlock, ?_, hfull⟩ rfl
    rcases hw with hw | hw
    · rw [hw]
      exact hlock
    · exact hw
  · refine getsStuck_instr (by simp) ?_
    simp only [exec, List.length_singleton, Nat.zero_lt_one, if_true, List.append_nil]
    refine getsStuck_semWait hlock hstays fun hpos => ?_
    obtain ⟨hfull, hstuck⟩ := hno hpos
    rw [not_and_or, not_or] at hfree
    obtain ⟨hne, hwlock⟩ := hfree.resolve_left (not_not.mpr hfull)
    have hwoken := hstuck hne (by simpa using hwlock)
    -- the mutex's `sem_post` yields, and `can_write` may be drained meanwhile
    refine getsStuck_instr (by simp) ?_
    have hpipe : (k.modSem (k.pipe a).mutex Sem.takeToken).pipe a = k.pipe a := rfl
    simp only [exec, hpipe, if_pos hfull, List.cons_append, List.nil_append]
    have hfree : ((k.modSem (k.pipe a).mutex Sem.takeToken).sem (k.pipe a).mutex).lock = false := by
      simp [Kernel.modSem, Sem.takeToken]
    refine getsStuck_semPost hfree ⟨hstays.current, hstays.notBlocked, hstays.running⟩ ?_ ?_
    · intro hstay
      have hw : waiters (k.modSem (k.pipe a).mutex Sem.takeToken) (k.pipe a).mutex =
          waiters k (k.pipe a).mutex := by
        simp [waiters, Kernel.modSem, Sem.takeToken]
      exact absurd (fun hmasked => hw ▸ hstay hmasked) hwoken
    · intro hmasked
      refine ⟨k.modSem (k.pipe a).canWrite (fun t => { t with count := 0, lock := false }),
        hstays.current, hstays.running hmasked,
        getsStuck_semWait ?_ ⟨hstays.current, hstays.notBlocked, hstays.running⟩ fun hpos => ?_⟩
      · simp [Kernel.modSem]
      · simp [Kernel.modSem] at hpos

end Stuck

/-! ## Keys -/

/-- What gets stuck gets stuck before the code that comes after it. -/
theorem GetsStuck.append {p : Addr} {k : Kernel} {r : Regs} {code : List Instr}
    (h : GetsStuck p k r code) (rest : List Instr) : GetsStuck p k r (code ++ rest) := by
  obtain ⟨s, i, more, sem, hpath, hw⟩ := h
  exact ⟨s, i, more ++ rest, sem, hpath.append_right, hw⟩

/-- A handler creates no process if its code does not. -/
theorem keyHandler_creates {m : Machine} {e : Key}
    (hcode : ∀ i ∈ Machine.keyCode m.k e, i.creates = false) :
    ∀ i ∈ m.keyHandler e, i.creates = false := by
  intro i hi
  rcases List.mem_append.mp hi with hi | hi
  · exact hcode i hi
  · cases List.mem_singleton.mp hi
    rfl

/-- What a handler does is `Waitless` along its code, where that is so for the code. -/
theorem not_keySuspends {m : Machine} {p : Addr} {e : Key} {post : Kernel × Regs → Prop}
    (hcode : ∀ i ∈ Machine.keyCode m.k e, i.creates = false)
    (h : Quiet p (fun x => x.1 = m.k) (Machine.keyCode m.k e) post) : ¬ KeySuspends m p e := by
  rintro ⟨m0, m1, m2, i, rest, hkey, hhandles, hs, hi, hstep, hsus⟩
  obtain ⟨-, rfl⟩ := Machine.step_key hkey
  have hsys : (m.enter (m.keyHandler e)).thread.sys = m.keyHandler e := by
    simp [Machine.enter, Machine.setThread, Machine.thread]
  have hrestored : Quiet p (fun x => x.1 = m.k) (m.keyHandler e) (fun _ => True) :=
    h.append (quiet_simple (by simp) (by simp) (fun _ _ => rfl) fun _ _ => trivial)
  obtain ⟨-, hcreates, hpath⟩ := hhandles.path (by rw [hsys]; exact keyHandler_creates hcode)
  obtain ⟨j, hn, -, rfl⟩ := Machine.step_exec hstep
  cases hn.symm.trans (Machine.next_of_sys hs)
  rw [m1.execInstr_k hi] at hsus
  obtain ⟨s, hw⟩ := waitsOn_of_suspends (hcreates i (hs ▸ List.mem_cons_self)) hsus
  rw [hsys] at hpath
  exact ((hrestored _ rfl _ _ hpath).2 i rest hs) s hw

/-- A handler that gets stuck suspends the process. -/
theorem keySuspends_of_getsStuck {m : Machine} {p : Addr} {e : Key} (hif : m.interruptsEnabled)
    (hcode : ∀ i ∈ Machine.keyCode m.k e, i.creates = false)
    (h : GetsStuck p m.k m.thread.regs (Machine.keyCode m.k e)) : KeySuspends m p e := by
  obtain ⟨s, i, more, sem, hpath, hw, hp⟩ := h.append [.setRax m.thread.regs.rax]
  have hsys : (m.enter (m.keyHandler e)).thread.sys = m.keyHandler e := by
    simp [Machine.enter, Machine.setThread, Machine.thread]
  have hregs : (m.enter (m.keyHandler e)).thread.regs = m.thread.regs := by
    simp [Machine.enter, Machine.setThread, Machine.thread]
  have hstart : m.step (.key e) = some (m.enter (m.keyHandler e)) := if_pos hif
  have hpath' : (handlerCode p).Path (((m.enter (m.keyHandler e)).k,
      (m.enter (m.keyHandler e)).thread.regs), (m.enter (m.keyHandler e)).thread.sys)
      (s, i :: more) := by
    rw [hsys, hregs]
    exact hpath
  obtain ⟨m1, hm1, hk, hr, hs⟩ := Handles.of_path
    (by rw [hsys]; exact keyHandler_creates hcode) hpath'
  obtain rfl := hw.1
  refine ⟨_, m1, m1.execInstr (.semWaitLocked sem), _, more, hstart, hm1, hs,
    (by rintro ⟨⟩), ?_, ?_⟩
  · unfold Machine.step
    rw [Machine.next_of_sys hs]
  · rw [m1.execInstr_k (i := .semWaitLocked sem) (by rintro ⟨⟩), hk]
    exact suspends_of_waitsOn _ hw hp

end TpSo
