import TpSo.Machine.Exhaustion
import TpSo.Machine.Uninterrupted
import TpSo.Pipes.Closing
import TpSo.Pipes.Ring

set_option autoImplicit false

/-! # The pipe functions when nobody is in their way

A pipe is *vacant* when its mutex is free and nobody waits on its semaphores. `write_pipe` and
`read_pipe` on a vacant pipe come through without giving the processor away, byte after byte, as long
as there is room and there are bytes. -/

namespace TpSo

/-- Nobody is in the pipe's semaphores, and its mutex is free. -/
structure Vacant (k : Kernel) (p : Addr) : Prop where
  mutex : (k.sem (k.pipe p).mutex).lock = false ∧ (k.sem (k.pipe p).mutex).count = 1 ∧
    (k.sem (k.pipe p).mutex).waitingProcesses = some []
  canRead : (k.sem (k.pipe p).canRead).lock = false ∧
    (k.sem (k.pipe p).canRead).waitingProcesses = some []
  canWrite : (k.sem (k.pipe p).canWrite).lock = false ∧
    (k.sem (k.pipe p).canWrite).waitingProcesses = some []
  distinct : (k.pipe p).sems.Nodup

instance (k : Kernel) (p : Addr) : Decidable (Vacant k p) :=
  decidable_of_iff (_ ∧ _ ∧ _ ∧ _)
    ⟨fun ⟨h1, h2, h3, h4⟩ => ⟨h1, h2, h3, h4⟩, fun ⟨h1, h2, h3, h4⟩ => ⟨h1, h2, h3, h4⟩⟩

/-- Between two kernels only the pipe `p` and its semaphores have changed. -/
structure Within (k k' : Kernel) (p : Addr) : Prop where
  pipe : ∀ q, q ≠ p → k'.pipe q = k.pipe q
  sem : ∀ s, s ∉ (k.pipe p).sems → k'.sem s = k.sem s
  sems : (k'.pipe p).sems = (k.pipe p).sems
  rest : k' = { k with pipe := k'.pipe, sem := k'.sem }

namespace Within

variable {k k' k'' : Kernel} {p : Addr}

theorem refl (k : Kernel) (p : Addr) : Within k k p :=
  ⟨fun _ _ => rfl, fun _ _ => rfl, rfl, rfl⟩

theorem trans (h : Within k k' p) (h' : Within k' k'' p) : Within k k'' p where
  pipe q hq := (h'.pipe q hq).trans (h.pipe q hq)
  sem s hs := (h'.sem s (h.sems ▸ hs)).trans (h.sem s hs)
  sems := h'.sems.trans h.sems
  rest := by
    rw [h'.rest, h.rest]

theorem modPipe (k : Kernel) (p : Addr) {f : Pipe → Pipe} (hf : (f (k.pipe p)).sems = (k.pipe p).sems) :
    Within k (k.modPipe p f) p where
  pipe _ hq := Function.update_of_ne hq ..
  sem _ _ := rfl
  sems := by
    show (Function.update k.pipe p (f (k.pipe p)) p).sems = _
    rwa [Function.update_self]
  rest := rfl

theorem modSem (k : Kernel) {p s : Addr} (hs : s ∈ (k.pipe p).sems) (f : Sem → Sem) :
    Within k (k.modSem s f) p where
  pipe _ _ := rfl
  sem t ht := by
    have hts : t ≠ s := by
      rintro rfl
      exact ht hs
    exact Function.update_of_ne hts ..
  sems := rfl
  rest := rfl

theorem proc (h : Within k k' p) : k'.proc = k.proc := by
  rw [h.rest]

theorem current (h : Within k k' p) : k'.current = k.current := by
  rw [h.rest]

theorem pipes (h : Within k k' p) : k'.pipes = k.pipes := by
  rw [h.rest]

theorem allocOk (h : Within k k' p) : k'.allocOk = k.allocOk := by
  rw [h.rest]
  rfl

/-- Another pipe does not notice. -/
theorem vacant {q : Addr} (h : Within k k' p) (hq : q ≠ p)
    (hapart : ∀ s ∈ (k.pipe q).sems, s ∉ (k.pipe p).sems) (hv : Vacant k q) : Vacant k' q := by
  obtain ⟨hmutex, hread, hwrite, hdistinct⟩ := hv
  constructor
  all_goals rw [h.pipe q hq]
  · rwa [h.sem _ (hapart _ (by simp [Pipe.sems]))]
  · rwa [h.sem _ (hapart _ (by simp [Pipe.sems]))]
  · rwa [h.sem _ (hapart _ (by simp [Pipe.sems]))]
  · exact hdistinct

end Within

namespace Vacant

variable {k : Kernel} {p : Addr}

/-- A write to other fields of the pipe. -/
theorem modPipe (h : Vacant k p) {f : Pipe → Pipe} (hf : (f (k.pipe p)).sems = (k.pipe p).sems) :
    Vacant (k.modPipe p f) p := by
  have hself : (k.modPipe p f).pipe p = f (k.pipe p) := Function.update_self ..
  simp only [Pipe.sems, List.cons.injEq, and_true] at hf
  obtain ⟨hread, hwrite, hmutex⟩ := hf
  constructor
  all_goals rw [hself]
  · rw [hmutex]
    exact h.mutex
  · rw [hread]
    exact h.canRead
  · rw [hwrite]
    exact h.canWrite
  · unfold Pipe.sems
    rw [hmutex, hread, hwrite]
    exact h.distinct

theorem ne (h : Vacant k p) : (k.pipe p).canRead ≠ (k.pipe p).canWrite ∧
    (k.pipe p).canRead ≠ (k.pipe p).mutex ∧ (k.pipe p).canWrite ≠ (k.pipe p).mutex := by
  simpa [Pipe.sems, and_assoc] using h.distinct

/-- A token more or less in `can_read` or `can_write`. -/
theorem modSem (h : Vacant k p) {s : Addr} (hs : s = (k.pipe p).canRead ∨ s = (k.pipe p).canWrite)
    {f : Sem → Sem} (hf : ∀ x, (f x).lock = false ∧ (f x).waitingProcesses = x.waitingProcesses) :
    Vacant (k.modSem s f) p := by
  obtain ⟨hrw, hrm, hwm⟩ := h.ne
  have hself : ∀ t, (k.sem t).lock = false ∧ (k.sem t).waitingProcesses = some [] →
      ((k.modSem s f).sem t).lock = false ∧ ((k.modSem s f).sem t).waitingProcesses = some [] := by
    intro t ht
    by_cases hts : t = s
    · subst hts
      simp [Kernel.modSem, hf, ht.2]
    · simpa [Kernel.modSem, Function.update_of_ne hts] using ht
  refine ⟨?_, hself _ h.canRead, hself _ h.canWrite, h.distinct⟩
  have hm : (k.pipe p).mutex ≠ s := by
    rcases hs with rfl | rfl
    · exact hrm.symm
    · exact hwm.symm
  show (Function.update k.sem s (f (k.sem s)) (k.pipe p).mutex).lock = _ ∧ _
  simpa [Kernel.modSem, Function.update_of_ne hm] using h.mutex

/-- The mutex is taken and given back. -/
theorem mutex_back (h : Vacant k p) (f : Pipe → Pipe) :
    ((k.modSem (k.pipe p).mutex Sem.takeToken).modPipe p f).modSem (k.pipe p).mutex Sem.addToken =
      k.modPipe p f := by
  obtain ⟨hlock, hcount, -⟩ := h.mutex
  have hsame : Sem.addToken (Sem.takeToken (k.sem (k.pipe p).mutex)) = k.sem (k.pipe p).mutex := by
    simp only [Sem.addToken, Sem.takeToken, hcount]
    rw [← hlock]
    exact congrArg (fun n => { k.sem (k.pipe p).mutex with count := n }) hcount.symm
  unfold Kernel.modSem Kernel.modPipe
  simp only [Function.update_self, Function.update_idem, hsame, Function.update_eq_self]

end Vacant

/-! ## One byte -/

/-- The kernel once `write_pipe` has put one byte. -/
def putOne (k : Kernel) (p : Addr) (byte : UInt8) : Kernel :=
  (k.modPipe p (fun x => x.put byte)).modSem (k.pipe p).canRead Sem.addToken

theorem Vacant.putOne {k : Kernel} {p : Addr} (h : Vacant k p) (byte : UInt8) :
    Vacant (putOne k p byte) p := by
  refine (h.modPipe rfl).modSem (.inl ?_) fun _ => ⟨rfl, rfl⟩
  rw [show (k.modPipe p fun x => x.put byte).pipe p = _ from Function.update_self ..]
  rfl

/-- The kernel once `read_pipe` has taken one byte. -/
def takeOne (k : Kernel) (p : Addr) : Kernel :=
  (k.modPipe p Pipe.take).modSem (k.pipe p).canWrite Sem.addToken

/-- What a waiter on `can_write` has done when it has waited without being blocked. -/
def waitOnce (k : Kernel) (p : Addr) : Kernel :=
  ((k.modPipe p Pipe.addWriter).modSem (k.pipe p).canWrite Sem.takeToken).modPipe p Pipe.dropWriter

section Turns
variable (m : Machine) {k : Kernel} (r : Regs) {p : Addr} {bytes : List UInt8} {w : Nat}
  (rest : List Instr) (log : List Event)

/-- One turn of the loop of `write_pipe`. -/
theorem proceeds_putOne (h : Vacant k p) (hroom : (k.pipe p).dataCount ≠ PIPE_BUFFER_SIZE)
    (hw : w < bytes.length) :
    (m.inHandler k r (.writeLoop p bytes w :: rest) log).Proceeds 12
      (m.inHandler (putOne k p (bytes.getD w 0)) { r with rax := 0 }
        (.writeLoop p bytes (w + 1) :: rest)
        (.semPosted (k.pipe p).canRead :: .semPosted (k.pipe p).mutex :: .put p (bytes.getD w 0) ::
          .semReturned (k.pipe p).mutex 0 :: log)) := by
  obtain ⟨hlock, hcount, hqueue⟩ := h.mutex
  refine Machine.proceeds_instr (n := 11) rfl ?_
  simp only [exec, if_pos hw, List.cons_append, List.nil_append]
  refine (Machine.proceeds_semWait m r _ _ hlock (by omega)).append (l := 7) ?_
  have hpipe : (k.modSem (k.pipe p).mutex Sem.takeToken).pipe p = k.pipe p := rfl
  refine Machine.proceeds_instr (n := 6) rfl ?_
  simp only [exec, hpipe, if_neg hroom, List.cons_append, List.nil_append]
  refine (Machine.proceeds_semPost m _ _ _ ?_ ?_).append (l := 3) ?_
  · simp [Kernel.modSem, Kernel.modPipe, Sem.takeToken]
  · simp [Kernel.modSem, Kernel.modPipe, Sem.takeToken, hqueue]
  · rw [h.mutex_back]
    exact Machine.proceeds_semPost m _ _ _ h.canRead.1 h.canRead.2

/-- A call of `read_pipe` for one byte that is there. -/
theorem proceeds_takeOne {id : Nat} (h : Vacant k p) (hp : pipeOf k id = some p)
    (hbyte : (k.pipe p).dataCount ≠ 0) :
    (m.inHandler k r (.readPipe id 1 :: rest) log).Proceeds 15
      (m.inHandler (takeOne k p) { rax := 1, buf := [(k.pipe p).buffer (k.pipe p).readIdx] } rest
        (.semPosted (k.pipe p).canWrite :: .semPosted (k.pipe p).mutex ::
          .took p ((k.pipe p).buffer (k.pipe p).readIdx) :: .semReturned (k.pipe p).mutex 0 :: log)) := by
  obtain ⟨hlock, hcount, hqueue⟩ := h.mutex
  refine Machine.proceeds_instr (n := 14) rfl ?_
  simp only [exec, Nat.one_ne_zero, if_false, hp, List.cons_append, List.nil_append]
  refine Machine.proceeds_instr (n := 13) rfl ?_
  simp only [exec, List.length_nil, Nat.zero_lt_one, if_true, List.cons_append, List.nil_append]
  refine (Machine.proceeds_semWait m r _ _ hlock (by omega)).append (l := 9) ?_
  have hpipe : (k.modSem (k.pipe p).mutex Sem.takeToken).pipe p = k.pipe p := rfl
  refine Machine.proceeds_instr (n := 8) rfl ?_
  simp only [exec, hpipe, if_neg hbyte, List.cons_append, List.nil_append]
  refine (Machine.proceeds_semPost m _ _ _ ?_ ?_).append (l := 5) ?_
  · simp [Kernel.modSem, Kernel.modPipe, Sem.takeToken]
  · simp [Kernel.modSem, Kernel.modPipe, Sem.takeToken, hqueue]
  · rw [h.mutex_back]
    have hwrite : (k.modPipe p Pipe.take).sem (k.pipe p).canWrite = k.sem (k.pipe p).canWrite := rfl
    refine (Machine.proceeds_semPost m _ _ _ (hwrite ▸ h.canWrite.1) (hwrite ▸ h.canWrite.2)).append
      (l := 2) ?_
    refine Machine.proceeds_instr (n := 1) rfl ?_
    simp only [exec, List.length_singleton, Nat.lt_irrefl, if_false, toInt_of_lt (n := 1) (by decide)]
    exact Machine.proceeds_instr (n := 0) rfl (.refl _)

/-- **A full pipe** with a token left over in `can_write`: the writer takes the token and looks again. -/
theorem proceeds_waitOnce (h : Vacant k p) (hfull : (k.pipe p).dataCount = PIPE_BUFFER_SIZE)
    (hw : w < bytes.length) (htoken : 0 < (k.sem (k.pipe p).canWrite).count) : ∃ log',
    (m.inHandler k r (.writeLoop p bytes w :: rest) log).Proceeds 21
      (m.inHandler (waitOnce k p) { r with rax := 0 } (.writeLoop p bytes w :: rest) log') := by
  obtain ⟨hlock, hcount, hqueue⟩ := h.mutex
  refine ⟨.semPosted (k.pipe p).mutex :: .semReturned (k.pipe p).mutex 0 ::
    .semReturned (k.pipe p).canWrite 0 :: .semPosted (k.pipe p).mutex ::
    .semReturned (k.pipe p).mutex 0 :: log, Machine.proceeds_instr (n := 20) rfl ?_⟩
  simp only [exec, if_pos hw, List.cons_append, List.nil_append]
  refine (Machine.proceeds_semWait m r _ _ hlock (by omega)).append (l := 16) ?_
  have hpipe : (k.modSem (k.pipe p).mutex Sem.takeToken).pipe p = k.pipe p := rfl
  refine Machine.proceeds_instr (n := 15) rfl ?_
  simp only [exec, hpipe, if_pos hfull, List.cons_append, List.nil_append]
  refine (Machine.proceeds_semPost m _ _ _ ?_ ?_).append (l := 12) ?_
  · simp [Kernel.modSem, Kernel.modPipe, Sem.takeToken]
  · simp [Kernel.modSem, Kernel.modPipe, Sem.takeToken, hqueue]
  rw [h.mutex_back]
  have hwrite : (k.modPipe p Pipe.addWriter).sem (k.pipe p).canWrite = k.sem (k.pipe p).canWrite := rfl
  refine (Machine.proceeds_semWait m _ _ _ (hwrite ▸ h.canWrite.1) (hwrite ▸ htoken)).append (l := 8) ?_
  -- the kernel when the writer takes the mutex again
  set k1 := (k.modPipe p Pipe.addWriter).modSem (k.pipe p).canWrite Sem.takeToken with hk1
  have hadded : (k.modPipe p Pipe.addWriter).pipe p = (k.pipe p).addWriter := Function.update_self ..
  have hsame : (k1.pipe p).mutex = (k.pipe p).mutex := by
    rw [hk1, show ((k.modPipe p Pipe.addWriter).modSem _ _).pipe p = _ from hadded]
    rfl
  have h1 : Vacant k1 p := by
    refine (h.modPipe rfl).modSem (.inr ?_) fun _ => ⟨rfl, rfl⟩
    rw [hadded]
    rfl
  obtain ⟨hlock1, hcount1, hqueue1⟩ := h1.mutex
  have hback := h1.mutex_back Pipe.dropWriter
  rw [hsame] at hlock1 hcount1 hqueue1 hback
  refine (Machine.proceeds_semWait m _ _ _ hlock1 (by omega)).append (l := 4) ?_
  refine Machine.proceeds_instr (n := 3) rfl ?_
  simp only [exec, List.nil_append]
  refine (Machine.proceeds_semPost m _ _ _ ?_ ?_).append (l := 0) ?_
  · simp [Kernel.modSem, Kernel.modPipe, Sem.takeToken]
  · simpa [Kernel.modSem, Kernel.modPipe, Sem.takeToken] using hqueue1
  · rw [hback]
    exact .refl _

/-- What is left of the call of a writer that waits for room. -/
def waitsForRoom (k : Kernel) (p : Addr) (bytes : List UInt8) (w : Nat) : List Instr :=
  [.int20, .semWaitReturn (k.pipe p).canWrite 0, .semWait (k.pipe p).mutex, .writeWoken p,
    .semPost (k.pipe p).mutex, .writeLoop p bytes w]

/-- **A full pipe** without a token in `can_write` makes the writer wait, whoever is attached. -/
theorem proceeds_full {c : Addr} (h : Vacant k p) (hfull : (k.pipe p).dataCount = PIPE_BUFFER_SIZE)
    (hw : w < bytes.length) (hnone : (k.sem (k.pipe p).canWrite).count = 0)
    (hc : k.current = some c) (hb : (k.proc c).state ≠ .blocked) : ∃ k' r' log',
    (m.inHandler k r (.writeLoop p bytes w :: rest) log).Proceeds 12
        (m.inHandler k' r' (waitsForRoom k p bytes w ++ rest) log') ∧
      (k'.proc c).state = .blocked ∧ (k.allocOk = true → c ∈ waiters k' (k.pipe p).canWrite) ∧
      k'.pipes = k.pipes ∧ k'.pipe p = (k.pipe p).addWriter := by
  obtain ⟨hlock, hcount, hqueue⟩ := h.mutex
  obtain ⟨hwlock, hwqueue⟩ := h.canWrite
  -- the kernel when `sem_wait` is about to look at `can_write`
  set k1 := (k.modPipe p Pipe.addWriter).modSem (k.pipe p).canWrite
    (fun x => { x with lock := true }) with hk1
  have hself : k1.sem (k.pipe p).canWrite =
      { k.sem (k.pipe p).canWrite with lock := true } := by
    simp [hk1, Kernel.modSem, Kernel.modPipe]
  have hzero : (k1.sem (k.pipe p).canWrite).count = 0 := by rw [hself]; exact hnone
  have hstate : ((enqueueWaiter k1 (k.pipe p).canWrite c).proc c).state ≠ .blocked := by
    rwa [(enqueueWaiter_same k1 (k.pipe p).canWrite c).state c]
  have hbody : (semWaitBody k1 (k.pipe p).canWrite).1 = 0 ∧
      (semWaitBody k1 (k.pipe p).canWrite).2.1 = true ∧
      ((semWaitBody k1 (k.pipe p).canWrite).2.2.proc c).state = .blocked := by
    have hcur : k1.current = some c := hc
    simp only [semWaitBody, hzero, hcur, gt_iff_lt, Nat.lt_irrefl, if_false]
    refine ⟨trivial, ?_, processBlock_blocked _ c⟩
    simp [processBlock, hstate]
  have hobj := SameObjects.of_outside (semWaitBody_outside k1 (k.pipe p).canWrite)
  refine ⟨(semWaitBody k1 (k.pipe p).canWrite).2.2, { r with rax := 0 },
    .semPosted (k.pipe p).mutex :: .semReturned (k.pipe p).mutex 0 :: log, ?_, hbody.2.2, ?_,
    hobj.pipes.trans rfl, ?_⟩
  · refine Machine.proceeds_instr (n := 11) rfl ?_
    simp only [exec, if_pos hw, List.cons_append, List.nil_append]
    refine (Machine.proceeds_semWait m r _ _ hlock (by omega)).append (l := 7) ?_
    have hpipe : (k.modSem (k.pipe p).mutex Sem.takeToken).pipe p = k.pipe p := rfl
    refine Machine.proceeds_instr (n := 6) rfl ?_
    simp only [exec, hpipe, if_pos hfull, List.cons_append, List.nil_append]
    refine (Machine.proceeds_semPost m _ _ _ ?_ ?_).append (l := 3) ?_
    · simp [Kernel.modSem, Kernel.modPipe, Sem.takeToken]
    · simp [Kernel.modSem, Kernel.modPipe, Sem.takeToken, hqueue]
    · rw [h.mutex_back]
      refine Machine.proceeds_instr (n := 2) rfl (Machine.proceeds_instr (n := 1) rfl ?_)
      have hfree : ((k.modPipe p Pipe.addWriter).sem (k.pipe p).canWrite).lock = false := hwlock
      simp only [exec, hfree, Bool.false_eq_true, if_false, List.nil_append, ← hk1]
      refine Machine.proceeds_instr (n := 0) rfl ?_
      simp only [exec, hbody.1, hbody.2.1, if_true]
      exact .refl _
  · intro halloc
    refine (mem_waiters_semWaitBody hzero hc).mpr (.inl ⟨?_, halloc⟩)
    rw [hself]
    exact fun hnone => absurd (hwqueue.symm.trans hnone) (by simp)
  · rw [hobj.pipe]
    simp [hk1, Kernel.modSem, Kernel.modPipe]

end Turns

/-! ## What the pipe holds -/

/-- The pipe is vacant, in order, and these bytes wait in it. -/
structure Carries (k : Kernel) (p : Addr) (bytes : List UInt8) : Prop where
  vacant : Vacant k p
  ok : (k.pipe p).Ok
  waiting : (k.pipe p).waiting = bytes

theorem Pipe.length_waiting (p : Pipe) : p.waiting.length = p.dataCount := by
  simp [Pipe.waiting, RingBuffer.contents, Pipe.ring]

namespace Carries

variable {k : Kernel} {p : Addr} {bytes : List UInt8}

theorem dataCount (h : Carries k p bytes) : (k.pipe p).dataCount = bytes.length := by
  rw [← h.waiting, Pipe.length_waiting]

theorem putOne (h : Carries k p bytes) (hroom : bytes.length < PIPE_BUFFER_SIZE) (byte : UInt8) :
    Carries (putOne k p byte) p (bytes ++ [byte]) ∧ Within k (putOne k p byte) p := by
  have hpipe : (TpSo.putOne k p byte).pipe p = (k.pipe p).put byte := Function.update_self ..
  have hput : ((k.pipe p).put byte).sems = (k.pipe p).sems := rfl
  have hcount : (k.pipe p).ring.count < PIPE_BUFFER_SIZE := h.dataCount.trans_lt hroom
  have hread : (k.pipe p).canRead ∈ (k.pipe p).sems := by simp [Pipe.sems]
  refine ⟨⟨?_, ?_, ?_⟩, ?_⟩
  · exact h.vacant.putOne byte
  · rw [hpipe]
    exact RingBuffer.put_ok h.ok hcount byte
  · rw [hpipe, ← h.waiting]
    exact RingBuffer.contents_put h.ok hcount byte
  · refine (Within.modPipe k p hput).trans (Within.modSem _ ?_ _)
    rwa [(Within.modPipe k p hput).sems]

theorem takeOne {byte : UInt8} (h : Carries k p (byte :: bytes)) :
    Carries (takeOne k p) p bytes ∧ Within k (takeOne k p) p ∧
      (k.pipe p).buffer (k.pipe p).readIdx = byte := by
  have hpipe : (TpSo.takeOne k p).pipe p = (k.pipe p).take := Function.update_self ..
  have htake : (k.pipe p).take.sems = (k.pipe p).sems := rfl
  have hcount : 0 < (k.pipe p).ring.count := (Nat.succ_pos _).trans_eq h.dataCount.symm
  have hwrite : (k.pipe p).canWrite ∈ (k.pipe p).sems := by simp [Pipe.sems]
  obtain ⟨hbyte, hbytes⟩ := List.cons.inj ((RingBuffer.contents_take h.ok hcount).symm.trans h.waiting)
  refine ⟨⟨?_, ?_, ?_⟩, ?_, hbyte⟩
  · refine (h.vacant.modPipe htake).modSem (.inr ?_) fun _ => ⟨rfl, rfl⟩
    rw [show (k.modPipe p Pipe.take).pipe p = _ from hpipe]
    rfl
  · rw [hpipe]
    exact RingBuffer.take_ok h.ok hcount
  · rw [hpipe]
    exact hbytes
  · refine (Within.modPipe k p htake).trans (Within.modSem _ ?_ _)
    rwa [(Within.modPipe k p htake).sems]

theorem waitOnce (h : Carries k p bytes) : Carries (waitOnce k p) p bytes ∧ Within k (waitOnce k p) p ∧
    ((waitOnce k p).sem (k.pipe p).canWrite).count = (k.sem (k.pipe p).canWrite).count - 1 := by
  have hadd := Within.modPipe k p (Pipe.addWriter_sems (k.pipe p))
  set k1 := k.modPipe p Pipe.addWriter with hk1
  have hwrite : (k.pipe p).canWrite = (k1.pipe p).canWrite := by
    rw [hk1, show (k.modPipe p Pipe.addWriter).pipe p = _ from Function.update_self ..]
    rfl
  have hmem : (k.pipe p).canWrite ∈ (k1.pipe p).sems := by
    rw [hwrite]
    simp [Pipe.sems]
  have hdrop := Within.modPipe (k1.modSem (k.pipe p).canWrite Sem.takeToken) p (Pipe.dropWriter_sems _)
  have hring : ((TpSo.waitOnce k p).pipe p).ring = (k.pipe p).ring := by
    show (Function.update k1.pipe p (k1.pipe p).dropWriter p).ring = _
    rw [Function.update_self, Pipe.ring_dropWriter, hk1,
      show (k.modPipe p Pipe.addWriter).pipe p = _ from Function.update_self ..]
    unfold Pipe.addWriter Pipe.ring
    rfl
  refine ⟨⟨?_, ?_, ?_⟩, (hadd.trans (Within.modSem _ hmem _)).trans hdrop, ?_⟩
  · refine Vacant.modPipe ?_ (Pipe.dropWriter_sems _)
    exact (h.vacant.modPipe (Pipe.addWriter_sems _)).modSem (.inr hwrite) fun _ => ⟨rfl, rfl⟩
  · unfold Pipe.Ok
    rw [hring]
    exact h.ok
  · unfold Pipe.waiting
    rw [hring]
    exact h.waiting
  · show (Function.update k.sem (k.pipe p).canWrite (k.sem (k.pipe p).canWrite).takeToken _).count = _
    rw [Function.update_self]
    rfl

end Carries

/-! ## Many bytes -/

/-- The kernel once these bytes have been put. -/
def putAll (k : Kernel) (p : Addr) (bytes : List UInt8) : Kernel :=
  bytes.foldl (fun k byte => putOne k p byte) k

theorem putAll_take {bytes : List UInt8} {n : Nat} (k : Kernel) (p : Addr) (hn : n < bytes.length) :
    putAll k p (bytes.take (n + 1)) = putOne (putAll k p (bytes.take n)) p (bytes.getD n 0) := by
  have hbyte : bytes.getD n 0 = bytes[n] := by simp [hn]
  rw [List.take_succ_eq_append_getElem hn, hbyte]
  unfold putAll
  rw [List.foldl_append]
  rfl

theorem Vacant.putAll {k : Kernel} {p : Addr} (h : Vacant k p) (bytes : List UInt8) :
    Vacant (putAll k p bytes) p ∧
      ((TpSo.putAll k p bytes).pipe p).dataCount = (k.pipe p).dataCount + bytes.length := by
  induction bytes generalizing k with
  | nil => exact ⟨h, rfl⟩
  | cons byte bytes ih =>
      obtain ⟨hvacant, hcount⟩ := ih (h.putOne byte)
      have hput : ((TpSo.putOne k p byte).pipe p).dataCount = (k.pipe p).dataCount + 1 :=
        congrArg Pipe.dataCount (show (TpSo.putOne k p byte).pipe p = (k.pipe p).put byte from
          Function.update_self ..)
      refine ⟨hvacant, hcount.trans ?_⟩
      rw [hput, List.length_cons, Nat.add_right_comm, Nat.add_assoc]

theorem Carries.putAll {k : Kernel} {p : Addr} {held : List UInt8} (h : Carries k p held)
    (bytes : List UInt8) (hroom : held.length + bytes.length ≤ PIPE_BUFFER_SIZE) :
    Carries (putAll k p bytes) p (held ++ bytes) ∧ Within k (TpSo.putAll k p bytes) p := by
  induction bytes generalizing k held with
  | nil => exact ⟨(List.append_nil held).symm ▸ h, .refl k p⟩
  | cons byte bytes ih =>
      rw [List.length_cons] at hroom
      obtain ⟨hput, hwithin⟩ := h.putOne (by omega) byte
      obtain ⟨hall, hwithin'⟩ := ih hput (by rw [List.length_append, List.length_singleton]; omega)
      rw [List.append_assoc] at hall
      exact ⟨hall, hwithin.trans hwithin'⟩

/-- What has been passed to `printToFd`, oldest first: the descriptor and the byte. -/
def printed (log : List Event) : List (Nat × UInt8) :=
  (log.filterMap fun e => match e with | .printed id byte => some (id, byte) | _ => none).reverse

section Loops
variable (m : Machine) {k : Kernel} (r : Regs) {p : Addr} {bytes held : List UInt8}
  (rest : List Instr) (log : List Event)

/-- **The loop of `write_pipe`** puts byte after byte. -/
theorem proceeds_fill (h : Vacant k p) (n : Nat) (hroom : (k.pipe p).dataCount + n ≤ PIPE_BUFFER_SIZE)
    (hn : n ≤ bytes.length) : ∃ r' log', printed log' = printed log ∧
      (m.inHandler k r (.writeLoop p bytes 0 :: rest) log).Proceeds (12 * n)
        (m.inHandler (putAll k p (bytes.take n)) r' (.writeLoop p bytes n :: rest) log') := by
  induction n with
  | zero => exact ⟨r, log, rfl, .refl _⟩
  | succ n ih =>
      obtain ⟨r', log', hprinted, hrun⟩ := ih (by omega) (by omega)
      obtain ⟨hvacant, hcount⟩ := h.putAll (bytes.take n)
      rw [List.length_take_of_le (by omega)] at hcount
      have hturn := proceeds_putOne m r' rest log' hvacant (by omega) (show n < bytes.length by omega)
      rw [putAll_take k p (by omega)]
      refine ⟨_, _, ?_, hrun.append hturn⟩
      exact hprinted

/-- **The loop of `write`** prints the bytes that are in the pipe. -/
theorem proceeds_drain {id w : Nat} (h : Carries k p bytes) (hp : pipeOf k id = some p) :
    ∃ k' r' log' n, Carries k' p [] ∧ Within k k' p ∧ r'.rax = (w : Int) ∧
      printed log' = printed log ++ bytes.map (Prod.mk id) ∧
      (m.inHandler k r (.writeDrain id bytes.length w :: rest) log).Proceeds n
        (m.inHandler k' r' rest log') := by
  induction bytes generalizing k r log with
  | nil =>
      refine ⟨k, { r with rax := w }, log, 1, h, .refl k p, rfl, (List.append_nil _).symm, ?_⟩
      refine Machine.proceeds_instr (n := 0) rfl ?_
      simp only [exec, List.length_nil, if_true, List.nil_append]
      exact .refl _
  | cons byte bytes ih =>
      obtain ⟨htake, hwithin, hbyte⟩ := h.takeOne
      have hturn := proceeds_takeOne m r (.writeDrained id bytes.length w :: rest) log h.vacant hp
        (by rw [h.dataCount]; exact Nat.succ_ne_zero _)
      rw [hbyte] at hturn
      have hp' : pipeOf (takeOne k p) id = some p := by
        rw [← hp]
        unfold pipeOf
        rw [hwithin.pipes]
      obtain ⟨k', r', log', n, hholds, hwithin', hrax, hprinted, hrun⟩ :=
        ih { rax := 1, buf := [byte] } (.printed id byte :: .semPosted (k.pipe p).canWrite ::
          .semPosted (k.pipe p).mutex :: .took p byte :: .semReturned (k.pipe p).mutex 0 :: log) htake hp'
      refine ⟨k', r', log', 1 + (15 + (1 + n)), hholds, hwithin.trans hwithin', hrax, ?_, ?_⟩
      · rw [hprinted]
        simp [printed]
      · rw [Nat.add_comm 1]
        refine Machine.proceeds_instr rfl ?_
        simp only [exec, List.length_cons, Nat.succ_ne_zero, if_false, List.cons_append,
          List.nil_append, Nat.add_sub_cancel]
        refine hturn.append ?_
        rw [Nat.add_comm 1]
        exact Machine.proceeds_instr rfl hrun

/-- **The loop of `write_pipe` on a full pipe** uses up the tokens of `can_write`, and then gives the
    processor away. -/
theorem proceeds_blocks {c : Addr} {w t : Nat} (h : Carries k p held)
    (hfull : held.length = PIPE_BUFFER_SIZE) (hw : w < bytes.length) (hc : k.current = some c)
    (hb : (k.proc c).state ≠ .blocked) (ht : (k.sem (k.pipe p).canWrite).count = t) :
    ∃ k' r' code log' n, (m.inHandler k r (.writeLoop p bytes w :: rest) log).Proceeds n
      (m.inHandler k' r' (.int20 :: code) log') := by
  have hcount : (k.pipe p).dataCount = PIPE_BUFFER_SIZE := h.dataCount.trans hfull
  induction t generalizing k r log with
  | zero =>
      obtain ⟨k', r', log', hrun, -⟩ := proceeds_full m r rest log h.vacant hcount hw ht hc hb
      exact ⟨k', r', _, log', _, hrun⟩
  | succ t ih =>
      obtain ⟨log1, hturn⟩ := proceeds_waitOnce m r rest log h.vacant hcount hw (by omega)
      obtain ⟨hholds, hwithin, htoken⟩ := h.waitOnce
      have hwrite : ((waitOnce k p).pipe p).canWrite = (k.pipe p).canWrite :=
        congrArg (fun sems => sems.getD 1 0) hwithin.sems
      obtain ⟨k', r', code, log', n, hrun⟩ := ih { r with rax := 0 } log1 hholds
        (by rw [hwithin.current]; exact hc) (by rw [hwithin.proc]; exact hb)
        (by rw [hwrite, htoken]; omega) (hholds.dataCount.trans hfull)
      exact ⟨k', r', code, log', _, hturn.append hrun⟩

end Loops

end TpSo
