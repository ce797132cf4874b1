import Mathlib.Data.List.Infix
import TpSo.Mvar.Program

set_option autoImplicit false

/-! # What a run delivers

The two semaphores of a run hold one token between them: it lies in `empty`, in `full`, or a writer or
reader of the run has it. Where it is says whether a value has been put and not been read yet. -/

namespace TpSo

namespace Mvar

/-! ## The condition -/

namespace State

/-- A value of the run `r` has been put and not been read. -/
def Unread (s : State) (r : Nat) : Prop := s.reads r ≠ s.puts r

/-- Each run makes its semaphores itself, and a put changes `mvar_var` only while no other run has a value
    in it. -/
def KeepsApart (s : State) : Action → Prop
  | .command _ _ _ => True
  | .run r _ => ∀ x, s.runs r = some x →
      (x.pc = .openEmpty → s.sems (emptyName x.runId) = none) ∧
      (x.pc = .openFull → s.sems (fullName x.runId) = none)
  | .worker w => ∀ y, s.workers w = some y → y.pc = .access → y.role = .writer →
      ∀ r, r ≠ y.run → s.Unread r → s.var = y.id

end State

theorem Run.emptyOpen_of_fullOpen (x : Run) (h : x.fullOpen) : x.emptyOpen := by
  unfold Run.fullOpen at h
  unfold Run.emptyOpen
  cases hpc : x.pc <;> rw [hpc] at h <;> first | rfl | cases h

/-! ## The token -/

/-- The two semaphores of a run. -/
inductive Half
  | empty | full
  deriving DecidableEq

/-- Where the token of a run is. -/
inductive Token
  | lies (half : Half)
  | held (w : Nat)
  deriving DecidableEq

/-- The semaphore the process takes the token from. -/
def Role.source : Role → Half
  | .writer => .empty
  | .reader => .full

/-- The semaphore it gives it back to. -/
def Role.target : Role → Half
  | .writer => .full
  | .reader => .empty

/-- The names a process was given. -/
def Worker.name (y : Worker) : Half → Name
  | .empty => y.emptyName
  | .full => y.fullName

/-- The process has the token of its run. -/
def Worker.holds (y : Worker) : Prop := y.pc = .access ∨ y.pc = .print ∨ y.pc = .post

/-- The run `r` has opened its semaphore, of the name `n`. -/
def State.Opened (s : State) (r : Nat) (half : Half) (n : Name) : Prop :=
  ∃ x, s.runs r = some x ∧
    match half with
    | .empty => x.emptyOpen ∧ n = emptyName x.runId
    | .full => x.fullOpen ∧ n = fullName x.runId

/-- What the values of a run are like. -/
inductive Stage
  /-- All values have been read and printed. -/
  | read
  /-- The last one put has not been read. -/
  | put
  /-- The last one read has not been printed. -/
  | printing (value : Char)

/-- The stage while this process has the token. -/
def Worker.stage (y : Worker) : Stage :=
  match y.role, y.pc with
  | .writer, .post | .reader, .access => .put
  | .reader, .print => .printing y.value
  | _, _ => .read

/-- The stage while the token lies in a semaphore. -/
def Half.stage : Half → Stage
  | .empty => .read
  | .full => .put

/-- The stage of a run. -/
def State.stage (s : State) : Token → Stage
  | .lies half => half.stage
  | .held w => ((s.workers w).map Worker.stage).getD .read

/-- The values of a run at a stage; `var` is `mvar_var`. -/
def Stage.Fits (var : Char) (puts reads prints : List Char) : Stage → Prop
  | .read => puts = reads ∧ reads = prints
  | .put => puts = reads ++ [var] ∧ reads = prints
  | .printing value => puts = reads ∧ reads = prints ++ [value]

theorem Worker.stage_access {y : Worker} (hpc : y.pc = .access) : y.stage = y.role.source.stage := by
  cases hrole : y.role <;> simp [stage, hpc, hrole, Role.source, Half.stage]

theorem Worker.stage_post {y : Worker} (hpc : y.pc = .post) : y.stage = y.role.target.stage := by
  cases hrole : y.role <;> simp [stage, hpc, hrole, Role.target, Half.stage]

theorem State.stage_held {s : State} {w : Nat} {y : Worker} (hw : s.workers w = some y) :
    s.stage (.held w) = y.stage := by
  simp only [stage, hw, Option.map_some, Option.getD_some]

/-- The stage does not depend on who has no token. -/
theorem State.stage_congr {s s' : State} {w : Nat} {t : Token} (ht : t ≠ .held w)
    (hworkers : ∀ v, v ≠ w → s'.workers v = s.workers v) : s'.stage t = s.stage t := by
  cases t with
  | lies half => rfl
  | held v =>
      have hv : v ≠ w := fun he => ht (he ▸ rfl)
      simp only [State.stage, hworkers v hv]

/-! ## The invariant -/

/-- One run, whose token is at `t`. -/
structure Turn (s : State) (r : Nat) (t : Token) : Prop where
  count : ∀ half n, s.Opened r half n → s.sems n = some (if t = .lies half then 1 else 0)
  closed : (∀ n, ¬ s.Opened r .full n) → t = .lies .empty
  held : ∀ w y, s.workers w = some y → y.run = r → (y.holds ↔ t = .held w)
  holder : ∀ w, t = .held w → ∃ y, s.workers w = some y ∧ y.run = r
  values : (s.stage t).Fits s.var (s.puts r) (s.reads r) (s.prints r)

/-- **The invariant.** -/
structure Delivers (s : State) : Prop where
  turn : ∀ r, ∃ t, Turn s r t
  /-- A writer or reader has the names of its run's semaphores. -/
  child : ∀ w y, s.workers w = some y → ∀ half, s.Opened y.run half (y.name half)
  /-- No two runs have a semaphore in common, and no run has the same one twice. -/
  apart : ∀ r half r' half' n, s.Opened r half n → s.Opened r' half' n → r = r' ∧ half = half'

namespace Turn

variable {s s' : State} {r : Nat} {t : Token}

/-- Nothing of the run has changed, and `mvar_var` only if no value of the run is in it. -/
theorem frame (h : Turn s r t) (hopened : ∀ half n, s'.Opened r half n ↔ s.Opened r half n)
    (hsems : ∀ half n, s.Opened r half n → s'.sems n = s.sems n)
    (hworkers : ∀ w y, y.run = r → (s'.workers w = some y ↔ s.workers w = some y))
    (hvalues : s'.puts r = s.puts r ∧ s'.reads r = s.reads r ∧ s'.prints r = s.prints r)
    (hvar : s.Unread r → s'.var = s.var) : Turn s' r t := by
  have hstage : s'.stage t = s.stage t := by
    cases t with
    | lies half => rfl
    | held w =>
        obtain ⟨y, hy, hr⟩ := h.holder w rfl
        rw [State.stage_held hy, State.stage_held ((hworkers w y hr).mpr hy)]
  refine ⟨fun half n ho => ?_, fun hc => ?_, fun w y hy hr => ?_, fun w hw => ?_, ?_⟩
  · rw [hopened half n] at ho
    exact (hsems half n ho).trans (h.count half n ho)
  · exact h.closed fun n ho => hc n ((hopened .full n).mpr ho)
  · exact h.held w y ((hworkers w y hr).mp hy) hr
  · obtain ⟨y, hy, hr⟩ := h.holder w hw
    exact ⟨y, (hworkers w y hr).mpr hy, hr⟩
  · have hfits := h.values
    rw [hstage, hvalues.1, hvalues.2.1, hvalues.2.2]
    cases hst : s.stage t with
    | read | printing _ =>
        rw [hst] at hfits
        exact hfits
    | put =>
        rw [hst] at hfits
        obtain ⟨hputs, hreads⟩ := hfits
        have hunread : s.Unread r := by
          intro he
          rw [he] at hputs
          exact absurd hputs (by simp)
        exact ⟨(hvar hunread).symm ▸ hputs, hreads⟩

/-- A writer or reader of the run goes on: the token goes from `t` to `t'`, and nobody else has it. -/
theorem goesOn (h : Turn s r t) {w : Nat} (y' : Worker) {t' : Token}
    (hfull : ∃ n, s.Opened r .full n) (hruns : s'.runs = s.runs)
    (hworkers : s'.workers = Function.update s.workers w (some y')) (hr' : y'.run = r)
    (hsems : ∀ half n, s.Opened r half n → s'.sems n = some (if t' = .lies half then 1 else 0))
    (hself : y'.holds ↔ t' = .held w) (hothers : ∀ v, v ≠ w → (t' = .held v ↔ t = .held v))
    (hvalues : (s'.stage t').Fits s'.var (s'.puts r) (s'.reads r) (s'.prints r)) : Turn s' r t' := by
  have hwself : s'.workers w = some y' := by
    rw [hworkers, Function.update_self]
  have hwother : ∀ v, v ≠ w → s'.workers v = s.workers v := fun v hv => by
    rw [hworkers, Function.update_of_ne hv]
  have hopened : ∀ half n, s'.Opened r half n ↔ s.Opened r half n := fun half n => by
    unfold State.Opened
    rw [hruns]
  refine ⟨fun half n ho => hsems half n ((hopened half n).mp ho), fun hc => ?_, fun v z hz hzr => ?_,
    fun v hv => ?_, hvalues⟩
  · obtain ⟨n, hn⟩ := hfull
    exact absurd ((hopened .full n).mpr hn) (hc n)
  · by_cases hvw : v = w
    · subst hvw
      cases hwself.symm.trans hz
      exact hself
    · rw [hwother v hvw] at hz
      rw [h.held v z hz hzr, hothers v hvw]
  · by_cases hvw : v = w
    · subst hvw
      exact ⟨y', hwself, hr'⟩
    · obtain ⟨z, hz, hzr⟩ := h.holder v ((hothers v hvw).mp hv)
      exact ⟨z, (hwother v hvw).trans hz, hzr⟩

end Turn

namespace Delivers

variable {s s' : State}

/-! ## Steps of a writer or reader -/

/-- **The rule for a step of a writer or reader** of the run `y.run`. -/
theorem goesOn (h : Delivers s) {w : Nat} {y : Worker} (hw : s.workers w = some y) (y' : Worker)
    (hruns : s'.runs = s.runs) (hworkers : s'.workers = Function.update s.workers w (some y'))
    (hsame : y'.run = y.run ∧ y'.name = y.name)
    (hsems : ∀ n, (∀ half, n ≠ y.name half) → s'.sems n = s.sems n)
    (hvalues : ∀ r, r ≠ y.run →
      s'.puts r = s.puts r ∧ s'.reads r = s.reads r ∧ s'.prints r = s.prints r)
    (hvar : ∀ r, r ≠ y.run → s.Unread r → s'.var = s.var)
    (hturn : ∀ t, Turn s y.run t → ∃ t', Turn s' y.run t') : Delivers s' := by
  have hwother : ∀ v, v ≠ w → s'.workers v = s.workers v := fun v hv => by
    rw [hworkers, Function.update_of_ne hv]
  have hwself : s'.workers w = some y' := by
    rw [hworkers, Function.update_self]
  have hopened : ∀ r half n, s'.Opened r half n ↔ s.Opened r half n := fun r half n => by
    unfold State.Opened
    rw [hruns]
  refine ⟨fun r => ?_, fun v z hz half => ?_, fun r half r' half' n hn hn' => ?_⟩
  · obtain ⟨t, ht⟩ := h.turn r
    by_cases hr : r = y.run
    · subst hr
      exact hturn t ht
    · refine ⟨t, ht.frame (hopened r) (fun half n hn => ?_) (fun v z hz => ?_) (hvalues r hr) (hvar r hr)⟩
      · refine hsems n fun half' hne => hr ?_
        exact (h.apart r half y.run half' n hn (hne ▸ h.child w y hw half')).1
      · by_cases hv : v = w
        · subst hv
          refine ⟨fun he => ?_, fun he => ?_⟩
          · cases hwself.symm.trans he
            exact absurd (hz.symm.trans hsame.1) hr
          · cases hw.symm.trans he
            exact absurd hz.symm hr
        · rw [hwother v hv]
  · rw [hopened]
    by_cases hv : v = w
    · subst hv
      cases hwself.symm.trans hz
      rw [hsame.1, hsame.2]
      exact h.child v y hw half
    · rw [hwother v hv] at hz
      exact h.child v z hz half
  · rw [hopened] at hn hn'
    exact h.apart r half r' half' n hn hn'

/-- `semOpen` changes nothing the run can see. -/
theorem opens (h : Delivers s) {w : Nat} {y : Worker} (hw : s.workers w = some y) (hpc : y.pc = .opens) :
    Delivers (s.setWorker w { y with pc := .wait }) := by
  refine h.goesOn hw { y with pc := .wait } rfl rfl ⟨rfl, rfl⟩ (fun _ _ => rfl)
    (fun _ _ => ⟨rfl, rfl, rfl⟩) (fun _ _ _ => rfl) fun t ht => ⟨t, ?_⟩
  have hnot : t ≠ .held w := by
    rw [Ne, ← ht.held w y hw rfl]
    simp [Worker.holds, hpc]
  refine ht.goesOn { y with pc := .wait } ⟨_, h.child w y hw .full⟩ rfl rfl rfl ht.count ?_
    (fun _ _ => Iff.rfl) ?_
  · refine ⟨fun hh => ?_, fun hh => absurd hh hnot⟩
    simp [Worker.holds] at hh
  · rw [State.stage_congr hnot fun v hv => Function.update_of_ne hv ..]
    exact ht.values

/-- What a semaphore of the run counts once it has been written to. -/
theorem count_setSem (h : Delivers s) {w : Nat} {y : Worker} (hw : s.workers w = some y) {t t' : Token}
    (ht : Turn s y.run t) {half : Half} {count : Nat}
    (hself : count = if t' = .lies half then 1 else 0)
    (hother : ∀ other, other ≠ half → (t' = .lies other ↔ t = .lies other)) (half' : Half) (n : Name)
    (hn : s.Opened y.run half' n) :
    (s.setSem (y.name half) count).sems n = some (if t' = .lies half' then 1 else 0) := by
  by_cases hne : n = y.name half
  · subst hne
    cases (h.apart _ _ _ _ _ hn (h.child w y hw half)).2
    rw [← hself]
    exact Function.update_self ..
  · have hhalf : half' ≠ half := by
      rintro rfl
      -- the run has one name for each of its semaphores
      obtain ⟨x, hx, ho⟩ := hn
      obtain ⟨x', hx', ho'⟩ := h.child w y hw half'
      cases hx.symm.trans hx'
      cases half' with
      | empty => exact hne (ho.2.trans ho'.2.symm)
      | full => exact hne (ho.2.trans ho'.2.symm)
    have hcount := ht.count half' n hn
    simp only [← hother half' hhalf] at hcount
    exact (Function.update_of_ne hne ..).trans hcount

/-- `semWait` takes the token out of the semaphore. -/
theorem takes (h : Delivers s) {w : Nat} {y : Worker} (hw : s.workers w = some y)
    {name : Name} (hname : name = y.name y.role.source)
    (hs : (s.semWait name).map (fun s => s.setWorker w { y with pc := .access }) = some s') :
    Delivers s' := by
  subst hname
  obtain ⟨s1, hwait, rfl⟩ := Option.map_eq_some_iff.mp hs
  obtain ⟨count, hcount, rfl⟩ : ∃ count, s.sems (y.name y.role.source) = some (count + 1) ∧
      s.setSem (y.name y.role.source) count = s1 := by
    unfold State.semWait at hwait
    split at hwait
    · next count hc => exact ⟨count, hc, Option.some.inj hwait⟩
    · cases hwait
  refine h.goesOn hw { y with pc := .access } rfl rfl ⟨rfl, rfl⟩
    (fun n hn => Function.update_of_ne (hn _) ..) (fun _ _ => ⟨rfl, rfl, rfl⟩) (fun _ _ _ => rfl)
    fun t ht => ⟨.held w, ?_⟩
  rw [ht.count _ _ (h.child w y hw _)] at hcount
  have htoken : t = .lies y.role.source := by
    by_contra hno
    simp [hno] at hcount
  subst htoken
  have hzero : count = 0 := by simpa using hcount.symm
  refine ht.goesOn { y with pc := .access } ⟨_, h.child w y hw .full⟩ rfl rfl rfl ?_ ?_ ?_ ?_
  · refine h.count_setSem hw ht ?_ fun other hother => ?_
    · rw [hzero]
      rfl
    · simp [Ne.symm hother]
  · simp [Worker.holds]
  · intro v hv
    simp [Ne.symm hv]
  · rw [State.stage_held (Function.update_self ..), Worker.stage_access rfl]
    exact ht.values

/-- `semPost` gives the token back. -/
theorem givesBack (h : Delivers s) {w : Nat} {y : Worker} (hw : s.workers w = some y) (hpc : y.pc = .post)
    {name : Name} (hname : name = y.name y.role.target)
    (hs : (s.semPost name).map (fun s => s.setWorker w { y with pc := .wait }) = some s') :
    Delivers s' := by
  subst hname
  obtain ⟨s1, hpost, rfl⟩ := Option.map_eq_some_iff.mp hs
  obtain ⟨count, hcount, rfl⟩ := Option.map_eq_some_iff.mp hpost
  refine h.goesOn hw { y with pc := .wait } rfl rfl ⟨rfl, rfl⟩
    (fun n hn => Function.update_of_ne (hn _) ..) (fun _ _ => ⟨rfl, rfl, rfl⟩) (fun _ _ _ => rfl)
    fun t ht => ⟨.lies y.role.target, ?_⟩
  have htoken : t = .held w := (ht.held w y hw rfl).mp (.inr (.inr hpc))
  subst htoken
  rw [ht.count _ _ (h.child w y hw _)] at hcount
  have hzero : count = 0 := by simpa using hcount.symm
  have hvalues := ht.values
  rw [State.stage_held hw, Worker.stage_post hpc] at hvalues
  refine ht.goesOn { y with pc := .wait } ⟨_, h.child w y hw .full⟩ rfl rfl rfl ?_ ?_ ?_ hvalues
  · refine h.count_setSem hw ht ?_ fun other hother => ?_
    · rw [hzero]
      simp
    · simp [Ne.symm hother]
  · simp [Worker.holds]
  · intro v hv
    simp [Ne.symm hv]

/-- A step with the token: the values change as the stage says. -/
theorem keeps (h : Delivers s) {w : Nat} {y : Worker} (hw : s.workers w = some y) (y' : Worker)
    (hholds : y.holds) (hholds' : y'.holds) (hruns : s'.runs = s.runs) (hsems : s'.sems = s.sems)
    (hworkers : s'.workers = Function.update s.workers w (some y'))
    (hsame : y'.run = y.run ∧ y'.name = y.name)
    (hothers : ∀ r, r ≠ y.run →
      s'.puts r = s.puts r ∧ s'.reads r = s.reads r ∧ s'.prints r = s.prints r)
    (hvar : ∀ r, r ≠ y.run → s.Unread r → s'.var = s.var)
    (hvalues : y.stage.Fits s.var (s.puts y.run) (s.reads y.run) (s.prints y.run) →
      y'.stage.Fits s'.var (s'.puts y.run) (s'.reads y.run) (s'.prints y.run)) : Delivers s' := by
  refine h.goesOn hw y' hruns hworkers hsame (fun n _ => by rw [hsems]) hothers hvar fun t ht => ?_
  have htoken : t = .held w := (ht.held w y hw rfl).mp hholds
  subst htoken
  have hself : s'.workers w = some y' := by
    rw [hworkers, Function.update_self]
  have hfits := ht.values
  rw [State.stage_held hw] at hfits
  refine ⟨.held w, ht.goesOn y' ⟨_, h.child w y hw .full⟩ hruns hworkers hsame.1 ?_ ?_ (fun _ _ => Iff.rfl) ?_⟩
  · rw [hsems]
    exact ht.count
  · exact ⟨fun _ => rfl, fun _ => hholds'⟩
  · rw [State.stage_held hself]
    exact hvalues hfits

/-- **A step of a writer or reader.** -/
theorem worker (h : Delivers s) {w : Nat} {y : Worker} (hw : s.workers w = some y)
    (hg : y.pc = .access → y.role = .writer → ∀ r, r ≠ y.run → s.Unread r → s.var = y.id)
    (hs : s.workerStep w y = some s') : Delivers s' := by
  have hother : ∀ {f : Nat → List Char} {v : List Char} (r : Nat), r ≠ y.run →
      Function.update f y.run v r = f r := fun r hr => Function.update_of_ne hr ..
  unfold State.workerStep at hs
  split at hs
  · next _ hpc =>
    cases hs
    exact h.opens hw hpc
  · next _ hrole => exact h.takes hw (by rw [hrole]; rfl) hs
  · next _ hrole => exact h.takes hw (by rw [hrole]; rfl) hs
  · next hpc hrole =>
    cases hs
    refine h.keeps hw { y with pc := .post } (.inl hpc) (.inr (.inr rfl)) rfl rfl rfl ⟨rfl, rfl⟩
      (fun r hr => ⟨hother r hr, rfl, rfl⟩) (fun r hr hun => (hg hpc hrole r hr hun).symm) fun hfits => ?_
    simp only [Worker.stage, hpc, hrole, Stage.Fits, State.setWorker, Function.update_self] at hfits ⊢
    exact ⟨by rw [hfits.1], hfits.2⟩
  · next hpc hrole =>
    cases hs
    refine h.keeps hw { y with pc := .print, value := s.var } (.inl hpc) (.inr (.inl rfl)) rfl rfl rfl
      ⟨rfl, rfl⟩ (fun r hr => ⟨rfl, hother r hr, rfl⟩) (fun _ _ _ => rfl) fun hfits => ?_
    simp only [Worker.stage, hpc, hrole, Stage.Fits, State.setWorker, Function.update_self] at hfits ⊢
    exact ⟨hfits.1, by rw [hfits.2]⟩
  · cases hs
  · next hpc hrole =>
    cases hs
    refine h.keeps hw { y with pc := .post } (.inr (.inl hpc)) (.inr (.inr rfl)) rfl rfl rfl
      ⟨rfl, rfl⟩ (fun r hr => ⟨rfl, rfl, hother r hr⟩) (fun _ _ _ => rfl) fun hfits => ?_
    simp only [Worker.stage, hpc, hrole, Stage.Fits, State.setWorker, Function.update_self] at hfits ⊢
    exact hfits
  · next hpc hrole => exact h.givesBack hw hpc (by rw [hrole]; rfl) hs
  · next hpc hrole => exact h.givesBack hw hpc (by rw [hrole]; rfl) hs

/-! ## Steps of `mvar` -/

/-- **The rule for a step of `mvar`** that opens no semaphore. -/
theorem setRun (h : Delivers s) {r : Nat} {x' : Run} (counter : Nat)
    (hopened : ∀ half n, (s.setRun r x').Opened r half n ↔ s.Opened r half n) :
    Delivers { s.setRun r x' with runCounter := counter } := by
  have hopened' : ∀ a half n, (s.setRun r x').Opened a half n ↔ s.Opened a half n := by
    intro a half n
    by_cases ha : a = r
    · rw [ha]
      exact hopened half n
    · unfold State.Opened State.setRun
      simp only [Function.update_of_ne ha]
  refine ⟨fun a => ?_, fun w y hw half => ?_, fun a half b half' n hn hn' => ?_⟩
  · obtain ⟨t, ht⟩ := h.turn a
    exact ⟨t, ht.frame (hopened' a) (fun _ _ _ => rfl) (fun _ _ _ => Iff.rfl) ⟨rfl, rfl, rfl⟩ fun _ => rfl⟩
  · exact (hopened' _ _ _).mpr (h.child w y hw half)
  · exact h.apart a half b half' n ((hopened' _ _ _).mp hn) ((hopened' _ _ _).mp hn')

/-- `semOpen` makes the semaphore `half` of the run, whose name nobody uses yet. -/
theorem semOpen (h : Delivers s) {r : Nat} {x' : Run} (half : Half) {name : Name}
    (hname : s.sems name = none) (hclosed : ∀ n, ¬ s.Opened r .full n)
    (hopened : ∀ other n, (s.setRun r x').Opened r other n ↔
      s.Opened r other n ∨ other = half ∧ n = name) :
    Delivers ((s.semOpen name (if half = .empty then 1 else 0)).setRun r x') := by
  have hsem : s.semOpen name (if half = .empty then 1 else 0) =
      s.setSem name (if half = .empty then 1 else 0) := by
    unfold State.semOpen
    rw [hname]
  rw [hsem]
  have hopened' : ∀ a other n,
      ((s.setSem name (if half = .empty then 1 else 0)).setRun r x').Opened a other n ↔
        s.Opened a other n ∨ a = r ∧ other = half ∧ n = name := by
    intro a other n
    by_cases ha : a = r
    · rw [ha]
      exact (hopened other n).trans (by simp)
    · simp only [ha, false_and, or_false]
      unfold State.Opened State.setRun State.setSem
      simp only [Function.update_of_ne ha]
  -- whatever is open already has another name
  have hold : ∀ a other n, s.Opened a other n → n ≠ name := by
    rintro a other n hn rfl
    obtain ⟨t, ht⟩ := h.turn a
    cases hname.symm.trans (ht.count other n hn)
  have hsems : ∀ n, n ≠ name →
      ((s.setSem name (if half = .empty then 1 else 0)).setRun r x').sems n = s.sems n := fun n hn =>
    Function.update_of_ne hn ..
  refine ⟨fun a => ?_, fun w y hw other => ?_, fun a other b other' n hn hn' => ?_⟩
  · obtain ⟨t, ht⟩ := h.turn a
    by_cases ha : a = r
    · subst ha
      have htoken := ht.closed hclosed
      refine ⟨t, fun other n hn => ?_, fun _ => htoken, ht.held, ht.holder, ?_⟩
      · rcases (hopened' _ _ _).mp hn with hn | ⟨-, rfl, rfl⟩
        · rw [hsems n (hold _ _ _ hn)]
          exact ht.count other n hn
        · rw [htoken]
          refine (Function.update_self ..).trans ?_
          cases other <;> rfl
      · have hvalues := ht.values
        rw [htoken] at hvalues ⊢
        exact hvalues
    · refine ⟨t, ht.frame (fun other n => ?_) (fun other n hn => hsems n (hold _ _ _ hn))
        (fun _ _ _ => Iff.rfl) ⟨rfl, rfl, rfl⟩ fun _ => rfl⟩
      rw [hopened' a other n]
      simp [ha]
  · exact (hopened' _ _ _).mpr (.inl (h.child w y hw other))
  · rcases (hopened' _ _ _).mp hn with h1 | ⟨ha, hother, hna⟩
    · rcases (hopened' _ _ _).mp hn' with h2 | ⟨-, -, hnb⟩
      · exact h.apart a other b other' n h1 h2
      · exact absurd hnb (hold _ _ _ h1)
    · rcases (hopened' _ _ _).mp hn' with h2 | ⟨hb, hother', -⟩
      · exact absurd hna (hold _ _ _ h2)
      · exact ⟨ha.trans hb.symm, hother.trans hother'.symm⟩

/-- `processCreate` makes a writer or reader at its first line. -/
theorem create (h : Delivers s) {created : Option Nat} {y : Worker} (hpc : y.pc = .opens)
    (hnames : ∀ half, s.Opened y.run half (y.name half)) (hs : s.create created y = some s') :
    Delivers s' := by
  cases created with
  | none =>
      cases hs
      exact h
  | some w =>
      obtain ⟨hfree, hs⟩ := Option.ite_none_right_eq_some.mp hs
      cases hs
      have hnone : s.workers w = none := by simpa using hfree
      have hworkers : ∀ v z, (s.setWorker w y).workers v = some z ↔
          v = w ∧ z = y ∨ s.workers v = some z := by
        intro v z
        by_cases hv : v = w
        · subst hv
          rw [show (s.setWorker v y).workers v = some y from Function.update_self .., hnone]
          simp [eq_comm]
        · rw [show (s.setWorker w y).workers v = s.workers v from Function.update_of_ne hv ..]
          simp [hv]
      refine ⟨fun r => ?_, fun v z hv half => ?_, h.apart⟩
      · obtain ⟨t, ht⟩ := h.turn r
        have hnot : t ≠ .held w := by
          intro htw
          obtain ⟨z, hz, -⟩ := ht.holder w htw
          cases hnone.symm.trans hz
        refine ⟨t, ht.count, ht.closed, fun v z hv hr => ?_, fun v htv => ?_, ?_⟩
        · rcases (hworkers v z).mp hv with ⟨rfl, rfl⟩ | hv
          · simp [Worker.holds, hpc, hnot]
          · exact ht.held v z hv hr
        · obtain ⟨z, hz, hr⟩ := ht.holder v htv
          exact ⟨z, (hworkers v z).mpr (.inr hz), hr⟩
        · rw [State.stage_congr hnot fun v hv => Function.update_of_ne hv ..]
          exact ht.values
      · rcases (hworkers v z).mp hv with ⟨rfl, rfl⟩ | hv
        · exact hnames half
        · exact h.child v z hv half

/-- The semaphores a run has open. -/
theorem opened_iff {r : Nat} {x : Run} (hx : s.runs r = some x) (half : Half) (n : Name) :
    s.Opened r half n ↔
      match half with
      | .empty => x.emptyOpen ∧ n = emptyName x.runId
      | .full => x.fullOpen ∧ n = fullName x.runId := by
  unfold State.Opened
  rw [hx]
  simp only [Option.some.injEq, exists_eq_left']

/-- They depend on where it is and on its id. -/
theorem opened_setRun {r : Nat} {x x' : Run} (hx : s.runs r = some x) (half : Half) (n : Name)
    (hempty : x'.emptyOpen = x.emptyOpen) (hfull : x'.fullOpen = x.fullOpen)
    (hid : x.emptyOpen → x'.runId = x.runId) :
    (s.setRun r x').Opened r half n ↔ s.Opened r half n := by
  have hself : (s.setRun r x').runs r = some x' := Function.update_self ..
  have hid' : x.fullOpen → x'.runId = x.runId := fun ho => hid (x.emptyOpen_of_fullOpen ho)
  rw [opened_iff hself, opened_iff hx]
  cases half with
  | empty =>
      simp only [hempty]
      exact and_congr_right fun ho => by rw [hid ho]
  | full =>
      simp only [hfull]
      exact and_congr_right fun ho => by rw [hid' ho]

/-- A run that keeps its semaphores goes on. -/
theorem runGoesOn (h : Delivers s) {r : Nat} {x x' : Run} (hx : s.runs r = some x)
    (hempty : x'.emptyOpen = x.emptyOpen) (hfull : x'.fullOpen = x.fullOpen)
    (hid : x.emptyOpen → x'.runId = x.runId) : Delivers (s.setRun r x') :=
  h.setRun s.runCounter fun half n => opened_setRun hx half n hempty hfull hid

/-- A run that has its semaphores creates a writer or reader, and goes on. -/
theorem creates (h : Delivers s) {r : Nat} {x : Run} {created : Option Nat} {y : Worker}
    (hx : s.runs r = some x) (x' : Run) (hopen : x.fullOpen) (hpc : x'.pc = x.pc) (hid : x'.runId = x.runId)
    (hrun : y.run = r) (hy : y.pc = .opens)
    (hnames : ∀ half, y.name half =
      match half with
      | .empty => emptyName x.runId
      | .full => fullName x.runId)
    (hs : (s.create created y).map (fun s => s.setRun r x') = some s') : Delivers s' := by
  obtain ⟨s1, hc, rfl⟩ := Option.map_eq_some_iff.mp hs
  have hruns : s1.runs = s.runs := by
    cases created with
    | none =>
        cases hc
        rfl
    | some w =>
        obtain ⟨-, hc⟩ := Option.ite_none_right_eq_some.mp hc
        cases hc
        rfl
  have hstep : Delivers s1 := by
    refine h.create hy (fun half => ?_) hc
    rw [hrun, opened_iff hx, hnames]
    cases half with
    | empty => exact ⟨x.emptyOpen_of_fullOpen hopen, rfl⟩
    | full => exact ⟨hopen, rfl⟩
  refine hstep.runGoesOn (by rw [hruns, hx]) ?_ ?_ fun _ => hid
  · simp only [Run.emptyOpen, hpc]
  · simp only [Run.fullOpen, hpc]

/-- **A step of `mvar`.** -/
theorem run (h : Delivers s) {r : Nat} {x : Run} {created : Option Nat} (hx : s.runs r = some x)
    (hg : (x.pc = .openEmpty → s.sems (emptyName x.runId) = none) ∧
      (x.pc = .openFull → s.sems (fullName x.runId) = none))
    (hs : s.runStep r x created = some s') : Delivers s' := by
  have hself : ∀ x', (s.setRun r x').runs r = some x' := fun x' => Function.update_self ..
  -- one case for each program counter of `mvar`, in the order of the source
  unfold State.runStep at hs
  split at hs
  · next hpc =>
    cases hs
    refine h.runGoesOn hx ?_ ?_ fun _ => rfl <;> split <;> simp [Run.emptyOpen, Run.fullOpen, hpc]
  · next hpc =>
    cases hs
    refine h.runGoesOn hx ?_ ?_ fun ho => ?_ <;> simp_all [Run.emptyOpen, Run.fullOpen]
  · next hpc =>
    cases hs
    refine h.setRun _ fun half n => opened_setRun hx half n ?_ ?_ fun _ => rfl <;>
      simp [Run.emptyOpen, Run.fullOpen, hpc]
  · next hpc =>
    cases hs
    refine h.semOpen .empty (hg.1 hpc) (fun n hn => ?_) fun other n => ?_
    · obtain ⟨x', hx', ho⟩ := hn
      cases hx.symm.trans hx'
      simp [Run.fullOpen, hpc] at ho
    · rw [opened_iff (hself _), opened_iff hx]
      cases other <;> simp [Run.emptyOpen, Run.fullOpen, hpc]
  · next hpc =>
    cases hs
    refine h.semOpen .full (hg.2 hpc) (fun n hn => ?_) fun other n => ?_
    · obtain ⟨x', hx', ho⟩ := hn
      cases hx.symm.trans hx'
      simp [Run.fullOpen, hpc] at ho
    · rw [opened_iff (hself _), opened_iff hx]
      cases other <;> simp [Run.emptyOpen, Run.fullOpen, hpc]
  · next hpc =>
    cases hs
    refine h.runGoesOn hx ?_ ?_ fun _ => rfl <;> split <;> simp [Run.emptyOpen, Run.fullOpen, hpc]
  · next hpc =>
    split at hs
    · refine h.creates hx { x with i := x.i + 1 } ?_ rfl rfl rfl rfl (fun half => ?_) hs
      · simp [Run.fullOpen, hpc]
      · cases half <;> rfl
    · cases hs
      refine h.runGoesOn hx ?_ ?_ fun _ => rfl <;> simp [Run.emptyOpen, Run.fullOpen, hpc]
  · next hpc =>
    split at hs
    · refine h.creates hx { x with i := x.i + 1 } ?_ rfl rfl rfl rfl (fun half => ?_) hs
      · simp [Run.fullOpen, hpc]
      · cases half <;> rfl
    · cases hs
      refine h.runGoesOn hx ?_ ?_ fun _ => rfl <;> simp [Run.emptyOpen, Run.fullOpen, hpc]
  · cases hs
  · cases hs

/-- **Step lemma.** -/
theorem step (h : Delivers s) {a : State.Action} (hg : s.KeepsApart a) (hs : s.step a = some s') :
    Delivers s' := by
  cases a with
  | command r writers readers =>
      obtain ⟨hfree, hs⟩ := Option.ite_none_right_eq_some.mp hs
      cases hs
      have hnone : s.runs r = none := by simpa using hfree
      refine h.setRun s.runCounter fun half n => ?_
      rw [opened_iff (Function.update_self ..)]
      unfold State.Opened
      rw [hnone]
      cases half <;> simp [Run.emptyOpen, Run.fullOpen]
  | run r created =>
      obtain ⟨x, hx, hs⟩ := Option.bind_eq_some_iff.mp hs
      exact h.run hx (hg x hx) hs
  | worker w =>
      obtain ⟨y, hw, hs⟩ := Option.bind_eq_some_iff.mp hs
      exact h.worker hw (hg y hw) hs

/-- At the start. -/
theorem start : Delivers .start := by
  have hclosed : ∀ r half n, ¬ State.start.Opened r half n := by
    rintro r half n ⟨x, hx, -⟩
    cases hx
  refine ⟨fun r => ⟨.lies .empty, ?_⟩, fun w y hw => ?_, fun r half r' half' n hn => ?_⟩
  · refine ⟨fun half n hn => absurd hn (hclosed r half n), fun _ => rfl, fun w y hw => ?_, fun w hw => ?_,
      rfl, rfl⟩
    · cases hw
    · cases hw
  · cases hw
  · exact absurd hn (hclosed r half n)

end Delivers

/-! ## Every run of the system -/

/-- **What a run delivers** in every run of the system that meets the condition: what its readers print
    is a prefix of what they have read, and that of what its writers have put; at most one value is
    under way, and none when a writer puts the next. -/
theorem run_delivers {as : List State.Action} {s : State}
    (h : GuardedRun State.step State.KeepsApart .start as s) (r : Nat) :
    s.prints r <+: s.reads r ∧ s.reads r <+: s.puts r ∧
      (s.puts r).length ≤ (s.reads r).length + 1 ∧
      ∀ w y, s.workers w = some y → y.run = r → y.role = .writer → y.pc = .access →
        s.puts r = s.reads r := by
  have hinv : Delivers s := h.invariant Delivers (fun _ _ _ hinv hg hs => hinv.step hg hs) .start
  obtain ⟨t, ht⟩ := hinv.turn r
  have hvalues := ht.values
  refine ⟨?_, ?_, ?_, fun w y hw hr hrole hpc => ?_⟩
  · cases hst : s.stage t with
    | read | put =>
        rw [hst] at hvalues
        rw [hvalues.2]
    | printing value =>
        rw [hst] at hvalues
        rw [hvalues.2]
        exact List.prefix_append _ _
  · cases hst : s.stage t with
    | read | printing _ =>
        rw [hst] at hvalues
        rw [hvalues.1]
    | put =>
        rw [hst] at hvalues
        rw [hvalues.1]
        exact List.prefix_append _ _
  · cases hst : s.stage t <;> rw [hst] at hvalues <;> rw [hvalues.1] <;> simp
  · have htoken : t = .held w := (ht.held w y hw hr).mp (.inl hpc)
    rw [htoken, State.stage_held hw, Worker.stage_access hpc, hrole] at hvalues
    exact hvalues.1

/-! ## Two runs at once -/

namespace State

variable {s s' : State}

/-- The values of the run `r`. -/
def valuesOf (s : State) (r : Nat) : List Char × List Char × List Char := (s.puts r, s.reads r, s.prints r)

theorem semOpen_valuesOf (s : State) (n : Name) (count r : Nat) :
    (s.semOpen n count).valuesOf r = s.valuesOf r := by
  unfold semOpen
  split <;> rfl

theorem semWait_valuesOf {n : Name} (hs : s.semWait n = some s') (r : Nat) :
    s'.valuesOf r = s.valuesOf r := by
  unfold semWait at hs
  split at hs <;> cases hs
  rfl

theorem semPost_valuesOf {n : Name} (hs : s.semPost n = some s') (r : Nat) :
    s'.valuesOf r = s.valuesOf r := by
  obtain ⟨count, -, rfl⟩ := Option.map_eq_some_iff.mp hs
  rfl

theorem create_valuesOf {created : Option Nat} {y : Worker} (hs : s.create created y = some s') (r : Nat) :
    s'.valuesOf r = s.valuesOf r := by
  unfold create at hs
  split at hs
  · cases hs
    rfl
  · obtain ⟨-, hs⟩ := Option.ite_none_right_eq_some.mp hs
    cases hs
    rfl

theorem runStep_valuesOf {a : Nat} {x : Run} {created : Option Nat} (hs : s.runStep a x created = some s')
    (r : Nat) : s'.valuesOf r = s.valuesOf r := by
  unfold runStep at hs
  split at hs
  case h_4 | h_5 =>
    cases hs
    exact semOpen_valuesOf s _ _ r
  case h_7 | h_8 =>
    split at hs
    · obtain ⟨s1, hc, rfl⟩ := Option.map_eq_some_iff.mp hs
      exact create_valuesOf hc r
    · cases hs
      rfl
  all_goals cases hs
  all_goals rfl

theorem workerStep_valuesOf {w : Nat} {y : Worker} (hs : s.workerStep w y = some s') {r : Nat}
    (hr : r ≠ y.run) : s'.valuesOf r = s.valuesOf r := by
  unfold workerStep at hs
  split at hs
  case h_2 | h_3 =>
    obtain ⟨s1, hc, rfl⟩ := Option.map_eq_some_iff.mp hs
    exact semWait_valuesOf hc r
  case h_8 | h_9 =>
    obtain ⟨s1, hc, rfl⟩ := Option.map_eq_some_iff.mp hs
    exact semPost_valuesOf hc r
  all_goals cases hs
  all_goals simp [valuesOf, setWorker, Function.update_of_ne hr]

/-- **Only its writers and readers** touch the values of a run. -/
theorem step_valuesOf {a : Action} (hs : s.step a = some s') {r : Nat}
    (hr : ∀ w y, a = .worker w → s.workers w = some y → r ≠ y.run) : s'.valuesOf r = s.valuesOf r := by
  cases a with
  | command b writers readers =>
      obtain ⟨-, hs⟩ := Option.ite_none_right_eq_some.mp hs
      cases hs
      rfl
  | run b created =>
      obtain ⟨x, -, hs⟩ := Option.bind_eq_some_iff.mp hs
      exact runStep_valuesOf hs r
  | worker w =>
      obtain ⟨y, hw, hs⟩ := Option.bind_eq_some_iff.mp hs
      exact workerStep_valuesOf hs (hr w y rfl hw)

end State

/-- `mvar 1 1` and `mvar 2 1`, started one after the other. -/
def twoRuns : List State.Action :=
  .command 0 1 1 :: [none, none, none, none, none, none, some 0, none, some 1, none].map (.run 0) ++
  .command 1 2 1 :: [none, none, none, none, none, none, some 2, some 3, none, some 4, none].map (.run 1)

/-- Writer A of the first run puts its value and writer B of the second one puts its own, before the
    first run's reader reads. -/
def overwrites : List State.Action :=
  twoRuns ++ ([0, 0, 0, 0, 3, 3, 3, 1, 1, 1, 1].map .worker)

/-- The first run's reader reads before the second run puts. -/
def takesTurns : List State.Action :=
  twoRuns ++ ([0, 0, 0, 0, 1, 1, 1, 1, 3, 3, 3].map .worker)

set_option maxRecDepth 100000 in
theorem overwritten : ¬ ∀ (as : List State.Action) (s : State) (r : Nat),
    GuardedRun State.step (fun _ _ => True) .start as s → s.prints r <+: s.puts r := by
  intro hall
  obtain ⟨s, hs, hend⟩ := (Option.any_eq_true (fun s : State =>
      decide (s.prints 0 = ['B']) && decide (s.puts 0 = ['A']))
    (GuardedRun.check State.step (fun _ _ => True) .start overwrites)).mp (by decide +kernel)
  simp only [Bool.and_eq_true, decide_eq_true_eq] at hend
  have hprefix := hall _ s 0 (.of_check hs)
  rw [hend.1, hend.2] at hprefix
  exact absurd hprefix (by decide)

/-- The condition, where only the first two runs have put a value. -/
def State.keepsTwoApart (s : State) : State.Action → Bool
  | .command _ _ _ => true
  | .run r _ =>
    match s.runs r with
    | none => false
    | some x =>
      (x.pc ≠ .openEmpty || (s.sems (emptyName x.runId)).isNone) &&
        (x.pc ≠ .openFull || (s.sems (fullName x.runId)).isNone)
  | .worker w =>
    match s.workers w with
    | none => false
    | some y =>
      decide (y.run < 2) && (y.pc ≠ .access || y.role ≠ .writer ||
        [0, 1].all fun r => decide (r = y.run ∨ s.reads r = s.puts r ∨ s.var = y.id))

theorem State.keepsApart_of_two {s : State} {a : State.Action}
    (hrest : ∀ r, 2 ≤ r → s.valuesOf r = ([], [], [])) (h : s.keepsTwoApart a) : s.KeepsApart a := by
  cases a with
  | command r writers readers => trivial
  | run r created =>
      intro x hx
      simp only [keepsTwoApart, hx, Bool.and_eq_true, Bool.or_eq_true, decide_eq_true_eq,
        Option.isNone_iff_eq_none] at h
      exact ⟨fun hpc => h.1.resolve_left (not_not.mpr hpc), fun hpc => h.2.resolve_left (not_not.mpr hpc)⟩
  | worker w =>
      intro y hw hpc hrole r hr hun
      simp only [keepsTwoApart, hw, hpc, hrole, Bool.and_eq_true, Bool.or_eq_true, decide_eq_true_eq,
        ne_eq, not_true_eq_false, decide_false, Bool.false_eq_true, false_or] at h
      by_cases hlt : r < 2
      · have hmem : r ∈ [0, 1] := by
          have h01 : r = 0 ∨ r = 1 := by omega
          simpa using h01
        exact ((of_decide_eq_true (List.all_eq_true.mp h.2 r hmem)).resolve_left hr).resolve_left hun
      · have hv := hrest r (Nat.le_of_not_lt hlt)
        simp only [valuesOf, Prod.mk.injEq] at hv
        exact absurd (hv.2.1.trans hv.1.symm) hun

set_option maxRecDepth 100000 in
theorem run_delivers_turns : ∃ s, GuardedRun State.step State.KeepsApart .start takesTurns s ∧
    s.puts 1 = ['B'] ∧ s.prints 0 = ['A'] ∧ s.prints 0 <+: s.reads 0 := by
  obtain ⟨s, hs, hend⟩ := (Option.any_eq_true (fun s : State =>
      decide (s.puts 1 = ['B']) && decide (s.prints 0 = ['A']))
    (GuardedRun.check State.step (fun s a => s.keepsTwoApart a) .start takesTurns)).mp (by decide +kernel)
  simp only [Bool.and_eq_true, decide_eq_true_eq] at hend
  have hrun : GuardedRun State.step State.KeepsApart .start takesTurns s := by
    refine (GuardedRun.of_check hs).strengthen (fun s => ∀ r, 2 ≤ r → s.valuesOf r = ([], [], []))
      (fun s a s' hrest hg hs => ⟨State.keepsApart_of_two hrest hg, fun r hr => ?_⟩) fun _ _ => rfl
    refine (State.step_valuesOf hs fun w y ha hw => ?_).trans (hrest r hr)
    subst ha
    simp only [State.keepsTwoApart, hw, Bool.and_eq_true, decide_eq_true_eq] at hg
    omega
  exact ⟨s, hrun, hend.1, hend.2, (run_delivers hrun 0).1⟩

end Mvar

end TpSo
