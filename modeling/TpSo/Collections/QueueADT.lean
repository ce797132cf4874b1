import TpSo.Kernel.Types
import TpSo.Library.LinkedQueue

set_option autoImplicit false

/-! # The queue (`queueADT.c`)

The functions of the queue on its nodes, in a heap that also holds blocks of its clients. A `void *`
element is a number, 0 for `NULL`. The loops are given one round more than the queue has nodes, and to
touch a node that has been freed is an error. Whatever is called, in any order, the queue stays a list,
and the calls do to it what the kernel's model takes them for. -/

namespace TpSo.QueueADT

open LinkedQueue

variable {B : Type}

/-- A queue, or `NULL`, in its heap. The `n`-th call of `mem_alloc` finds the address `memAnswers n`, or
    fails. -/
structure State (B : Type) where
  heap : Heap Addr B
  queue : Option (LinkedQueue.Queue Addr)
  memAnswers : Nat → Option Addr
  memCalls : Nat

/-- `mem_alloc`. It never hands out what is still in use. -/
def memAlloc (s : State B) : Option Addr × State B :=
  let s' := { s with memCalls := s.memCalls + 1 }
  match s.memAnswers s.memCalls with
  | none => (none, s')
  | some a => if (s.heap.cell a).isSome then (none, s') else (some a, s')

/-! ## The functions -/

/-- `queue_create`. -/
def queueCreate (s : State B) : State B :=
  let r := memAlloc s
  { r.2 with queue := r.1.map fun _ => create }

/-- `queue_clear`; `destroy` may be `NULL`. -/
def queueClear (s : State B) (destroy : Option (Destructor Addr B)) : Option (State B) :=
  match s.queue with
  | none => some s
  | some q =>
    (clear (destroy.getD .none) (q.size + 1) s.heap q).map fun r =>
      { s with heap := r.1, queue := some r.2 }

/-- `queue_push`. -/
def queuePush (s : State B) (element : Addr) : Option (Bool × State B) :=
  match s.queue with
  | none => some (false, s)
  | some q =>
    match memAlloc s with
    | (none, s) => some (false, s)
    | (some node, s) =>
      (push s.heap q node (some element)).map fun r => (true, { s with heap := r.1, queue := some r.2 })

/-- `queue_remove`. -/
def queueRemove (s : State B) (element : Addr) : Option (Bool × State B) :=
  match s.queue with
  | none => some (false, s)
  | some q =>
    (remove (q.size + 1) s.heap q element).map fun r =>
      (r.1, { s with heap := r.2.1, queue := some r.2.2 })

/-- `queue_pop`. -/
def queuePop (s : State B) : Option (Option Addr × State B) :=
  match s.queue with
  | none => some (none, s)
  | some q => (pop s.heap q).map fun r => (r.1, { s with heap := r.2.1, queue := some r.2.2 })

/-- `queue_iter`, and `queue_iter_next` for as long as `queue_iter_has_next`. -/
def queueIterate (s : State B) : Option (List (Option Addr)) :=
  match s.queue with
  | none => some []
  | some q => collect s.heap (q.size + 1) (iter q)

/-! ## Calls -/

/-- A call on the queue. -/
inductive Call (B : Type)
  | push (element : Addr)
  | pop
  | remove (element : Addr)
  | clear (destroy : Option (Destructor Addr B))
  | iterate

/-- What a call returns. -/
inductive Result
  | flag (b : Bool)
  | element (e : Option Addr)
  | elements (es : List (Option Addr))
  | nothing

/-- One call. -/
def step (s : State B) : Call B → Option (Result × State B)
  | .push x => (queuePush s x).map fun r => (.flag r.1, r.2)
  | .pop => (queuePop s).map fun r => (.element r.1, r.2)
  | .remove x => (queueRemove s x).map fun r => (.flag r.1, r.2)
  | .clear destroy => (queueClear s destroy).map fun s => (.nothing, s)
  | .iterate => (queueIterate s).map fun es => (.elements es, s)

/-- One call after the other. -/
def run : State B → List (Call B) → Option (List Result × State B)
  | s, [] => some ([], s)
  | s, c :: cs => do
    let r ← step s c
    let rest ← run r.2 cs
    some (r.1 :: rest.1, rest.2)

/-! ## The list -/

/-- **The queue is the list** `xs`. -/
def Represents (s : State B) (xs : List Addr) : Prop :=
  ∃ q nodes, s.queue = some q ∧ Holds s.heap q nodes ∧ Links s.heap q (nodes.map Prod.fst) ∧
    nodes.map Prod.snd = xs

/-- What a call from `s` to `s'` does to the list, and what it returns. -/
inductive Does (s s' : State B) : Call B → List Addr → Result → List Addr → Prop
  | pushed {x node : Addr} {xs : List Addr} (found : (memAlloc s).1 = some node) :
      Does s s' (.push x) xs (.flag true) (xs ++ [x])
  | notPushed {x : Addr} {xs : List Addr} (failed : (memAlloc s).1 = none) (heap : s'.heap = s.heap)
      (queue : s'.queue = s.queue) : Does s s' (.push x) xs (.flag false) xs
  | popped {x : Addr} {xs : List Addr} : Does s s' .pop (x :: xs) (.element (some x)) xs
  | notPopped : Does s s' .pop [] (.element none) []
  | removed {x : Addr} {xs ys : List Addr} (first : x ∉ xs) :
      Does s s' (.remove x) (xs ++ x :: ys) (.flag true) (xs ++ ys)
  | notRemoved {x : Addr} {xs : List Addr} (missing : x ∉ xs) : Does s s' (.remove x) xs (.flag false) xs
  | cleared {destroy : Option (Destructor Addr B)} {xs : List Addr} :
      Does s s' (.clear destroy) xs .nothing []
  | iterated {xs : List Addr} : Does s s' .iterate xs (.elements (xs.map some)) xs

/-- Every call does its work, and the queue is a list after it. -/
inductive Serves : State B → List Addr → List (Call B) → List Result → State B → List Addr → Prop
  | nil {s : State B} {xs : List Addr} : Serves s xs [] [] s xs
  | cons {s s' s'' : State B} {xs ys zs : List Addr} {c : Call B} {cs : List (Call B)} {r : Result}
      {rs : List Result} (does : Does s s' c xs r ys) (represents : Represents s' ys)
      (rest : Serves s' ys cs rs s'' zs) : Serves s xs (c :: cs) (r :: rs) s'' zs

/-! ## The calls on a queue that is a list -/

section Steps
variable {s : State B} {q : LinkedQueue.Queue Addr} {nodes : List (Addr × Addr)} {xs : List Addr}

theorem represents_of_holds (hq : s.queue = some q) (hholds : Holds s.heap q nodes) :
    Represents s (nodes.map Prod.snd) := ⟨q, nodes, hq, hholds, hholds.links, rfl⟩

theorem queueCreate_represents {node : Addr} (h : (memAlloc s).1 = some node) :
    Represents (queueCreate s) [] :=
  represents_of_holds (q := create) (by simp [queueCreate, h]) (create_holds _)

theorem memAlloc_state (s : State B) : (memAlloc s).2 = { s with memCalls := s.memCalls + 1 } := by
  unfold memAlloc
  dsimp only
  split
  · rfl
  · split <;> rfl

/-- The block that is found was free. -/
theorem memAlloc_free {node : Addr} (h : (memAlloc s).1 = some node) : s.heap.cell node = none := by
  unfold memAlloc at h
  dsimp only at h
  split at h
  · cases h
  · split at h
    · cases h
    · next hfree =>
      cases h
      simpa using hfree

theorem push_step (hq : s.queue = some q) (hholds : Holds s.heap q nodes) (x : Addr) :
    ∃ r s' ys, step s (.push x) = some (r, s') ∧ Does s s' (.push x) (nodes.map Prod.snd) r ys ∧
      Represents s' ys := by
  have hstate := memAlloc_state s
  rcases hfound : memAlloc s with ⟨found, s1⟩
  rw [hfound] at hstate
  obtain rfl : s1 = { s with memCalls := s.memCalls + 1 } := hstate
  cases found with
  | none =>
    refine ⟨.flag false, { s with memCalls := s.memCalls + 1 }, nodes.map Prod.snd, ?_, ?_, ?_⟩
    · simp only [step, queuePush, hq, hfound, Option.map_some]
    · exact .notPushed (by rw [hfound]) rfl rfl
    · exact represents_of_holds hq hholds
  | some node =>
    have hfree : s.heap.cell node = none := memAlloc_free (by rw [hfound])
    have hnew : node ∉ nodes.map Prod.fst := by
      intro hmem
      obtain ⟨y, hy, rfl⟩ := List.mem_map.mp hmem
      obtain ⟨n, hn⟩ := hholds.linked.exists_node hy
      cases hfree.symm.trans (Heap.node_eq_some.mp hn)
    obtain ⟨h', q', hpush, hholds', -, -⟩ := push_spec (d := x) hholds hnew
    refine ⟨.flag true, { s with memCalls := s.memCalls + 1, heap := h', queue := some q' },
      nodes.map Prod.snd ++ [x], ?_, .pushed (by rw [hfound]), ?_⟩
    · simp only [step, queuePush, hq, hfound, hpush, Option.map_some]
    · have hlist := represents_of_holds (s := { s with
        memCalls := s.memCalls + 1, heap := h', queue := some q' }) rfl hholds'
      rwa [List.map_append] at hlist

theorem pop_step (hq : s.queue = some q) (hholds : Holds s.heap q nodes) :
    ∃ r s' ys, step s .pop = some (r, s') ∧ Does s s' .pop (nodes.map Prod.snd) r ys ∧
      Represents s' ys := by
  cases nodes with
  | nil =>
    have hpop : pop s.heap q = some (none, s.heap, q) := by
      rw [pop, hholds.head]
      rfl
    refine ⟨.element none, s, [], ?_, .notPopped, represents_of_holds hq hholds⟩
    simp only [step, queuePop, hq, hpop, Option.map_some]
    rw [← hq]
  | cons x nodes =>
    obtain ⟨h', q', hpop, hholds'⟩ := pop_spec hholds
    refine ⟨.element (some x.2), { s with heap := h', queue := some q' }, nodes.map Prod.snd, ?_, .popped,
      represents_of_holds rfl hholds'⟩
    simp only [step, queuePop, hq, hpop, Option.map_some]

theorem remove_step (hq : s.queue = some q) (hholds : Holds s.heap q nodes) (x : Addr) :
    ∃ r s' ys, step s (.remove x) = some (r, s') ∧ Does s s' (.remove x) (nodes.map Prod.snd) r ys ∧
      Represents s' ys := by
  have hfuel : nodes.length < q.size + 1 := by
    rw [hholds.size]
    omega
  by_cases hx : x ∈ nodes.map Prod.snd
  · -- the nodes before the first one with this element, and those behind it
    obtain ⟨as, bs, hsplit, hfirst⟩ := List.eq_append_cons_of_mem hx
    obtain ⟨front, rest, rfl, rfl, hrest⟩ := List.map_eq_append_iff.mp hsplit
    obtain ⟨y, back, rfl, rfl, rfl⟩ := List.map_eq_cons_iff.mp hrest
    have hfront : front.length < q.size + 1 := by
      simp only [List.length_append] at hfuel
      omega
    obtain ⟨h', q', hremove, hholds', -, -, -⟩ := remove_spec hholds hfirst hfront
    refine ⟨.flag true, { s with heap := h', queue := some q' },
      front.map Prod.snd ++ back.map Prod.snd, ?_, ?_, ?_⟩
    · simp only [step, queueRemove, hq, hremove, Option.map_some]
    · rw [List.map_append, List.map_cons]
      exact .removed hfirst
    · have hlist := represents_of_holds (s := { s with heap := h', queue := some q' }) rfl hholds'
      rwa [List.map_append] at hlist
  · refine ⟨.flag false, s, nodes.map Prod.snd, ?_, .notRemoved hx, represents_of_holds hq hholds⟩
    simp only [step, queueRemove, hq, remove_missing hholds hx hfuel, Option.map_some]
    rw [← hq]

theorem clear_step (hq : s.queue = some q) (hholds : Holds s.heap q nodes)
    (destroy : Option (Destructor Addr B)) : ∃ r s' ys, step s (.clear destroy) = some (r, s') ∧
      Does s s' (.clear destroy) (nodes.map Prod.snd) r ys ∧ Represents s' ys := by
  have hfuel : nodes.length < q.size + 1 := by
    rw [hholds.size]
    omega
  obtain ⟨h', hclear, hholds'⟩ := clear_spec (destroy.getD .none) hholds hfuel
  refine ⟨.nothing, { s with heap := h', queue := some create }, [], ?_, .cleared,
    create, [], rfl, hholds', hholds'.links, rfl⟩
  simp only [step, queueClear, hq, hclear, Option.map_some]

theorem iterate_step (hq : s.queue = some q) (hholds : Holds s.heap q nodes) :
    ∃ r s' ys, step s .iterate = some (r, s') ∧ Does s s' .iterate (nodes.map Prod.snd) r ys ∧
      Represents s' ys := by
  have hcollect : collect s.heap (q.size + 1) (iter q) = some ((nodes.map Prod.snd).map some) := by
    rw [iter, hholds.head, List.map_map]
    exact collect_spec nodes [] _ hholds (by rw [hholds.size]; omega)
  refine ⟨.elements ((nodes.map Prod.snd).map some), s, nodes.map Prod.snd, ?_, .iterated,
    represents_of_holds hq hholds⟩
  simp only [step, queueIterate, hq, hcollect, Option.map_some]

/-- **Step lemma.** A call on a queue that is a list comes to an end and leaves a list. -/
theorem Represents.step (h : Represents s xs) (c : Call B) :
    ∃ r s' ys, step s c = some (r, s') ∧ Does s s' c xs r ys ∧ Represents s' ys := by
  obtain ⟨q, nodes, hq, hholds, -, rfl⟩ := h
  cases c with
  | push x => exact push_step hq hholds x
  | pop => exact pop_step hq hholds
  | remove x => exact remove_step hq hholds x
  | clear destroy => exact clear_step hq hholds destroy
  | iterate => exact iterate_step hq hholds

end Steps

/-- **The queue is a list**, after any calls: each of them comes to an end and does to the list what it
    is for. -/
theorem queue_represents {s : State B} {xs : List Addr} (h : Represents s xs) (cs : List (Call B)) :
    ∃ rs s' ys, run s cs = some (rs, s') ∧ Serves s xs cs rs s' ys ∧ Represents s' ys := by
  induction cs generalizing s xs with
  | nil => exact ⟨[], s, xs, rfl, .nil, h⟩
  | cons c cs ih =>
    obtain ⟨r, s1, ys, hstep, hdoes, h1⟩ := h.step c
    obtain ⟨rs, s', zs, hrun, hserves, h'⟩ := ih h1
    refine ⟨r :: rs, s', zs, ?_, .cons hdoes h1 hserves, h'⟩
    simp only [run, hstep, hrun, Option.bind_eq_bind, Option.bind_some]

/-- An empty heap, and an allocator that never fails. -/
def emptyHeap : State Unit :=
  { heap := ⟨fun _ => none, []⟩, queue := none, memAnswers := some, memCalls := 0 }

/-- A queue just created: what is pushed twice is removed once. -/
theorem queue_represents_created : ∃ rs s' ys,
    run (queueCreate emptyHeap) [.push 7, .push 8, .push 7, .remove 7, .iterate] = some (rs, s') ∧
      Represents s' ys := by
  have hfound : (memAlloc emptyHeap).1 = some 0 := rfl
  obtain ⟨rs, s', ys, hrun, -, hlist⟩ := queue_represents (queueCreate_represents hfound)
    [.push 7, .push 8, .push 7, .remove 7, .iterate]
  exact ⟨rs, s', ys, hrun, hlist⟩

/-! ## The queues of the kernel's model -/

/-- What the model of the kernel says of a call. -/
def modelCall (k : Kernel) (q : TpSo.Queue Addr) : Call B → Result × TpSo.Queue Addr
  | .push x => (.flag (TpSo.queuePush k q x).1, (TpSo.queuePush k q x).2.1)
  | .pop => (.element (TpSo.queuePop q).1, (TpSo.queuePop q).2)
  | .remove x => (.flag (TpSo.queueRemove q x).1, (TpSo.queueRemove q x).2)
  | .clear _ => (.nothing, q.map fun _ => [])
  | .iterate => (.elements ((q.getD []).map some), q)

/-- **The model's queues** are these lists: its functions agree with the code, where the allocator does. -/
theorem Does.model {s s' : State B} {c : Call B} {xs ys : List Addr} {r : Result}
    (h : Does s s' c xs r ys) {k : Kernel} (hk : k.allocOk = (memAlloc s).1.isSome) :
    modelCall k (some xs) c = (r, some ys) := by
  cases h with
  | pushed found => simp [modelCall, TpSo.queuePush, hk, found]
  | notPushed failed => simp [modelCall, TpSo.queuePush, hk, failed]
  | popped => rfl
  | notPopped => rfl
  | removed first => simp [modelCall, TpSo.queueRemove, List.erase_append_right _ first]
  | notRemoved missing => simp [modelCall, TpSo.queueRemove, missing, List.erase_of_not_mem missing]
  | cleared => rfl
  | iterated => rfl

end TpSo.QueueADT
