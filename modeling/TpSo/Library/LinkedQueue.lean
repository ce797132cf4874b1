import Mathlib.Data.List.Basic
import Mathlib.Data.List.Infix
import Mathlib.Data.List.Nodup
import Mathlib.Logic.Function.Basic

set_option autoImplicit false

/-! # Queues of linked nodes

A singly linked queue, with pointers to its first and its last node, in a heap that also holds blocks
of its clients. To read, write or free what is not there is an error, so a run that comes to an end
has touched no freed node and has freed nothing twice. -/

namespace TpSo.LinkedQueue

/-- A node. -/
structure Node (A : Type) where
  data : Option A
  next : Option A
  deriving DecidableEq

/-- What lies at each address, a node or a client's block, and the addresses freed so far. -/
structure Heap (A B : Type) where
  cell : A → Option (Node A ⊕ B)
  freed : List A

/-- The queue itself. -/
structure Queue (A : Type) where
  head : Option A
  tail : Option A
  size : Nat
  deriving DecidableEq

/-- An iterator. -/
structure Iterator (A : Type) where
  current : Option A

/-! ## Operations -/

section Operations
variable {A B : Type}

/-- The node at an address. -/
def Heap.node (h : Heap A B) (a : A) : Option (Node A) :=
  match h.cell a with
  | some (.inl n) => some n
  | _ => none

/-- The client's block at an address. -/
def Heap.block (h : Heap A B) (a : A) : Option B :=
  match h.cell a with
  | some (.inr b) => some b
  | _ => none

/-- An empty queue. -/
def create : Queue A := { head := none, tail := none, size := 0 }

/-- An iterator over the queue. -/
def iter (q : Queue A) : Iterator A := { current := q.head }

/-- Whether the iterator has not come to the end. -/
def hasNext (it : Iterator A) : Bool := it.current.isSome

/-- The element under the iterator, which moves on. -/
def iterNext (h : Heap A B) (it : Iterator A) : Option (Option A × Iterator A) :=
  match it.current with
  | none => some (none, it)
  | some a => (h.node a).map fun n => (n.data, { current := n.next })

/-- What the iterator reads from here to the end. -/
def collect (h : Heap A B) : (fuel : Nat) → Iterator A → Option (List (Option A))
  | 0, _ => none
  | fuel + 1, it =>
    if hasNext it then do
      let r ← iterNext h it
      let rest ← collect h fuel r.2
      some (r.1 :: rest)
    else some []

/-- What is called with every element of a queue that is cleared. It may do anything to its clients'
    blocks, but does not touch a node. -/
structure Destructor (A B : Type) where
  run : Option A → Heap A B → Heap A B
  spares : ∀ (data : Option A) (h : Heap A B) (a : A), (h.node a).isSome → (run data h).cell a = h.cell a

/-- Nothing is called. -/
def Destructor.none : Destructor A B := ⟨fun _ h => h, fun _ _ _ _ => rfl⟩

variable [DecidableEq A]

/-- Put something at an address. -/
def Heap.store (h : Heap A B) (a : A) (x : Node A ⊕ B) : Heap A B :=
  { h with cell := Function.update h.cell a (some x) }

/-- Free what is at an address. -/
def Heap.free (h : Heap A B) (a : A) : Option (Heap A B) :=
  (h.cell a).map fun _ => { cell := Function.update h.cell a none, freed := h.freed ++ [a] }

/-- `node->next = next`. -/
def Heap.setNext (h : Heap A B) (a : A) (next : Option A) : Option (Heap A B) :=
  (h.node a).map fun n => h.store a (.inl { n with next := next })

/-- Append an element in the node `a`, which has just been allocated. -/
def push (h : Heap A B) (q : Queue A) (a : A) (element : Option A) : Option (Heap A B × Queue A) :=
  let h := h.store a (.inl { data := element, next := none })
  match q.tail with
  | none => some (h, { head := some a, tail := some a, size := q.size + 1 })
  | some t => (h.setNext t (some a)).map fun h => (h, { q with tail := some a, size := q.size + 1 })

/-- Let what pointed at a node point at the next one. -/
def unlink (h : Heap A B) (q : Queue A) (prev next : Option A) : Option (Heap A B × Queue A) :=
  match prev with
  | none => some (h, { q with head := next })
  | some p => (h.setNext p next).map fun h => (h, q)

/-- The loop of `remove`, from the node `current` on. -/
def removeFrom (element : A) : (fuel : Nat) → Heap A B → Queue A → (prev current : Option A) →
    Option (Bool × Heap A B × Queue A)
  | 0, _, _, _, _ => none
  | _ + 1, h, q, _, none => some (false, h, q)
  | fuel + 1, h, q, prev, some current => do
    let n ← h.node current
    if n.data = some element then
      let r ← unlink h q prev n.next
      let q := if r.2.tail = some current then { r.2 with tail := prev } else r.2
      let h ← r.1.free current
      some (true, h, { q with size := q.size - 1 })
    else removeFrom element fuel h q (some current) n.next

/-- Take the first node with this element out of the queue and free it. -/
def remove (fuel : Nat) (h : Heap A B) (q : Queue A) (element : A) :
    Option (Bool × Heap A B × Queue A) :=
  removeFrom element fuel h q none q.head

/-- Take the first node out of the queue and free it. -/
def pop (h : Heap A B) (q : Queue A) : Option (Option A × Heap A B × Queue A) :=
  match q.head with
  | none => some (none, h, q)
  | some a => do
    let n ← h.node a
    let tail := if n.next = none then none else q.tail
    let h ← h.free a
    some (n.data, h, { head := n.next, tail := tail, size := q.size - 1 })

/-- The loop of `clear`, from the node `current` on. -/
def clearFrom (destroy : Destructor A B) : (fuel : Nat) → Heap A B → (current : Option A) →
    Option (Heap A B)
  | 0, _, _ => none
  | _ + 1, h, none => some h
  | fuel + 1, h, some current => do
    let n ← h.node current
    let h ← (destroy.run n.data h).free current
    clearFrom destroy fuel h n.next

/-- Free all nodes. -/
def clear (destroy : Destructor A B) (fuel : Nat) (h : Heap A B) (q : Queue A) :
    Option (Heap A B × Queue A) :=
  (clearFrom destroy fuel h q.head).map fun h => (h, create)

end Operations

/-! ## The heap -/

section Heap
variable {A B : Type} {h h' : Heap A B} {a : A}

theorem Heap.node_eq_some {n : Node A} : h.node a = some n ↔ h.cell a = some (.inl n) := by
  unfold Heap.node
  split
  · next m hm =>
    rw [hm]
    simp
  · next hno =>
    refine ⟨fun hn => absurd hn (Option.some_ne_none n).symm, fun hn => absurd hn (hno n)⟩

theorem Heap.block_eq_some {x : B} : h.block a = some x ↔ h.cell a = some (.inr x) := by
  unfold Heap.block
  split
  · next y hy =>
    rw [hy]
    simp
  · next hno =>
    refine ⟨fun hn => absurd hn (Option.some_ne_none x).symm, fun hn => absurd hn (hno x)⟩

theorem Heap.node_congr (hc : h'.cell a = h.cell a) : h'.node a = h.node a := by
  unfold Heap.node
  rw [hc]

theorem Heap.block_congr (hc : h'.cell a = h.cell a) : h'.block a = h.block a := by
  unfold Heap.block
  rw [hc]

variable [DecidableEq A]

@[simp] theorem Heap.store_cell (h : Heap A B) (a : A) (x : Node A ⊕ B) :
    (h.store a x).cell = Function.update h.cell a (some x) := rfl

@[simp] theorem Heap.store_freed (h : Heap A B) (a : A) (x : Node A ⊕ B) :
    (h.store a x).freed = h.freed := rfl

theorem Heap.setNext_of_node {n : Node A} (hn : h.node a = some n) (next : Option A) :
    h.setNext a next = some (h.store a (.inl { n with next := next })) := by
  rw [Heap.setNext, hn]
  rfl

/-- What is there can be freed. -/
theorem Heap.free_of_cell {x : Node A ⊕ B} (hx : h.cell a = some x) :
    h.free a = some { cell := Function.update h.cell a none, freed := h.freed ++ [a] } := by
  rw [Heap.free, hx]
  rfl

end Heap

/-! ## What a queue holds -/

section Represents
variable {A B : Type}

/-- The address of the first node, of those in `xs`. -/
def first (xs : List (A × A)) : Option A := xs.head?.map Prod.fst

/-- The address of the last node. -/
def last (xs : List (A × A)) : Option A := xs.getLast?.map Prod.fst

/-- The nodes of `xs`, each with its element, lie in the heap and are linked in this order. -/
def Linked (h : Heap A B) : List (A × A) → Prop
  | [] => True
  | x :: xs => h.node x.1 = some { data := some x.2, next := first xs } ∧ Linked h xs

/-- **The queue `q` holds `xs`**: node by node, with the address and the element of each. -/
structure Holds (h : Heap A B) (q : Queue A) (xs : List (A × A)) : Prop where
  linked : Linked h xs
  nodup : (xs.map Prod.fst).Nodup
  head : q.head = first xs
  tail : q.tail = last xs
  size : q.size = xs.length

@[simp] theorem first_nil : first ([] : List (A × A)) = none := rfl

@[simp] theorem first_cons (x : A × A) (xs : List (A × A)) : first (x :: xs) = some x.1 := rfl

@[simp] theorem last_nil : last ([] : List (A × A)) = none := rfl

@[simp] theorem last_concat (xs : List (A × A)) (x : A × A) : last (xs ++ [x]) = some x.1 := by
  simp [last]

theorem last_append_cons (xs ys : List (A × A)) (y : A × A) : last (xs ++ y :: ys) = last (y :: ys) := by
  unfold last
  rw [List.getLast?_append_of_ne_nil xs (List.cons_ne_nil y ys)]

theorem Linked.of_append {h : Heap A B} {xs ys : List (A × A)} (hl : Linked h (xs ++ ys)) :
    Linked h ys := by
  induction xs with
  | nil => exact hl
  | cons x xs ih => exact ih hl.2

/-- The nodes are linked as before while their cells are as before. -/
theorem Linked.congr {h h' : Heap A B} {xs : List (A × A)} (hl : Linked h xs)
    (hc : ∀ x ∈ xs, h'.cell x.1 = h.cell x.1) : Linked h' xs := by
  induction xs with
  | nil => trivial
  | cons x xs ih =>
    obtain ⟨hx, hl⟩ := hl
    refine ⟨?_, ih hl fun y hy => hc y (List.mem_cons_of_mem x hy)⟩
    rw [Heap.node_congr (hc x List.mem_cons_self)]
    exact hx

theorem Linked.exists_node {h : Heap A B} {xs : List (A × A)} (hl : Linked h xs) {x : A × A}
    (hx : x ∈ xs) : ∃ n, h.node x.1 = some n := by
  obtain ⟨ys, zs, rfl⟩ := List.append_of_mem hx
  exact ⟨_, (Linked.of_append hl).1⟩

theorem create_holds (h : Heap A B) : Holds h (create : Queue A) [] :=
  ⟨trivial, List.nodup_nil, rfl, rfl, rfl⟩

/-- The node of an element in the queue. -/
theorem Holds.node {h : Heap A B} {q : Queue A} {xs ys : List (A × A)} {x : A × A}
    (hq : Holds h q (xs ++ x :: ys)) : h.node x.1 = some { data := some x.2, next := first ys } :=
  (Linked.of_append hq.linked).1

/-- The queue holds the same while its nodes' cells are as before. -/
theorem Holds.congr {h h' : Heap A B} {q : Queue A} {xs : List (A × A)} (hq : Holds h q xs)
    (hc : ∀ x ∈ xs, h'.cell x.1 = h.cell x.1) : Holds h' q xs :=
  { hq with linked := hq.linked.congr hc }

end Represents

/-- **The links** of a queue that these nodes make up: its head reaches its tail through all of them. -/
structure Links {A B : Type} (h : Heap A B) (q : Queue A) (nodes : List A) : Prop where
  head : q.head = nodes.head?
  tail : q.tail = nodes.getLast?
  size : q.size = nodes.length
  nodup : nodes.Nodup
  next : ∀ i (hi : i < nodes.length), (h.node nodes[i]).map Node.next = some nodes[i + 1]?
  next_tail : ∀ t, q.tail = some t → (h.node t).map Node.next = some none
  tail_null : q.tail = none ↔ q.head = none
  head_null : q.head = none ↔ q.size = 0

theorem Holds.links {A B : Type} {h : Heap A B} {q : Queue A} {xs : List (A × A)} (hq : Holds h q xs) :
    Links h q (xs.map Prod.fst) where
  head := by rw [hq.head, first, List.head?_map]
  tail := by rw [hq.tail, last, List.getLast?_map]
  size := by rw [hq.size, List.length_map]
  nodup := hq.nodup
  next i hi := by
    rw [List.length_map] at hi
    have hsplit : xs.take i ++ xs[i] :: xs.drop (i + 1) = xs := by
      rw [List.getElem_cons_drop, List.take_append_drop]
    have hnode := Holds.node (hsplit.symm ▸ hq)
    rw [List.getElem_map, hnode, List.getElem?_map, first, List.head?_drop]
    rfl
  next_tail t ht := by
    rcases List.eq_nil_or_concat' xs with rfl | ⟨ys, y, rfl⟩
    · cases hq.tail.symm.trans ht
    · rw [hq.tail, last_concat] at ht
      cases ht
      rw [hq.node]
      rfl
  tail_null := by
    rw [hq.tail, hq.head, last, first]
    simp
  head_null := by
    rw [hq.head, hq.size, first]
    simp

/-- What the queue holds has distinct nodes. -/
theorem Holds.ne_of_mem {A B : Type} {h : Heap A B} {q : Queue A} {xs ys : List (A × A)} {a d : A}
    (hq : Holds h q (xs ++ (a, d) :: ys)) {x : A × A} (hx : x ∈ xs ++ ys) : x.1 ≠ a := by
  have hnodup := hq.nodup
  rw [List.map_append, List.map_cons, List.nodup_middle, ← List.map_append] at hnodup
  intro he
  have hmem : x.1 ∈ (xs ++ ys).map Prod.fst := List.mem_map_of_mem hx
  exact (List.nodup_cons.mp hnodup).1 (he ▸ hmem)

/-- The iterator reads the node it stands on, and stands on the next one. -/
theorem iterNext_spec {A B : Type} {h : Heap A B} {q : Queue A} {xs ys : List (A × A)}
    {x : A × A} {it : Iterator A} (hq : Holds h q (xs ++ x :: ys))
    (hit : it.current = first (x :: ys)) :
    iterNext h it = some (some x.2, { current := first ys }) := by
  rw [iterNext, hit, first_cons]
  dsimp only
  rw [hq.node]
  rfl

/-- **Iteration** reads the elements in their order. -/
theorem collect_spec {A B : Type} {h : Heap A B} {q : Queue A} : ∀ (ys xs : List (A × A)) (fuel : Nat),
    Holds h q (xs ++ ys) → ys.length < fuel →
    collect h fuel { current := first ys } = some (ys.map fun y => some y.2) := by
  intro ys
  induction ys with
  | nil =>
    intro xs fuel _ hfuel
    obtain ⟨fuel, rfl⟩ : ∃ n, fuel = n + 1 := ⟨fuel - 1, by simp at hfuel; omega⟩
    rfl
  | cons y ys ih =>
    intro xs fuel hq hfuel
    obtain ⟨fuel, rfl⟩ : ∃ n, fuel = n + 1 := ⟨fuel - 1, by simp at hfuel; omega⟩
    have hrest := ih (xs ++ [y]) fuel (by simpa using hq) (by simpa using hfuel)
    have hnext : hasNext ({ current := first (y :: ys) } : Iterator A) = true := rfl
    have hread : iterNext h { current := first (y :: ys) } = some (some y.2, { current := first ys }) :=
      iterNext_spec hq rfl
    rw [collect, if_pos hnext, hread]
    simp only [Option.bind_eq_bind, Option.bind_some, hrest]
    rfl

/-- Link the end of a list to what comes next. -/
theorem Linked.relink {A B : Type} {h h' : Heap A B} {xs ys zs : List (A × A)} {x : A × A}
    (hl : Linked h (xs ++ x :: ys))
    (hself : h'.node x.1 = some { data := some x.2, next := first zs })
    (hxs : ∀ y ∈ xs, h'.cell y.1 = h.cell y.1) (hzs : Linked h' zs) : Linked h' (xs ++ x :: zs) := by
  induction xs with
  | nil => exact ⟨hself, hzs⟩
  | cons y xs ih =>
    refine ⟨?_, ih hl.2 fun z hz => hxs z (List.mem_cons_of_mem y hz)⟩
    rw [Heap.node_congr (hxs y List.mem_cons_self)]
    have hy := hl.1
    revert hy
    cases xs <;> exact fun hy => hy

/-! ## The operations on what a queue holds -/

section Specs
variable {A B : Type} [DecidableEq A] {h : Heap A B} {q : Queue A} {xs ys : List (A × A)} {a d : A}

/-- The next pointer of a node is written, and nothing else. -/
theorem setNext_spec {n : Node A} (hn : h.node a = some n) (next : Option A) :
    ∃ h', h.setNext a next = some h' ∧ h'.node a = some { n with next := next } ∧
      h'.freed = h.freed ∧ ∀ b, b ≠ a → h'.cell b = h.cell b := by
  refine ⟨_, Heap.setNext_of_node hn next, ?_, rfl, fun b hb => ?_⟩
  · rw [Heap.node_eq_some, Heap.store_cell, Function.update_self]
  · rw [Heap.store_cell, Function.update_of_ne hb]

/-- **`push`** puts the element at the end. -/
theorem push_spec (hq : Holds h q xs) (ha : a ∉ xs.map Prod.fst) :
    ∃ h' q', push h q a (some d) = some (h', q') ∧ Holds h' q' (xs ++ [(a, d)]) ∧
      h'.freed = h.freed ∧ ∀ b ∉ xs.map Prod.fst, b ≠ a → h'.cell b = h.cell b := by
  set h1 := h.store a (.inl { data := some d, next := none }) with hh1
  have hcell : ∀ b, b ≠ a → h1.cell b = h.cell b := fun b hb => Function.update_of_ne hb ..
  have hnew : h1.node a = some { data := some d, next := none } := by
    rw [Heap.node_eq_some, hh1, Heap.store_cell, Function.update_self]
  have hq1 : Holds h1 q xs := hq.congr fun x hx => hcell x.1 fun he => ha (he ▸ List.mem_map_of_mem hx)
  have hnodup : ((xs ++ [(a, d)]).map Prod.fst).Nodup := by
    rw [List.map_append]
    exact hq.nodup.append (List.nodup_singleton a) (by simpa using ha)
  unfold push
  dsimp only
  rw [← hh1, hq.tail]
  rcases List.eq_nil_or_concat' xs with rfl | ⟨ys, y, rfl⟩
  · refine ⟨h1, _, rfl, ⟨⟨hnew, trivial⟩, hnodup, rfl, rfl, ?_⟩, rfl, fun b _ hb => hcell b hb⟩
    rw [hq.size]
    rfl
  · -- the last node gets a successor
    have hlast : h1.node y.1 = some { data := some y.2, next := none } := Holds.node hq1
    have hya : y.1 ≠ a := fun he => ha (he ▸ by simp)
    obtain ⟨h2, hset, hself, hfreed, hother⟩ := setNext_spec hlast (some a)
    rw [last_concat]
    dsimp only
    rw [hset]
    refine ⟨h2, _, rfl, ⟨?_, hnodup, ?_, (last_concat _ (a, d)).symm, ?_⟩, hfreed, fun b hb hba => ?_⟩
    · rw [List.append_assoc]
      refine hq1.linked.relink hself (fun z hz => hother z.1 ?_) ⟨?_, trivial⟩
      · exact hq1.ne_of_mem (by simp [hz])
      · rw [Heap.node_congr (hother a hya.symm)]
        exact hnew
    · rw [hq.head]
      cases ys <;> rfl
    · simp [hq.size]
    · rw [hother b fun he => hb (he ▸ by simp), hcell b hba]

/-- What pointed at a node points at the next one. -/
theorem unlink_spec (hq : Holds h q (xs ++ (a, d) :: ys)) :
    ∃ h' q', unlink h q (last xs) (first ys) = some (h', q') ∧ Linked h' (xs ++ ys) ∧
      q' = { q with head := first (xs ++ ys) } ∧ h'.freed = h.freed ∧
      ∀ b ∉ xs.map Prod.fst, h'.cell b = h.cell b := by
  rcases List.eq_nil_or_concat' xs with rfl | ⟨zs, z, rfl⟩
  · exact ⟨h, _, rfl, (Linked.of_append hq.linked).2, rfl, rfl, fun _ _ => rfl⟩
  · have hz : Holds h q (zs ++ z :: (a, d) :: ys) := by simpa using hq
    have hprev : h.node z.1 = some { data := some z.2, next := some a } := hz.node
    obtain ⟨h', hset, hself, hfreed, hother⟩ := setNext_spec hprev (first ys)
    have hhead : q.head = first (zs ++ [z] ++ ys) := by
      rw [hq.head]
      cases zs <;> rfl
    refine ⟨h', q, ?_, ?_, ?_, hfreed, fun b hb => hother b fun he => hb (he ▸ by simp)⟩
    · rw [last_concat, unlink, hset]
      rfl
    · rw [List.append_assoc]
      refine hz.linked.relink hself (fun y hy => hother y.1 (hz.ne_of_mem (by simp [hy]))) ?_
      have hys : Linked h ys := (Linked.of_append hq.linked).2
      exact hys.congr fun y hy => hother y.1 (hz.ne_of_mem (by simp [hy]))
    · rw [← hhead]

/-- The node of the element is found behind `xs`, taken out and freed. -/
theorem removeFrom_spec : ∀ (zs xs : List (A × A)) (fuel : Nat),
    Holds h q (xs ++ zs ++ (a, d) :: ys) → d ∉ zs.map Prod.snd → zs.length < fuel →
    ∃ h' q', removeFrom d fuel h q (last xs) (first (zs ++ (a, d) :: ys)) = some (true, h', q') ∧
      Holds h' q' (xs ++ zs ++ ys) ∧ h'.freed = h.freed ++ [a] ∧ h'.cell a = none ∧
      ∀ b ∉ (xs ++ zs).map Prod.fst, b ≠ a → h'.cell b = h.cell b := by
  intro zs
  induction zs with
  | nil =>
    intro xs fuel hq _ hfuel
    obtain ⟨fuel, rfl⟩ : ∃ n, fuel = n + 1 := ⟨fuel - 1, by simp at hfuel; omega⟩
    rw [List.append_nil] at hq ⊢
    obtain ⟨h1, q1, hunlink, hlinked, hq1, hfreed, hother⟩ := unlink_spec hq
    have ha : a ∉ xs.map Prod.fst := fun hmem => by
      obtain ⟨x, hx, he⟩ := List.mem_map.mp hmem
      exact hq.ne_of_mem (List.mem_append_left ys hx) he
    have hnode : h.node a = some { data := some d, next := first ys } := hq.node
    have hcell : h1.cell a = some (.inl { data := some d, next := first ys }) := by
      rw [hother a ha]
      exact Heap.node_eq_some.mp hnode
    -- `tail` moves back if the last node goes
    have htail : (if q1.tail = some a then { q1 with tail := last xs } else q1).tail =
        last (xs ++ ys) := by
      have hlast : q1.tail = last ((a, d) :: ys) := by
        rw [hq1, ← last_append_cons xs]
        exact hq.tail
      rcases List.eq_nil_or_concat' ys with rfl | ⟨vs, v, rfl⟩
      · have hself : q1.tail = some a := hlast
        rw [if_pos hself, List.append_nil]
      · rw [← List.cons_append, last_concat] at hlast
        have hva : v.1 ≠ a := hq.ne_of_mem (by simp)
        rw [if_neg (by rw [hlast]; simpa using hva), hlast, ← List.append_assoc, last_concat]
    have hrest : ∀ p, (if q1.tail = some a then { q1 with tail := p } else q1).head = q1.head ∧
        (if q1.tail = some a then { q1 with tail := p } else q1).size = q1.size := by
      intro p
      split <;> exact ⟨rfl, rfl⟩
    have hnodup : ((xs ++ ys).map Prod.fst).Nodup := by
      have hall := hq.nodup
      rw [List.map_append, List.map_cons, List.nodup_middle, ← List.map_append] at hall
      exact (List.nodup_cons.mp hall).2
    rw [List.nil_append, first_cons, removeFrom, hnode]
    simp only [Option.bind_eq_bind, Option.bind_some, if_true, hunlink, Heap.free_of_cell hcell]
    refine ⟨_, _, rfl, ⟨?_, hnodup, ?_, htail, ?_⟩, ?_, ?_, ?_⟩
    · exact hlinked.congr fun x hx => Function.update_of_ne (hq.ne_of_mem hx) ..
    · rw [(hrest _).1, hq1]
    · dsimp only
      rw [(hrest _).2, hq1, hq.size]
      simp
    · rw [hfreed]
    · exact Function.update_self ..
    · exact fun b hb hba => (Function.update_of_ne hba ..).trans (hother b hb)
  | cons z zs ih =>
    intro xs fuel hq hd hfuel
    obtain ⟨fuel, rfl⟩ : ∃ n, fuel = n + 1 := ⟨fuel - 1, by simp at hfuel; omega⟩
    rw [List.map_cons, List.mem_cons, not_or] at hd
    obtain ⟨hzd, hd⟩ := hd
    have hnode : h.node z.1 = some { data := some z.2, next := first (zs ++ (a, d) :: ys) } := by
      have hz : Holds h q (xs ++ z :: (zs ++ (a, d) :: ys)) := by simpa using hq
      exact hz.node
    have hnext := ih (xs ++ [z]) fuel (by simpa using hq) hd (by simpa using hfuel)
    rw [last_concat, List.append_assoc xs [z] zs, List.singleton_append] at hnext
    rw [List.cons_append, first_cons, removeFrom, hnode]
    simp only [Option.bind_eq_bind, Option.bind_some]
    rw [if_neg (by simpa using Ne.symm hzd)]
    exact hnext

/-- **`remove`** takes the first node of the element out of the queue and frees it, and no other. -/
theorem remove_spec {fuel : Nat} (hq : Holds h q (xs ++ (a, d) :: ys)) (hd : d ∉ xs.map Prod.snd)
    (hfuel : xs.length < fuel) :
    ∃ h' q', remove fuel h q d = some (true, h', q') ∧ Holds h' q' (xs ++ ys) ∧
      h'.freed = h.freed ++ [a] ∧ h'.cell a = none ∧
      ∀ b ∉ xs.map Prod.fst, b ≠ a → h'.cell b = h.cell b := by
  have hhead := hq.head
  rw [remove, hhead]
  exact removeFrom_spec xs [] fuel hq hd hfuel

/-- Without such an element the loop comes to the end of the queue. -/
theorem removeFrom_missing : ∀ (zs xs : List (A × A)) (fuel : Nat), Holds h q (xs ++ zs) →
    d ∉ zs.map Prod.snd → zs.length < fuel →
    removeFrom d fuel h q (last xs) (first zs) = some (false, h, q) := by
  intro zs
  induction zs with
  | nil =>
    intro xs fuel _ _ hfuel
    obtain ⟨fuel, rfl⟩ : ∃ n, fuel = n + 1 := ⟨fuel - 1, by simp at hfuel; omega⟩
    rfl
  | cons z zs ih =>
    intro xs fuel hq hd hfuel
    obtain ⟨fuel, rfl⟩ : ∃ n, fuel = n + 1 := ⟨fuel - 1, by simp at hfuel; omega⟩
    rw [List.map_cons, List.mem_cons, not_or] at hd
    have hnext := ih (xs ++ [z]) fuel (by simpa using hq) hd.2 (by simpa using hfuel)
    rw [last_concat] at hnext
    rw [first_cons, removeFrom, hq.node]
    simp only [Option.bind_eq_bind, Option.bind_some]
    rw [if_neg (by simpa using Ne.symm hd.1)]
    exact hnext

/-- **`remove`** of an element that is not there changes nothing. -/
theorem remove_missing {fuel : Nat} (hq : Holds h q xs) (hd : d ∉ xs.map Prod.snd)
    (hfuel : xs.length < fuel) : remove fuel h q d = some (false, h, q) := by
  rw [remove, hq.head]
  exact removeFrom_missing xs [] fuel hq hd hfuel

/-- **`pop`** takes the first element. -/
theorem pop_spec (hq : Holds h q ((a, d) :: xs)) :
    ∃ h' q', pop h q = some (some d, h', q') ∧ Holds h' q' xs := by
  have hsplit : Holds h q ([] ++ (a, d) :: xs) := hq
  have hnode : h.node a = some { data := some d, next := first xs } := hsplit.node
  have hcell := Heap.node_eq_some.mp hnode
  unfold pop
  rw [hq.head, first_cons]
  dsimp only
  rw [hnode]
  simp only [Option.bind_eq_bind, Option.bind_some, Heap.free_of_cell hcell]
  refine ⟨_, _, rfl, ?_, (List.nodup_cons.mp hq.nodup).2, rfl, ?_, ?_⟩
  · exact hq.linked.2.congr fun x hx => Function.update_of_ne (hsplit.ne_of_mem hx) ..
  · rw [hq.tail]
    cases xs with
    | nil => rfl
    | cons x xs =>
      rw [first_cons, if_neg (Option.some_ne_none x.1)]
      exact last_append_cons [(a, d)] xs x
  · rw [hq.size]
    rfl

/-- The loop of `clear` frees the nodes that are left. -/
theorem clearFrom_spec (destroy : Destructor A B) : ∀ (xs : List (A × A)) (h : Heap A B) (fuel : Nat),
    Linked h xs → (xs.map Prod.fst).Nodup → xs.length < fuel →
    ∃ h', clearFrom destroy fuel h (first xs) = some h' := by
  intro xs
  induction xs with
  | nil =>
    intro h fuel _ _ hfuel
    obtain ⟨fuel, rfl⟩ : ∃ n, fuel = n + 1 := ⟨fuel - 1, by simp at hfuel; omega⟩
    exact ⟨h, rfl⟩
  | cons x xs ih =>
    intro h fuel hlinked hnodup hfuel
    obtain ⟨fuel, rfl⟩ : ∃ n, fuel = n + 1 := ⟨fuel - 1, by simp at hfuel; omega⟩
    obtain ⟨hnode, hlinked⟩ := hlinked
    obtain ⟨hx, hnodup⟩ := List.nodup_cons.mp hnodup
    have hspared : ∀ b n, h.node b = some n → (destroy.run (some x.2) h).cell b = h.cell b :=
      fun b n hb => destroy.spares _ h b (by rw [hb]; rfl)
    have hfree := Heap.free_of_cell ((hspared x.1 _ hnode).trans (Heap.node_eq_some.mp hnode))
    have hrest : Linked { cell := Function.update (destroy.run (some x.2) h).cell x.1 none
                          freed := (destroy.run (some x.2) h).freed ++ [x.1] } xs := by
      refine hlinked.congr fun y hy => ?_
      have hne : y.1 ≠ x.1 := fun he => hx (he ▸ List.mem_map_of_mem hy)
      obtain ⟨n, hn⟩ := hlinked.exists_node hy
      exact (Function.update_of_ne hne ..).trans (hspared y.1 n hn)
    obtain ⟨h', hclear⟩ := ih _ fuel hrest hnodup (by simpa using hfuel)
    refine ⟨h', ?_⟩
    rw [first_cons, clearFrom, hnode]
    simp only [Option.bind_eq_bind, Option.bind_some, hfree]
    exact hclear

/-- **`clear`** leaves an empty queue. -/
theorem clear_spec (destroy : Destructor A B) {fuel : Nat} (hq : Holds h q xs) (hfuel : xs.length < fuel) :
    ∃ h', clear destroy fuel h q = some (h', create) ∧ Holds h' (create : Queue A) [] := by
  obtain ⟨h', hclear⟩ := clearFrom_spec destroy xs h fuel hq.linked hq.nodup hfuel
  refine ⟨h', ?_, create_holds h'⟩
  rw [clear, hq.head, hclear]
  rfl

end Specs

end TpSo.LinkedQueue
