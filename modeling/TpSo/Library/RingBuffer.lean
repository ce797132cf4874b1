import Mathlib.Data.List.Infix
import Mathlib.Data.Nat.ModEq
import Mathlib.Logic.Function.Basic

set_option autoImplicit false

/-! # Ring buffers and first-in first-out queues

A queue that is written, read and emptied is described by its operations: `Fifo.run` replays them on
the list of waiting elements. A *ring buffer* of `n` cells holds such a list in the cells from its
read index on, modulo `n`; `RingBuffer.contents` reads it off. Writing, reading and emptying a ring are the
operations of the queue it holds. -/

/-! ## Queues -/

/-- One operation on a queue. -/
inductive FifoOp (α : Type)
  | put (x : α)
  | took (x : α)
  | cleared

namespace Fifo

variable {α : Type} [DecidableEq α]

/-- The waiting elements after an operation; `none` if it took something else than the first. -/
def apply (q : List α) : FifoOp α → Option (List α)
  | .put x => some (q ++ [x])
  | .took x => if q.head? = some x then some q.tail else none
  | .cleared => some []

/-- The waiting elements after a list of operations. -/
def run (q : List α) : List (FifoOp α) → Option (List α)
  | [] => some q
  | op :: ops => (apply q op).bind (fun q => run q ops)

omit [DecidableEq α] in
/-- The elements put in, in that order. -/
def puts (ops : List (FifoOp α)) : List α :=
  ops.filterMap (fun op => match op with | .put x => some x | _ => none)

omit [DecidableEq α] in
/-- The elements taken out, in that order. -/
def taken (ops : List (FifoOp α)) : List α :=
  ops.filterMap (fun op => match op with | .took x => some x | _ => none)

/-- No operation empties the queue. -/
def NeverCleared (ops : List (FifoOp α)) : Prop := .cleared ∉ ops

theorem run_append (ops ops' : List (FifoOp α)) :
    ∀ q : List α, run q (ops ++ ops') = (run q ops).bind (fun q => run q ops') := by
  induction ops with
  | nil => exact fun _ => rfl
  | cons op ops ih =>
      intro q
      simp only [List.cons_append, run]
      cases apply q op with
      | none => rfl
      | some q' => exact ih q'

/-- What `took` needs: the element is the first. -/
theorem apply_took {q q' : List α} {x : α} (h : apply q (.took x) = some q') : q = x :: q' := by
  simp only [apply] at h
  split at h
  · next hx =>
    cases h
    exact (List.cons_head?_tail (Option.mem_def.mpr hx)).symm
  · cases h

/-- **Nothing is duplicated or reordered**: what was taken, and then what is waiting, is what was
    put in, less the elements that were discarded. -/
theorem sublist_of_run (ops : List (FifoOp α)) :
    ∀ {q q' : List α}, run q ops = some q' → (taken ops ++ q').Sublist (q ++ puts ops) := by
  induction ops with
  | nil =>
      intro q q' h
      cases h
      simp [taken, puts]
  | cons op ops ih =>
      intro q q' h
      obtain ⟨q1, h1, hrest⟩ := Option.bind_eq_some_iff.mp h
      have hsub := ih hrest
      cases op with
      | put x =>
          cases h1
          simpa [taken, puts] using hsub
      | took x =>
          rw [apply_took h1]
          simpa [taken, puts] using hsub
      | cleared =>
          cases h1
          have hq : (puts ops).Sublist (q ++ puts ops) := List.sublist_append_right q _
          exact (by simpa [taken, puts] using hsub : (taken ops ++ q').Sublist (puts ops)).trans hq

/-- **Nothing is lost** where nothing is discarded. -/
theorem eq_of_run (ops : List (FifoOp α)) :
    ∀ {q q' : List α}, run q ops = some q' → NeverCleared ops → taken ops ++ q' = q ++ puts ops := by
  induction ops with
  | nil =>
      intro q q' h _
      cases h
      simp [taken, puts]
  | cons op ops ih =>
      intro q q' h hc
      obtain ⟨q1, h1, hrest⟩ := Option.bind_eq_some_iff.mp h
      have heq := ih hrest fun hm => hc (.tail _ hm)
      cases op with
      | put x =>
          cases h1
          simpa [taken, puts] using heq
      | took x =>
          rw [apply_took h1]
          simpa [taken, puts] using heq
      | cleared => exact absurd List.mem_cons_self hc

end Fifo

/-! ## Ring buffers -/

/-- A ring buffer: the cells, the two indices and the number of occupied cells. -/
structure RingBuffer (α : Type) where
  cells : Nat → α
  readIdx : Nat
  writeIdx : Nat
  count : Nat

namespace RingBuffer

variable {α : Type} {n : Nat} {r : RingBuffer α}

/-- The ring is in order: both indices name cells, and the write index is `count` cells ahead. -/
structure Ok (n : Nat) (r : RingBuffer α) : Prop where
  count_le : r.count ≤ n
  read_lt : r.readIdx < n
  write_lt : r.writeIdx < n
  write_eq : r.writeIdx = (r.readIdx + r.count) % n

/-- The elements held, oldest first. -/
def contents (n : Nat) (r : RingBuffer α) : List α :=
  (List.range r.count).map (fun i => r.cells ((r.readIdx + i) % n))

/-- Write one element. -/
def put (n : Nat) (r : RingBuffer α) (x : α) : RingBuffer α where
  cells := Function.update r.cells r.writeIdx x
  readIdx := r.readIdx
  writeIdx := (r.writeIdx + 1) % n
  count := r.count + 1

/-- Drop the oldest element. -/
def take (n : Nat) (r : RingBuffer α) : RingBuffer α :=
  { r with readIdx := (r.readIdx + 1) % n, count := r.count - 1 }

/-- Drop all elements. -/
def clear (r : RingBuffer α) : RingBuffer α := { r with readIdx := 0, writeIdx := 0, count := 0 }

theorem clear_ok (hn : 0 < n) : Ok n r.clear :=
  ⟨Nat.zero_le n, hn, hn, (Nat.mod_eq_of_lt hn).symm⟩

theorem put_ok (h : Ok n r) (hroom : r.count < n) (x : α) : Ok n (r.put n x) where
  count_le := hroom
  read_lt := h.read_lt
  write_lt := Nat.mod_lt _ (by omega)
  write_eq := by
    show (r.writeIdx + 1) % n = (r.readIdx + (r.count + 1)) % n
    rw [h.write_eq, Nat.mod_add_mod, Nat.add_assoc]

theorem take_ok (h : Ok n r) (hcount : 0 < r.count) : Ok n (r.take n) where
  count_le := by
    have := h.count_le
    show r.count - 1 ≤ n
    omega
  read_lt := Nat.mod_lt _ (by have := h.read_lt; omega)
  write_lt := h.write_lt
  write_eq := by
    show r.writeIdx = ((r.readIdx + 1) % n + (r.count - 1)) % n
    rw [h.write_eq, Nat.mod_add_mod]
    congr 1
    omega

/-- Cells less than a full turn apart are different. -/
theorem cell_ne {a i j : Nat} (hi : i < j) (hj : j < n) :
    (a + i) % n ≠ (a + j) % n := by
  intro h
  have hij : i % n = j % n := Nat.ModEq.add_left_cancel' a h
  rw [Nat.mod_eq_of_lt (by omega), Nat.mod_eq_of_lt hj] at hij
  omega

/-- **Writing appends.** -/
theorem contents_put (h : Ok n r) (hroom : r.count < n) (x : α) :
    contents n (r.put n x) = contents n r ++ [x] := by
  have hold : ∀ i ∈ List.range r.count, (r.put n x).cells ((r.readIdx + i) % n) =
      r.cells ((r.readIdx + i) % n) := by
    intro i hi
    refine Function.update_of_ne ?_ _ _
    rw [h.write_eq]
    exact cell_ne (List.mem_range.mp hi) hroom
  have hnew : (r.put n x).cells ((r.readIdx + r.count) % n) = x := by
    rw [← h.write_eq]
    exact Function.update_self ..
  show (List.range (r.count + 1)).map (fun i => (r.put n x).cells ((r.readIdx + i) % n)) = _
  rw [List.range_succ, List.map_append, List.map_congr_left hold, List.map_singleton, hnew]
  rfl

/-- **Reading takes the oldest element.** -/
theorem contents_take (h : Ok n r) (hcount : 0 < r.count) :
    contents n r = r.cells r.readIdx :: contents n (r.take n) := by
  obtain ⟨c, hc⟩ : ∃ c, r.count = c + 1 := ⟨r.count - 1, by omega⟩
  have hfirst : (r.readIdx + 0) % n = r.readIdx := Nat.mod_eq_of_lt h.read_lt
  have hcells : ∀ i, (r.readIdx + (i + 1)) % n = ((r.readIdx + 1) % n + i) % n := by
    intro i
    rw [Nat.mod_add_mod]
    congr 1
    omega
  unfold contents take
  simp only [hc, List.range_succ_eq_map, List.map_cons, List.map_map, hfirst, Nat.add_sub_cancel]
  refine congrArg (_ :: ·) (List.map_congr_left fun i _ => ?_)
  exact congrArg r.cells (hcells i)

end RingBuffer
