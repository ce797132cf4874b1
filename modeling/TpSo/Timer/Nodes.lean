import Mathlib.Data.List.Flatten
import TpSo.Library.LinkedQueue
import TpSo.Machine.Steps

set_option autoImplicit false

/-! # The timer handler on the nodes of the sleeping queue

`timer_handler` runs over the sleeping queue twice, and in the second loop takes nodes out of it and
frees them while its iterator is on the way. Here the queue is the linked nodes of `queueADT.c`, and
to touch a node or a block that has been freed is an error. On every sleeping queue the handler comes
to an end without one, and does to the queue what the kernel's model says. -/

namespace TpSo

open LinkedQueue

/-! ## `timer_handler` -/

/-- What a `SleepingProcess` block holds. -/
structure SleepingBlock where
  pid : Nat
  wakeTime : Nat
  deriving DecidableEq

/-- The nodes of the sleeping queue and the blocks they lead to. -/
abbrev TimerHeap := Heap Addr SleepingBlock

/-- The body of the first loop. -/
def wakeEntry (h : TimerHeap) (k : Kernel) : Option Addr → Option Kernel
  | none => some k
  | some process => do
    let b ← h.block process
    if b.wakeTime ≤ k.ticks then
      match processLookup k b.pid with
      | none => some k
      | some proc => some (processUnblock k proc).2
    else some k

/-- The first loop of `timer_handler`. -/
def wakeNodes (h : TimerHeap) : (fuel : Nat) → Iterator Addr → Kernel → Option Kernel
  | 0, _, _ => none
  | fuel + 1, it, k =>
    if hasNext it then do
      let r ← iterNext h it
      let k ← wakeEntry h k r.1
      wakeNodes h fuel r.2 k
    else some k

/-- The body of the second loop. -/
def dropEntry (ticks fuel : Nat) (h : TimerHeap) (q : LinkedQueue.Queue Addr) :
    Option Addr → Option (TimerHeap × LinkedQueue.Queue Addr)
  | none => some (h, q)
  | some process => do
    let b ← h.block process
    if b.wakeTime ≤ ticks then
      let r ← remove fuel h q process
      let h ← r.2.1.free process
      some (h, r.2.2)
    else some (h, q)

/-- The second loop of `timer_handler`. -/
def dropNodes (ticks limit : Nat) : (fuel : Nat) → Iterator Addr → TimerHeap →
    LinkedQueue.Queue Addr → Option (TimerHeap × LinkedQueue.Queue Addr)
  | 0, _, _, _ => none
  | fuel + 1, it, h, q =>
    if hasNext it then do
      let r ← iterNext h it
      let s ← dropEntry ticks limit h q r.1
      dropNodes ticks limit fuel r.2 s.1 s.2
    else some (h, q)

/-- `timer_handler`. The sleeping queue is `NULL` until the first sleep. -/
def timerHandlerNodes (fuel : Nat) (k : Kernel) (h : TimerHeap) (q : Option (LinkedQueue.Queue Addr)) :
    Option (Kernel × TimerHeap × Option (LinkedQueue.Queue Addr)) :=
  match q with
  | none => some (nextTick k, h, none)
  | some q =>
    if q.size = 0 then some (nextTick k, h, some q)
    else do
      let k ← wakeNodes h fuel (iter q) (nextTick k)
      let r ← dropNodes k.ticks fuel fuel (iter q) h q
      some (k, r.1, some r.2)

/-! ## The entries -/

/-- An entry of the sleeping queue and the node it hangs on. -/
structure SleepingEntry where
  node : Addr
  process : SleepingProcess

/-- The entry's time has come. -/
def SleepingEntry.expired (ticks : Nat) (e : SleepingEntry) : Bool := decide (e.process.wakeTime ≤ ticks)

/-- What the entry occupies: its node and its block. -/
def SleepingEntry.blocks (e : SleepingEntry) : List Addr := [e.node, e.process.addr]

/-- The nodes of the entries with their elements. -/
def cells (es : List SleepingEntry) : List (Addr × Addr) := es.map fun e => (e.node, e.process.addr)

/-- **The sleeping queue has these entries**, in this order, each with a block of its own. -/
structure HoldsEntries (h : TimerHeap) (q : LinkedQueue.Queue Addr) (es : List SleepingEntry) : Prop where
  queue : LinkedQueue.Holds h q (cells es)
  block : ∀ e ∈ es, h.block e.process.addr = some ⟨e.process.pid, e.process.wakeTime⟩
  distinct : (es.map (fun e => e.process.addr)).Nodup

/-- The same of the variable `sleeping_queue`. -/
def SleepingQueue (h : TimerHeap) : Option (LinkedQueue.Queue Addr) → List SleepingEntry → Prop
  | none, es => es = []
  | some q, es => HoldsEntries h q es

@[simp] theorem cells_append (es fs : List SleepingEntry) : cells (es ++ fs) = cells es ++ cells fs :=
  List.map_append

@[simp] theorem cells_cons (e : SleepingEntry) (es : List SleepingEntry) :
    cells (e :: es) = (e.node, e.process.addr) :: cells es := rfl

theorem mem_cells {e : SleepingEntry} {es : List SleepingEntry} (he : e ∈ es) :
    (e.node, e.process.addr) ∈ cells es := List.mem_map_of_mem he

namespace HoldsEntries

variable {h : TimerHeap} {q : LinkedQueue.Queue Addr} {es fs : List SleepingEntry} {e : SleepingEntry}

/-- The block of an entry is no node. -/
theorem node_ne_block (hq : HoldsEntries h q es) {e f : SleepingEntry} (he : e ∈ es) (hf : f ∈ es) :
    e.node ≠ f.process.addr := by
  obtain ⟨xs, ys, hsplit⟩ := List.append_of_mem (mem_cells he)
  have hnode : h.node e.node = some _ := LinkedQueue.Holds.node (hsplit ▸ hq.queue)
  have hblock := hq.block f hf
  intro heq
  rw [Heap.node_eq_some] at hnode
  rw [Heap.block_eq_some, ← heq, hnode] at hblock
  cases hblock

/-- The cell of a node or of a block is taken. -/
theorem cell_ne_none (hq : HoldsEntries h q es) {a : Addr} (he : e ∈ es) (ha : a ∈ e.blocks) :
    h.cell a ≠ none := by
  rcases List.mem_cons.mp ha with rfl | ha
  · obtain ⟨xs, ys, hsplit⟩ := List.append_of_mem (mem_cells he)
    have hnode : h.node e.node = some _ := LinkedQueue.Holds.node (hsplit ▸ hq.queue)
    rw [Heap.node_eq_some.mp hnode]
    exact Option.some_ne_none _
  · obtain rfl := List.mem_singleton.mp ha
    rw [Heap.block_eq_some.mp (hq.block e he)]
    exact Option.some_ne_none _

/-- No two entries share a node or a block. -/
theorem blocks_nodup (hq : HoldsEntries h q es) : (es.flatMap SleepingEntry.blocks).Nodup := by
  have hnodes : es.Pairwise (fun e f => e.node ≠ f.node) := by
    have hnodup := hq.queue.nodup
    unfold cells at hnodup
    rw [List.map_map] at hnodup
    exact List.pairwise_map.mp hnodup
  have hboth := hnodes.and (List.pairwise_map.mp hq.distinct)
  refine List.nodup_flatMap.mpr ⟨fun e he => ?_, ?_⟩
  · exact List.nodup_cons.mpr ⟨by simpa using hq.node_ne_block he he, List.nodup_singleton _⟩
  · refine hboth.imp_of_mem ?_
    rintro e f he hf ⟨hnode, hblock⟩ a hae haf
    simp only [SleepingEntry.blocks, List.mem_cons, List.not_mem_nil, or_false] at hae haf
    rcases hae with rfl | rfl <;> rcases haf with haf | haf
    · exact hnode haf
    · exact hq.node_ne_block he hf haf
    · exact hq.node_ne_block hf he haf.symm
    · exact hblock haf

/-- `queue_create` and the `queue_push` of `sleepTicks` give the queue its entries. -/
theorem create (h : TimerHeap) : HoldsEntries h LinkedQueue.create [] where
  queue := create_holds h
  block _ he := absurd he List.not_mem_nil
  distinct := List.nodup_nil

theorem push (hq : HoldsEntries h q es) (hnode : h.cell e.node = none)
    (hblock : h.cell e.process.addr = none) (hne : e.node ≠ e.process.addr) :
    ∃ h' q', LinkedQueue.push (h.store e.process.addr (.inr ⟨e.process.pid, e.process.wakeTime⟩)) q
        e.node (some e.process.addr) = some (h', q') ∧ HoldsEntries h' q' (es ++ [e]) := by
  set h1 := h.store e.process.addr (.inr ⟨e.process.pid, e.process.wakeTime⟩) with hh1
  have hold : ∀ a, a ≠ e.process.addr → h1.cell a = h.cell a := fun a ha =>
    Function.update_of_ne ha ..
  have htaken : ∀ f ∈ es, ∀ a ∈ f.blocks, a ≠ e.process.addr ∧ a ≠ e.node := by
    intro f hf a ha
    exact ⟨fun he => hq.cell_ne_none hf ha (he ▸ hblock), fun he => hq.cell_ne_none hf ha (he ▸ hnode)⟩
  have hqueue : LinkedQueue.Holds h1 q (cells es) := by
    refine hq.queue.congr fun x hx => ?_
    obtain ⟨f, hf, rfl⟩ := List.mem_map.mp hx
    exact hold _ (htaken f hf _ (by simp [SleepingEntry.blocks])).1
  have hfresh : ∀ a, (∀ f ∈ es, a ≠ f.node) → a ∉ (cells es).map Prod.fst := by
    intro a ha hin
    obtain ⟨x, hx, rfl⟩ := List.mem_map.mp hin
    obtain ⟨f, hf, rfl⟩ := List.mem_map.mp hx
    exact ha f hf rfl
  -- the node and the block are new, so linking them in touches nothing the queue holds
  obtain ⟨h', q', hpush, hholds, -, hrest⟩ := push_spec (d := e.process.addr) hqueue
    (hfresh e.node fun f hf he => (htaken f hf f.node (by simp [SleepingEntry.blocks])).2 he.symm)
  refine ⟨h', q', hpush, ?_, fun f hf => ?_, ?_⟩
  · rw [cells_append]
    exact hholds
  · rcases List.mem_append.mp hf with hf | hf
    · have hother := htaken f hf f.process.addr (by simp [SleepingEntry.blocks])
      rw [← hq.block f hf]
      refine Heap.block_congr ((hrest _ (hfresh _ fun g hg he => ?_) hother.2).trans (hold _ hother.1))
      exact hq.node_ne_block hg hf he.symm
    · obtain rfl := List.mem_singleton.mp hf
      have hself : h1.cell f.process.addr = some (.inr ⟨f.process.pid, f.process.wakeTime⟩) :=
        Function.update_self ..
      rw [Heap.block_eq_some, hrest _ (hfresh _ fun g hg he => ?_) hne.symm, hself]
      exact (htaken g hg g.node (by simp [SleepingEntry.blocks])).1 he.symm
  · rw [List.map_append]
    refine hq.distinct.append (List.nodup_singleton _) fun a ha hae => ?_
    obtain ⟨f, hf, rfl⟩ := List.mem_map.mp ha
    exact (htaken f hf f.process.addr (by simp [SleepingEntry.blocks])).1 (List.mem_singleton.mp hae)

end HoldsEntries

/-! ## The second loop -/

/-- What the second loop has done when it has dropped `gone` and kept `kept`. -/
structure Dropped (h h' : TimerHeap) (q' : Option (LinkedQueue.Queue Addr))
    (kept gone : List SleepingEntry) : Prop where
  entries : SleepingQueue h' q' kept
  freed : h'.freed = h.freed ++ gone.flatMap SleepingEntry.blocks
  away : ∀ e ∈ gone, ∀ a ∈ e.blocks, h'.cell a = none
  rest : ∀ a, a ∉ kept.map SleepingEntry.node → a ∉ gone.flatMap SleepingEntry.blocks →
    h'.cell a = h.cell a

section Drop
variable {h h' : TimerHeap} {q q' : LinkedQueue.Queue Addr} {ks rs : List SleepingEntry}
  {e : SleepingEntry} {ticks fuel : Nat}

theorem Dropped.none {q : Option (LinkedQueue.Queue Addr)} (hq : SleepingQueue h q ks) :
    Dropped h h q ks [] where
  entries := hq
  freed := (List.append_nil _).symm
  away _ he := absurd he List.not_mem_nil
  rest _ _ _ := rfl

/-- An entry whose time has not come is left alone. -/
theorem dropEntry_keep (hq : HoldsEntries h q (ks ++ e :: rs)) (he : e.expired ticks = false) :
    dropEntry ticks fuel h q (some e.process.addr) = some (h, q) := by
  have hblock := hq.block e (by simp)
  rw [dropEntry, hblock]
  simp only [Option.bind_eq_bind, Option.bind_some]
  exact if_neg (of_decide_eq_false he)

/-- An expired entry loses its node and its block. -/
theorem dropEntry_drop (hq : HoldsEntries h q (ks ++ e :: rs)) (he : e.expired ticks = true)
    (hfuel : ks.length < fuel) :
    ∃ h' q', dropEntry ticks fuel h q (some e.process.addr) = some (h', q') ∧
      Dropped h h' (some q') (ks ++ rs) [e] := by
  have hmem : e ∈ ks ++ e :: rs := by simp
  have hsub : ∀ f ∈ ks ++ rs, f ∈ ks ++ e :: rs := fun f hf => by
    rcases List.mem_append.mp hf with hf | hf
    · exact List.mem_append_left _ hf
    · exact List.mem_append_right _ (List.mem_cons_of_mem e hf)
  have hblock := hq.block e hmem
  have hqueue : LinkedQueue.Holds h q (cells ks ++ (e.node, e.process.addr) :: cells rs) := by
    simpa using hq.queue
  have hdistinct := hq.distinct
  rw [List.map_append, List.map_cons, List.nodup_middle, ← List.map_append] at hdistinct
  obtain ⟨hother, hdistinct⟩ := List.nodup_cons.mp hdistinct
  have hnotin : e.process.addr ∉ (cells ks).map Prod.snd := by
    intro hin
    obtain ⟨x, hx, heq⟩ := List.mem_map.mp hin
    obtain ⟨f, hf, rfl⟩ := List.mem_map.mp hx
    exact hother (heq ▸ List.mem_map_of_mem (List.mem_append_left rs hf))
  have hlen : (cells ks).length < fuel := by simpa [cells] using hfuel
  obtain ⟨h1, q1, hremove, hholds, hfreed, hnode, hrest⟩ := remove_spec hqueue hnotin hlen
  have hnodes : ∀ a, (∀ f ∈ ks, a ≠ f.node) → a ∉ (cells ks).map Prod.fst := by
    intro a ha hin
    obtain ⟨x, hx, rfl⟩ := List.mem_map.mp hin
    obtain ⟨f, hf, rfl⟩ := List.mem_map.mp hx
    exact ha f hf rfl
  -- a block is no node, so it is where it was
  have hkept : ∀ f ∈ ks ++ e :: rs, h1.cell f.process.addr = h.cell f.process.addr := fun f hf =>
    hrest _ (hnodes _ fun g hg heq => hq.node_ne_block (by simp [hg]) hf heq.symm)
      (hq.node_ne_block hmem hf).symm
  have hcell : h1.cell e.process.addr = some (.inr ⟨e.process.pid, e.process.wakeTime⟩) := by
    rw [hkept e hmem]
    exact Heap.block_eq_some.mp hblock
  refine ⟨{ cell := Function.update h1.cell e.process.addr none, freed := h1.freed ++ [e.process.addr] },
    q1, ?_, ?_, ?_, ?_, ?_⟩
  · rw [dropEntry, hblock]
    simp only [Option.bind_eq_bind, Option.bind_some]
    rw [if_pos (of_decide_eq_true he), hremove]
    simp only [Option.bind_some, Heap.free_of_cell hcell]
  · refine ⟨?_, fun f hf => ?_, hdistinct⟩
    · rw [cells_append]
      refine hholds.congr fun x hx => Function.update_of_ne ?_ ..
      rw [← cells_append] at hx
      obtain ⟨f, hf, rfl⟩ := List.mem_map.mp hx
      exact hq.node_ne_block (hsub f hf) hmem
    · have hne : f.process.addr ≠ e.process.addr := fun heq =>
        hother (heq ▸ List.mem_map_of_mem hf)
      rw [← hq.block f (hsub f hf)]
      exact Heap.block_congr ((Function.update_of_ne hne ..).trans (hkept f (hsub f hf)))
  · simp [hfreed, SleepingEntry.blocks]
  · intro f hf a ha
    obtain rfl := List.mem_singleton.mp hf
    rcases List.mem_cons.mp ha with rfl | ha
    · exact (Function.update_of_ne (hq.node_ne_block hmem hmem) ..).trans hnode
    · obtain rfl := List.mem_singleton.mp ha
      exact Function.update_self ..
  · intro a hnot hgone
    simp only [SleepingEntry.blocks, List.flatMap_cons, List.flatMap_nil, List.append_nil,
      List.mem_cons, List.not_mem_nil, or_false, not_or] at hgone
    refine (Function.update_of_ne hgone.2 ..).trans (hrest a (hnodes a fun f hf heq => ?_) hgone.1)
    exact hnot (heq ▸ List.mem_map_of_mem (List.mem_append_left rs hf))

/-- What is dropped after what has been dropped. -/
theorem Dropped.trans {h'' : TimerHeap} {q'' : LinkedQueue.Queue Addr}
    {kept gone gone' : List SleepingEntry} (hd : Dropped h h' (some q') ks gone)
    (hd' : Dropped h' h'' (some q'') kept gone') (hkept : kept.Sublist ks) (hgone : gone'.Sublist ks)
    (hdone : ∀ f ∈ ks, f ∈ kept ∨ f ∈ gone') : Dropped h h'' (some q'') kept (gone ++ gone') where
  entries := hd'.entries
  freed := by rw [hd'.freed, hd.freed, List.append_assoc, List.flatMap_append]
  away f hf a ha := by
    rcases List.mem_append.mp hf with hf | hf
    · -- what was freed before is none of the cells still in use
      have hnone := hd.away f hf a ha
      have hold : HoldsEntries h' q' ks := hd.entries
      rw [hd'.rest a ?_ ?_, hnone]
      · intro hin
        obtain ⟨g, hg, rfl⟩ := List.mem_map.mp hin
        exact hold.cell_ne_none (hkept.mem hg) (by simp [SleepingEntry.blocks]) hnone
      · intro hin
        obtain ⟨g, hg, hag⟩ := List.mem_flatMap.mp hin
        exact hold.cell_ne_none (hgone.mem hg) hag hnone
    · exact hd'.away f hf a ha
  rest a hnot hgone' := by
    rw [List.flatMap_append, List.mem_append, not_or] at hgone'
    rw [hd'.rest a hnot hgone'.2]
    refine hd.rest a (fun hin => ?_) hgone'.1
    obtain ⟨f, hf, rfl⟩ := List.mem_map.mp hin
    rcases hdone f hf with hf | hf
    · exact hnot (List.mem_map_of_mem hf)
    · exact hgone'.2 (List.mem_flatMap.mpr ⟨f, hf, by simp [SleepingEntry.blocks]⟩)

/-- **The second loop** drops the expired entries of those still before it and keeps the others. -/
theorem dropNodes_spec (ticks limit : Nat) (rs : List SleepingEntry) :
    ∀ (ks : List SleepingEntry) (fuel : Nat) (it : Iterator Addr) (h : TimerHeap)
      (q : LinkedQueue.Queue Addr), HoldsEntries h q (ks ++ rs) → it.current = first (cells rs) →
      rs.length < fuel → (ks ++ rs).length < limit →
      ∃ h' q', dropNodes ticks limit fuel it h q = some (h', q') ∧
        Dropped h h' (some q') (ks ++ rs.filter fun e => !e.expired ticks)
          (rs.filter (·.expired ticks)) := by
  induction rs with
  | nil =>
    intro ks fuel it h q hq hit hfuel _
    obtain ⟨fuel, rfl⟩ : ∃ n, fuel = n + 1 := ⟨fuel - 1, by simp at hfuel; omega⟩
    refine ⟨h, q, ?_, ?_⟩
    · simp [dropNodes, hasNext, hit, cells]
    · exact Dropped.none hq
  | cons e rs ih =>
    intro ks fuel it h q hq hit hfuel hlimit
    obtain ⟨fuel, rfl⟩ : ∃ n, fuel = n + 1 := ⟨fuel - 1, by simp at hfuel; omega⟩
    have hqueue : LinkedQueue.Holds h q (cells ks ++ (e.node, e.process.addr) :: cells rs) := by
      simpa using hq.queue
    have hnext := iterNext_spec hqueue hit
    have hmore : hasNext it = true := by simp [hasNext, hit]
    rw [dropNodes, if_pos hmore, hnext]
    simp only [Option.bind_eq_bind, Option.bind_some]
    cases he : e.expired ticks with
    | false =>
      have hks : HoldsEntries h q (ks ++ [e] ++ rs) := by simpa using hq
      rw [dropEntry_keep hq he]
      obtain ⟨h', q', hrun, hdropped⟩ := ih (ks ++ [e]) fuel { current := first (cells rs) } h q hks rfl
        (by simpa using hfuel) (by simpa using hlimit)
      refine ⟨h', q', hrun, ?_⟩
      rw [List.filter_cons_of_pos (by simp [he]), List.filter_cons_of_neg (by simp [he])]
      simpa using hdropped
    | true =>
      -- the iterator is past the node that goes
      obtain ⟨h1, q1, hdrop, hd⟩ := dropEntry_drop hq he
        (show ks.length < limit by simp at hlimit; omega)
      rw [hdrop]
      obtain ⟨h', q', hrun, hdropped⟩ := ih ks fuel { current := first (cells rs) } h1 q1 hd.entries rfl
        (by simpa using hfuel) (by simp at hlimit ⊢; omega)
      refine ⟨h', q', hrun, ?_⟩
      rw [List.filter_cons_of_neg (by simp [he]), List.filter_cons_of_pos he]
      refine hd.trans hdropped (List.filter_sublist.append_left ks)
        (List.filter_sublist.trans (List.sublist_append_right ks rs)) fun f hf => ?_
      rcases List.mem_append.mp hf with hf | hf
      · exact .inl (List.mem_append_left _ hf)
      · cases hx : f.expired ticks with
        | false => exact .inl (List.mem_append_right _ (List.mem_filter.mpr ⟨hf, by simp [hx]⟩))
        | true => exact .inr (List.mem_filter.mpr ⟨hf, hx⟩)

end Drop

/-! ## The first loop -/

/-- The first loop wakes the processes of the expired entries, in their order. -/
theorem wakeNodes_spec {h : TimerHeap} {q : LinkedQueue.Queue Addr} (rs : List SleepingEntry) :
    ∀ (ks : List SleepingEntry) (fuel : Nat) (it : Iterator Addr) (k : Kernel),
      HoldsEntries h q (ks ++ rs) → it.current = first (cells rs) → rs.length < fuel →
      wakeNodes h fuel it k = some (wakeSleepers k (rs.map SleepingEntry.process)) := by
  induction rs with
  | nil =>
    intro ks fuel it k _ hit hfuel
    obtain ⟨fuel, rfl⟩ : ∃ n, fuel = n + 1 := ⟨fuel - 1, by simp at hfuel; omega⟩
    simp [wakeNodes, hasNext, hit, cells, wakeSleepers]
  | cons e rs ih =>
    intro ks fuel it k hq hit hfuel
    obtain ⟨fuel, rfl⟩ : ∃ n, fuel = n + 1 := ⟨fuel - 1, by simp at hfuel; omega⟩
    have hqueue : LinkedQueue.Holds h q (cells ks ++ (e.node, e.process.addr) :: cells rs) := by
      simpa using hq.queue
    have hks : HoldsEntries h q (ks ++ [e] ++ rs) := by simpa using hq
    have hmore : hasNext it = true := by simp [hasNext, hit]
    have hrest : ∀ k, wakeNodes h fuel { current := first (cells rs) } k =
        some (wakeSleepers k (rs.map SleepingEntry.process)) := fun k =>
      ih (ks ++ [e]) fuel _ k hks rfl (by simpa using hfuel)
    rw [wakeNodes, if_pos hmore, iterNext_spec hqueue hit]
    simp only [Option.bind_eq_bind, Option.bind_some]
    rw [wakeEntry, hq.block e (by simp), List.map_cons, wakeSleepers]
    simp only [Option.bind_eq_bind, Option.bind_some]
    by_cases hwake : e.process.wakeTime ≤ k.ticks
    · simp only [if_pos hwake]
      cases processLookup k e.process.pid with
      | none => exact hrest k
      | some proc => exact hrest (processUnblock k proc).2
    · simp only [if_neg hwake]
      exact hrest k

/-- The first loop unblocks, in their order, the registered processes of the expired entries. -/
theorem wakeSleepers_eq (es : List SleepingProcess) : ∀ k : Kernel, wakeSleepers k es =
    (es.filterMap fun e => if e.wakeTime ≤ k.ticks then processLookup k e.pid else none).foldl
      (fun k p => (processUnblock k p).2) k := by
  induction es with
  | nil => exact fun _ => rfl
  | cons e rest ih =>
    intro k
    rw [wakeSleepers, List.filterMap_cons]
    by_cases hwake : e.wakeTime ≤ k.ticks
    · simp only [if_pos hwake]
      cases hp : processLookup k e.pid with
      | none => exact ih k
      | some p =>
        have hout := outer_of_outside (processUnblock_outside k p)
        dsimp only
        rw [ih, List.foldl_cons]
        simp only [ticks_of_outer hout, processLookup_of_outer hout]
    · simp only [if_neg hwake]
      exact ih k

/-- Unblocking some processes makes those of them that are `BLOCKED` `READY`. -/
theorem unblock_state (ps : List Addr) : ∀ (k : Kernel) (p : Addr),
    ((ps.foldl (fun k p => (processUnblock k p).2) k).proc p).state =
      if p ∈ ps ∧ (k.proc p).state = .blocked then .ready else (k.proc p).state := by
  induction ps with
  | nil =>
    intro k p
    simp
  | cons p' ps ih =>
    intro k p
    rw [List.foldl_cons, ih, (processUnblock_between k p').state p, unblockedState]
    by_cases hp : p = p'
    · subst hp
      by_cases hb : (k.proc p).state = .blocked <;> simp [hb]
    · simp [hp]

/-! ## The whole handler -/

/-- Who is woken: a process that is `BLOCKED` and registered under the pid of an expired entry. -/
def WokenBy (k : Kernel) (es : List SleepingEntry) (p : Addr) : Prop :=
  (k.proc p).state = .blocked ∧
    ∃ e ∈ es, e.expired (nextTick k).ticks = true ∧ processLookup k e.process.pid = some p

theorem wakeSleepers_entries (k : Kernel) (es : List SleepingEntry) :
    wakeSleepers (nextTick k) (es.map SleepingEntry.process) =
      ((es.filter (·.expired (nextTick k).ticks)).filterMap
        fun e => processLookup k e.process.pid).foldl (fun k p => (processUnblock k p).2) (nextTick k) := by
  rw [wakeSleepers_eq, List.filterMap_map, List.filterMap_filter]
  simp only [Function.comp_def, SleepingEntry.expired, decide_eq_true_eq]
  rfl

theorem wakeSleepers_state (k : Kernel) (es : List SleepingEntry) (p : Addr) :
    (WokenBy k es p →
      ((wakeSleepers (nextTick k) (es.map SleepingEntry.process)).proc p).state = .ready) ∧
    (¬ WokenBy k es p →
      ((wakeSleepers (nextTick k) (es.map SleepingEntry.process)).proc p).state = (k.proc p).state) := by
  have hiff : (p ∈ (es.filter (·.expired (nextTick k).ticks)).filterMap
        (fun e => processLookup k e.process.pid) ∧ ((nextTick k).proc p).state = .blocked) ↔
      WokenBy k es p := by
    simp only [WokenBy, List.mem_filterMap, List.mem_filter, and_assoc]
    exact and_comm
  rw [wakeSleepers_entries, unblock_state]
  exact ⟨fun hw => if_pos (hiff.mpr hw), fun hw => if_neg fun h => hw (hiff.mp h)⟩

theorem SleepingQueue.blocks_nodup {h : TimerHeap} {q : Option (LinkedQueue.Queue Addr)}
    {es : List SleepingEntry} (hq : SleepingQueue h q es) : (es.flatMap SleepingEntry.blocks).Nodup := by
  cases q with
  | none =>
    obtain rfl : es = [] := hq
    exact List.nodup_nil
  | some q => exact HoldsEntries.blocks_nodup hq

/-- The two loops in a row. -/
theorem timerHandlerNodes_spec {k : Kernel} {h : TimerHeap} {q : Option (LinkedQueue.Queue Addr)}
    {es : List SleepingEntry} (hq : SleepingQueue h q es) {fuel : Nat} (hfuel : es.length < fuel) :
    ∃ h' q', timerHandlerNodes fuel k h q =
        some (wakeSleepers (nextTick k) (es.map SleepingEntry.process), h', q') ∧
      q'.isSome = q.isSome ∧
      Dropped h h' q' (es.filter fun e => !e.expired (nextTick k).ticks)
        (es.filter (·.expired (nextTick k).ticks)) := by
  cases q with
  | none =>
    obtain rfl : es = [] := hq
    exact ⟨h, none, rfl, rfl, .none rfl⟩
  | some q =>
    have hq : HoldsEntries h q es := hq
    by_cases hzero : q.size = 0
    · have hlen := hq.queue.size
      rw [hzero, cells, List.length_map] at hlen
      obtain rfl := List.eq_nil_of_length_eq_zero hlen.symm
      exact ⟨h, some q, by rw [timerHandlerNodes, if_pos hzero]; rfl, rfl, .none hq⟩
    · have hwake := wakeNodes_spec es [] fuel (iter q) (nextTick k) hq hq.queue.head hfuel
      obtain ⟨h', q', hdrop, hd⟩ := dropNodes_spec (nextTick k).ticks fuel es [] fuel (iter q) h q hq
        hq.queue.head hfuel hfuel
      have hticks := ticks_of_outer
        (outer_of_outside (wakeSleepers_outside (es.map SleepingEntry.process) (nextTick k)))
      refine ⟨h', some q', ?_, rfl, hd⟩
      rw [timerHandlerNodes, if_neg hzero, hwake]
      simp only [Option.bind_eq_bind, Option.bind_some, hticks, hdrop]

/-- **`timer_handler`** on the nodes of any sleeping queue: with one round of fuel more than there are
    entries it comes to an end and touches no node or block that is not there. It calls
    `process_unblock` for the registered process of every expired entry, in their order, which makes
    `READY` those that are `BLOCKED`; it takes out of the queue and frees, each once, the node and the
    block of every expired entry, and nothing else; the entries left are the others, in their order. -/
theorem timer_handler_nodes {k : Kernel} {h : TimerHeap} {q : Option (LinkedQueue.Queue Addr)}
    {es : List SleepingEntry} (hq : SleepingQueue h q es) {fuel : Nat} (hfuel : es.length < fuel) :
    ∃ k' h' q', timerHandlerNodes fuel k h q = some (k', h', q') ∧
      (k' = ((es.filter (·.expired (nextTick k).ticks)).filterMap
          fun e => processLookup k e.process.pid).foldl (fun k p => (processUnblock k p).2) (nextTick k)) ∧
      (∀ p, (WokenBy k es p → (k'.proc p).state = .ready) ∧
        (¬ WokenBy k es p → (k'.proc p).state = (k.proc p).state)) ∧
      SleepingQueue h' q' (es.filter fun e => !e.expired (nextTick k).ticks) ∧
      h'.freed = h.freed ++ (es.filter (·.expired (nextTick k).ticks)).flatMap SleepingEntry.blocks ∧
      ((es.filter (·.expired (nextTick k).ticks)).flatMap SleepingEntry.blocks).Nodup ∧
      (∀ e ∈ es, e.expired (nextTick k).ticks = true → ∀ a ∈ e.blocks, h'.cell a = none) ∧
      (∀ a, a ∉ es.flatMap SleepingEntry.blocks → h'.cell a = h.cell a) := by
  obtain ⟨h', q', hrun, -, hd⟩ := timerHandlerNodes_spec hq (k := k) hfuel
  refine ⟨_, h', q', hrun, wakeSleepers_entries k es, wakeSleepers_state k es, hd.entries, hd.freed,
    (hq.blocks_nodup).sublist (List.filter_sublist.flatMap _), fun e he hx =>
      hd.away e (List.mem_filter.mpr ⟨he, hx⟩), fun a ha => hd.rest a (fun hin => ?_) fun hin => ?_⟩
  · obtain ⟨e, he, rfl⟩ := List.mem_map.mp hin
    exact ha (List.mem_flatMap.mpr ⟨e, List.mem_of_mem_filter he, by simp [SleepingEntry.blocks]⟩)
  · obtain ⟨e, he, hae⟩ := List.mem_flatMap.mp hin
    exact ha (List.mem_flatMap.mpr ⟨e, List.mem_of_mem_filter he, hae⟩)

/-- Three sleepers, of whom the first and the last wake at the first tick. -/
def threeSleepers : List SleepingEntry :=
  [⟨10, 11, 2, 1⟩, ⟨20, 21, 3, 2⟩, ⟨30, 31, 2, 1⟩]

/-- Their nodes and blocks. -/
def threeHeap : TimerHeap where
  cell a :=
    if a = 10 then some (.inl { data := some 11, next := some 20 })
    else if a = 20 then some (.inl { data := some 21, next := some 30 })
    else if a = 30 then some (.inl { data := some 31, next := none })
    else if a = 11 ∨ a = 31 then some (.inr { pid := 2, wakeTime := 1 })
    else if a = 21 then some (.inr { pid := 3, wakeTime := 2 })
    else none
  freed := []

theorem timer_handler_nodes_three : ∃ k' h' q',
    timerHandlerNodes 4 (Boot.kernel fun n => some n) threeHeap
      (some { head := some 10, tail := some 30, size := 3 }) = some (k', h', q') ∧
    SleepingQueue h' q' [⟨20, 21, 3, 2⟩] ∧ h'.freed = [10, 11, 30, 31] := by
  have hq : HoldsEntries threeHeap { head := some 10, tail := some 30, size := 3 } threeSleepers :=
    ⟨⟨⟨rfl, rfl, rfl, trivial⟩, by decide, rfl, rfl, rfl⟩, by decide, by decide⟩
  obtain ⟨k', h', q', hrun, -, -, hentries, hfreed, -⟩ :=
    timer_handler_nodes (k := Boot.kernel fun n => some n) (q := some _) hq (show 3 < 4 by decide)
  exact ⟨k', h', q', hrun, hentries, hfreed⟩

/-! ## The kernel's model -/

/-- The second loop of the kernel's model, on a queue of distinct entries. -/
theorem dropSleepers_eq (rs : List SleepingProcess) : ∀ (ks : List SleepingProcess) (k : Kernel),
    (ks ++ rs).Nodup → k.sleepingQueue = some (ks ++ rs) →
    dropSleepers k rs = { k with
      sleepingQueue := some (ks ++ rs.filter fun e => !decide (e.wakeTime ≤ k.ticks))
      live := (dropSleepers k rs).live } ∧
    ∀ a, (dropSleepers k rs).live a =
      if ∃ e ∈ rs, e.wakeTime ≤ k.ticks ∧ e.addr = a then none else k.live a := by
  -- on the entries still to look at, with those kept so far in front of them
  induction rs with
  | nil =>
    intro ks k _ hk
    refine ⟨?_, fun a => by simp [dropSleepers]⟩
    rw [List.filter_nil, ← hk]
    rfl
  | cons e rs ih =>
    intro ks k hnodup hk
    have hnot : e ∉ ks := by
      rw [List.nodup_middle] at hnodup
      exact fun he => (List.nodup_cons.mp hnodup).1 (List.mem_append_left rs he)
    have hremaining : (ks ++ rs).Nodup :=
      hnodup.sublist ((List.sublist_cons_self e rs).append_left ks)
    by_cases hwake : e.wakeTime ≤ k.ticks
    · have herase : (queueRemove k.sleepingQueue e).2 = some (ks ++ rs) := by
        rw [hk, queueRemove, List.erase_append_right _ hnot, List.erase_cons_head]
      rw [dropSleepers]
      simp only [if_pos hwake, herase]
      obtain ⟨hrun, hlive⟩ := ih ks (Kernel.memFree { k with sleepingQueue := some (ks ++ rs) } e.addr)
        hremaining rfl
      refine ⟨?_, fun a => ?_⟩
      · rw [List.filter_cons_of_neg (by simp [hwake])]
        exact hrun
      · rw [hlive a]
        simp only [Kernel.memFree, List.mem_cons, exists_eq_or_imp, hwake, true_and,
          Function.update_apply]
        by_cases ha : e.addr = a
        · simp [ha]
        · simp [ha, Ne.symm ha]
    · rw [dropSleepers]
      simp only [if_neg hwake]
      obtain ⟨hrun, hlive⟩ := ih (ks ++ [e]) k (by simpa using hnodup) (by simpa using hk)
      refine ⟨?_, fun a => ?_⟩
      · rw [List.filter_cons_of_pos (by simp [hwake])]
        simpa using hrun
      · rw [hlive a]
        simp [hwake]

/-- **Refinement**: what the handler does on the nodes is what it does in the kernel's model, where
    the queue is a list. -/
theorem timerHandler_refined {k k' : Kernel} {h h' : TimerHeap} {q q' : Option (LinkedQueue.Queue Addr)}
    {es : List SleepingEntry} {fuel : Nat} (hq : SleepingQueue h q es) (hfuel : es.length < fuel)
    (hk : k.sleepingQueue = q.map fun _ => es.map SleepingEntry.process)
    (hrun : timerHandlerNodes fuel k h q = some (k', h', q')) :
    ∃ es', SleepingQueue h' q' es' ∧
      (timerHandler k).sleepingQueue = q'.map (fun _ => es'.map SleepingEntry.process) ∧
      timerHandler k = { k' with
        sleepingQueue := (timerHandler k).sleepingQueue, live := (timerHandler k).live } := by
  obtain ⟨h1, q1, hspec, hsome, hd⟩ := timerHandlerNodes_spec hq (k := k) hfuel
  rw [hrun] at hspec
  cases hspec
  refine ⟨_, hd.entries, ?_, ?_⟩
  · have hout := wakeSleepers_outside (k.sleepingQueue.getD []) (nextTick k)
    have hform : timerHandler k = dropSleepers (wakeSleepers (nextTick k) (k.sleepingQueue.getD []))
        ((wakeSleepers (nextTick k) (k.sleepingQueue.getD [])).sleepingQueue.getD []) := rfl
    have hticks := ticks_of_outer (outer_of_outside hout)
    have hwoken : (wakeSleepers (nextTick k) (k.sleepingQueue.getD [])).sleepingQueue = k.sleepingQueue :=
      (congrArg Kernel.sleepingQueue hout :)
    rw [hform]
    -- waking changes neither the clock nor the queue, so both sides drop the same entries
    revert hticks hwoken
    generalize wakeSleepers (nextTick k) (k.sleepingQueue.getD []) = woken
    intro hticks hwoken
    cases q with
    | none =>
      obtain rfl : es = [] := hq
      cases q' with
      | some q' => cases hsome
      | none =>
        rw [hk] at hwoken
        rw [hwoken]
        exact hwoken
    | some q =>
      cases q' with
      | none => cases hsome
      | some q' =>
        have hdistinct : (es.map SleepingEntry.process).Nodup := by
          have hnodup := HoldsEntries.distinct hq
          refine List.Nodup.of_map (fun p => p.addr) ?_
          rwa [List.map_map]
        have hstart : woken.sleepingQueue = some ([] ++ es.map SleepingEntry.process) := hwoken.trans hk
        rw [hstart, Option.getD_some, List.nil_append,
          (dropSleepers_eq (es.map SleepingEntry.process) [] woken hdistinct hstart).1, hticks]
        exact congrArg some List.filter_map
  · have hentries : k.sleepingQueue.getD [] = es.map SleepingEntry.process := by
      rw [hk]
      cases q with
      | none =>
        obtain rfl : es = [] := hq
        rfl
      | some q => rfl
    have hkernel := timerHandler_kernel k
    rwa [hentries] at hkernel

end TpSo
