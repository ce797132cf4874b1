import TpSo.Memory.MyMallocSound

set_option autoImplicit false

/-! # What `mem_status` of `myMalloc.c` reports

`mem_status` walks the list and adds up the sizes in the headers. Payloads and headers fill the heap, so
what it reports falls short of the heap by the headers alone. A block in use may be larger than what was asked
for, but by no more than the header that did not fit behind it. -/

namespace TpSo.MyMalloc

open Bytes Tiling

variable {heap : HeapArray} {mem : Memory} {c c' : Client} {s : State} {blocks : List Tiling.Block}
  {req : Request}

/-! ## The walk -/

/-- Where the sums stay below `2 ^ 64`, the loop adds up the sizes of the list. -/
theorem memStatusFrom_eq (hpos : ∀ b ∈ blocks, 0 < b.addr) {fuel curr used available : Nat}
    (h : Linked mem curr blocks NULL) (hfuel : blocks.length < fuel)
    (hused : used + payloadBytes false blocks < 2 ^ 64)
    (havailable : available + payloadBytes true blocks < 2 ^ 64) :
    memStatusFrom fuel mem curr used available =
      some (used + payloadBytes false blocks, available + payloadBytes true blocks) := by
  induction blocks generalizing fuel curr used available with
  | nil =>
    obtain ⟨fuel, rfl⟩ : ∃ k, fuel = k + 1 := ⟨fuel - 1, by simp only [List.length_nil] at hfuel; omega⟩
    have hcurr : curr = NULL := h
    rw [memStatusFrom, if_pos hcurr]
    rfl
  | cons b blocks ih =>
    obtain ⟨rfl, hb, hrest⟩ := h
    rw [List.length_cons] at hfuel
    obtain ⟨fuel, rfl⟩ : ∃ k, fuel = k + 1 := ⟨fuel - 1, by omega⟩
    have hnull : b.addr ≠ NULL := by
      have hb := hpos b List.mem_cons_self
      simp only [NULL]
      omega
    have hblocks : ∀ c ∈ blocks, 0 < c.addr := fun c hc => hpos c (List.mem_cons_of_mem b hc)
    rw [memStatusFrom, if_neg hnull, hb.1]
    rw [payloadBytes_cons] at hused havailable ⊢
    rw [payloadBytes_cons]
    cases hfree : b.free with
    | true =>
      simp only [hfree, if_true, Bool.true_eq_false, if_false, Nat.zero_add] at hused havailable ⊢
      have hwrap : (available + b.size) % 2 ^ 64 = available + b.size := Nat.mod_eq_of_lt (by omega)
      rw [if_pos (hb.2.mpr hfree), hwrap, ih hblocks hrest (by omega) hused (by omega)]
      rw [Nat.add_assoc]
    | false =>
      simp only [hfree, if_true, Bool.false_eq_true, if_false, Nat.zero_add] at hused havailable ⊢
      have hwrap : (used + b.size) % 2 ^ 64 = used + b.size := Nat.mod_eq_of_lt (by omega)
      have hinuse : ¬ getFree mem b.addr ≠ 0 := by simp [hb.2, hfree]
      rw [if_neg hinuse, hwrap, ih hblocks hrest (by omega) (by omega) havailable]
      rw [Nat.add_assoc]

theorem Laid.memStatus (h : Laid heap s blocks) :
    memStatus s = some ⟨HEAP_SIZE, payloadBytes false blocks, payloadBytes true blocks⟩ := by
  have htotal := h.tiles.total
  have hheap := heap.fits
  rw [MyMalloc.memStatus, memStatusFrom_eq (fun b hb => h.addr_pos hb) h.linked h.length_lt (by omega) (by omega)]
  simp only [Nat.zero_add, Option.map_some]

/-! ## How much larger than asked for a block is -/

/-- What `mem_alloc` leaves to a block beyond what was asked for has no room for a header. -/
theorem carve_snug {b : Tiling.Block} {size k : Nat} {rest : List Tiling.Block}
    (h : carve b size = ⟨b.addr, k, false⟩ :: rest) : k ≤ size + BLOCK_SIZE := by
  unfold carve at h
  split at h
  · simp only [List.cons.injEq, Block.mk.injEq] at h
    omega
  · next huncut =>
    simp only [List.cons.injEq, Block.mk.injEq] at h
    omega

/-- The blocks in use are held, and none has room for a header behind what was asked for. -/
def Snug (heap : HeapArray) (c : Client) : Prop :=
  ∃ blocks, Sound heap c blocks ∧ ∀ b ∈ blocks, b.free = false →
    ∃ e ∈ c.live, e.1 = b.addr + BLOCK_SIZE ∧ b.size ≤ e.2 + BLOCK_SIZE

theorem Snug.init (heap : HeapArray) (mem : Memory) : Snug heap (Client.init heap mem) := by
  refine ⟨_, .init heap mem, ?_⟩
  intro b hb hused
  rw [List.mem_singleton.mp hb] at hused
  cases hused

theorem Snug.step (h : Snug heap c) (hs : c.step req = some c') : Snug heap c' := by
  obtain ⟨blocks, hsound, hsnug⟩ := h
  cases req with
  | alloc size =>
    rcases hsound.alloc hs with ⟨rfl, -⟩ | ⟨l, b, r, rfl, hfits, hlive, hsound'⟩
    · exact ⟨blocks, hsound, hsnug⟩
    · refine ⟨_, hsound', ?_⟩
      intro d hd hused
      simp only [fits, Bool.and_eq_true, decide_eq_true_eq] at hfits
      obtain ⟨k, rest, hcarve, -, hrest⟩ := carve_eq hfits.2
      have hold : d ∈ l ++ b :: r → ∃ e ∈ c'.live, e.1 = d.addr + BLOCK_SIZE ∧ d.size ≤ e.2 + BLOCK_SIZE := by
        intro hmem
        obtain ⟨e, he, hptr, hle⟩ := hsnug d hmem hused
        exact ⟨e, by simp [hlive, he], hptr, hle⟩
      simp only [hcarve, List.mem_append, List.mem_cons] at hd
      rcases hd with (hl | rfl | hcut) | hr
      · exact hold (by simp [hl])
      · exact ⟨(b.addr + BLOCK_SIZE, size.toNat), by simp [hlive], rfl, carve_snug hcarve⟩
      · simp [hrest d hcut] at hused
      · exact hold (by simp [hr])
  | free ptr =>
    obtain ⟨l, b, r, rfl, hlive, hsound'⟩ := hsound.free hs
    refine ⟨_, hsound', ?_⟩
    intro d hd hused
    have hmem : d ∈ l ++ b :: r := by
      simp only [List.mem_append, List.mem_singleton] at hd
      rcases hd with (hl | rfl) | hr
      · simp [hl]
      · cases hused
      · simp [hr]
    obtain ⟨e, he, hptr, hle⟩ := hsnug d hmem hused
    -- the block is still held, and its pointer was live once only
    obtain ⟨e', he', hptr'⟩ := hsound'.held d hd hused
    rw [hlive] at he'
    have hsame : e' = e :=
      List.inj_on_of_nodup_map hsound.distinct (List.mem_of_mem_filter he') he (hptr'.trans hptr.symm)
    exact ⟨e, hlive ▸ hsame ▸ he', hptr, hle⟩
  | write ptr offset byte =>
    obtain ⟨hlive, hsound'⟩ := hsound.write hs
    exact ⟨blocks, hsound', hlive ▸ hsnug⟩

/-! ## The bytes in use -/

/-- No two blocks have the same payload. -/
theorem Laid.nodup_payloads (h : Laid heap s blocks) :
    (blocks.map fun b => b.addr + BLOCK_SIZE).Nodup := by
  refine List.pairwise_map.mpr (h.tiles.pairwise.imp ?_)
  intro b d hbefore
  simp only [BLOCK_SIZE] at hbefore ⊢
  omega

/-- The clients asked for no more than what the blocks in use hold. -/
theorem Sound.asked_le (h : Sound heap c blocks) : (c.live.map Prod.snd).sum ≤ payloadBytes false blocks := by
  apply sum_le_sum_of_keys h.distinct (g := fun b => b.addr + BLOCK_SIZE)
  intro e he
  obtain ⟨b, hb, hused, hptr, hle⟩ := h.owned e he
  exact ⟨b, by simp [hb, hused], hptr, hle⟩

/-- **What `mem_status` reports.** After every history, what is used, what is available and the headers of the
    blocks are the heap; what is used covers what the clients asked for, and exceeds it by at most one header for
    each pointer that is live. -/
theorem mem_status_accounts {rs : List Request}
    (h : GuardedRun Client.step (fun _ _ => True) (Client.init heap mem) rs c) :
    ∃ status blocks, memStatus c.state = some status ∧ Linked c.state.mem c.state.freeList blocks NULL ∧
      status.total = HEAP_SIZE ∧
      status.used + status.available + BLOCK_SIZE * blocks.length = status.total ∧
      (c.live.map Prod.snd).sum ≤ status.used ∧
      status.used ≤ (c.live.map fun e => e.2 + BLOCK_SIZE).sum := by
  have hsnug : Snug heap c := by
    apply h.invariant (Snug heap)
    · intro s a s' hs _ hstep
      exact hs.step hstep
    · exact .init heap mem
  obtain ⟨blocks, hsound, hheld⟩ := hsnug
  have htotal := hsound.laid.tiles.total
  refine ⟨_, blocks, hsound.laid.memStatus, hsound.laid.linked, rfl, by simp only; omega, hsound.asked_le, ?_⟩
  have hdistinct : ((blocks.filter fun b => b.free == false).map fun b => b.addr + BLOCK_SIZE).Nodup :=
    hsound.laid.nodup_payloads.sublist (List.filter_sublist.map _)
  apply sum_le_sum_of_keys hdistinct (g := Prod.fst)
  intro b hb
  obtain ⟨hmem, hused⟩ := List.mem_filter.mp hb
  obtain ⟨e, he, hptr, hle⟩ := hheld b hmem (by simpa using hused)
  exact ⟨e, he, hptr.symm, hle⟩

set_option maxRecDepth 100000 in
/-- The second block is given back and taken again for one byte less: the header does not fit behind that. -/
theorem mem_status_accounts_reused :
    ∃ (c : Client) (status : Status), c.live = [(0x1040, 15), (0x1018, 16)] ∧
      memStatus c.state = some status ∧ 31 ≤ status.used ∧ status.used ≤ 79 := by
  obtain ⟨c, hrun, hlive⟩ := (Option.any_eq_true (fun c : Client =>
      decide (c.live = [(0x1040, 15), (0x1018, 16)]))
    (GuardedRun.check Client.step (fun _ _ => True) (Client.init lowHeap fun _ => 0)
      [.alloc 16, .alloc 16, .free 0x1040, .alloc 15])).mp (by decide +kernel)
  obtain ⟨status, blocks, hstatus, -, -, -, hasked, hsnug⟩ := mem_status_accounts (.of_check hrun)
  have hends := of_decide_eq_true hlive
  rw [hends] at hasked hsnug
  exact ⟨c, status, hends, hstatus, hasked, hsnug⟩

end TpSo.MyMalloc
