import TpSo.Library.Bytes

set_option autoImplicit false

/-! # The first-fit allocator (`myMalloc.c`)

The memory is bytes: a `Block` header is 24 of them, with `size` at offset 0, `free` at 8 and `next`
at 16, and what lands on a header changes it. Each function runs with interrupts disabled, hence as
one step. Pointers are numbers, `NULL` is 0; the arithmetic on `size_t` and on pointers that a
request takes part in wraps around at `2 ^ 64`. -/

namespace TpSo.MyMalloc

open Bytes

def HEAP_SIZE : Nat := 2 ^ 19
/-- `sizeof(Block)`. -/
def BLOCK_SIZE : Nat := 24
def NULL : Nat := 0

/-- Where the linker put the array `heap`: not at `NULL`, and the address one past its end is a
    pointer too. -/
structure HeapArray where
  base : Nat
  base_pos : 0 < base
  fits : base + HEAP_SIZE < 2 ^ 64

/-- The bytes of the memory and the static `free_list`. -/
structure State where
  mem : Memory
  freeList : Nat

/-- `a - b` on `size_t`. -/
def sizeSub (a b : Nat) : Nat := (a + 2 ^ 64 - b) % 2 ^ 64

/-! ## The fields of a header -/

def getSize (mem : Memory) (block : Nat) : Nat := loadLE 8 mem block
def getFree (mem : Memory) (block : Nat) : Nat := loadLE 4 mem (block + 8)
def getNext (mem : Memory) (block : Nat) : Nat := loadLE 8 mem (block + 16)

def setSize (mem : Memory) (block size : Nat) : Memory := storeLE 8 mem block size
def setFree (mem : Memory) (block free : Nat) : Memory := storeLE 4 mem (block + 8) free
def setNext (mem : Memory) (block next : Nat) : Memory := storeLE 8 mem (block + 16) next

/-! ## The allocator -/

/-- `mem_init`. -/
def memInit (heap : HeapArray) (mem : Memory) : State :=
  let mem := setSize mem heap.base (HEAP_SIZE - BLOCK_SIZE)
  let mem := setFree mem heap.base 1
  let mem := setNext mem heap.base NULL
  { mem := mem, freeList := heap.base }

/-- Cut a new free block off the end of `curr`: the body of the inner `if` of `mem_alloc`. -/
def splitBlock (mem : Memory) (curr size : Nat) : Memory :=
  let newBlock := (curr + BLOCK_SIZE + size) % 2 ^ 64
  let mem := setSize mem newBlock (sizeSub (sizeSub (getSize mem curr) size) BLOCK_SIZE)
  let mem := setFree mem newBlock 1
  let mem := setNext mem newBlock (getNext mem curr)
  let mem := setNext mem curr newBlock
  setSize mem curr size

/-- The body of the outer `if` of `mem_alloc`, up to the result. -/
def takeBlock (mem : Memory) (curr size : Nat) : Memory :=
  let mem := if (size + BLOCK_SIZE) % 2 ^ 64 < getSize mem curr then splitBlock mem curr size else mem
  setFree mem curr 0

/-- The loop of `mem_alloc` from `curr` on: the pointer returned and the memory after it. `none` if
    the loop has not ended after `fuel` rounds. -/
def memAllocFrom : (fuel : Nat) → Memory → (curr size : Nat) → Option (Nat × Memory)
  | 0, _, _, _ => none
  | fuel + 1, mem, curr, size =>
    if curr = NULL then some (NULL, mem)
    else if getFree mem curr ≠ 0 ∧ size ≤ getSize mem curr then
      some ((curr + BLOCK_SIZE) % 2 ^ 64, takeBlock mem curr size)
    else memAllocFrom fuel mem (getNext mem curr) size

/-- `mem_alloc`. -/
def memAlloc (s : State) (size : BitVec 64) : Option (Nat × State) :=
  (memAllocFrom HEAP_SIZE s.mem s.freeList size.toNat).map
    fun (ptr, mem) => (ptr, { s with mem := mem })

/-- `mem_free`. -/
def memFree (s : State) (ptr : Nat) : State :=
  if ptr = NULL then s
  else { s with mem := setFree s.mem (sizeSub ptr BLOCK_SIZE) 1 }

/-- The loop of `mem_status` from `curr` on: `*used` and `*available`. `none` if the loop has not ended
    after `fuel` rounds. -/
def memStatusFrom : (fuel : Nat) → Memory → (curr used available : Nat) → Option (Nat × Nat)
  | 0, _, _, _, _ => none
  | fuel + 1, mem, curr, used, available =>
    if curr = NULL then some (used, available)
    else if getFree mem curr ≠ 0 then
      memStatusFrom fuel mem (getNext mem curr) used ((available + getSize mem curr) % 2 ^ 64)
    else memStatusFrom fuel mem (getNext mem curr) ((used + getSize mem curr) % 2 ^ 64) available

/-- What `mem_status` stores in `*total`, `*used` and `*available`. -/
structure Status where
  total : Nat
  used : Nat
  available : Nat

/-- `mem_status`. -/
def memStatus (s : State) : Option Status :=
  (memStatusFrom HEAP_SIZE s.mem s.freeList 0 0).map
    fun (used, available) => { total := HEAP_SIZE, used := used, available := available }

/-! ## Histories of requests -/

/-- What the clients of the allocator do: ask for memory, give a pointer back, or write a byte of
    the memory they hold. -/
inductive Request
  | alloc (size : BitVec 64)
  | free (ptr : Nat)
  | write (ptr offset : Nat) (byte : UInt8)

/-- The allocator's state, and the pointers that are live with the size each was asked for, latest
    first. -/
structure Client where
  state : State
  live : List (Nat × Nat)

/-- One request. Pointers that are given back or written through are live ones, and a write stays
    within the size that was asked for. -/
def Client.step (c : Client) : Request → Option Client
  | .alloc size =>
    (memAlloc c.state size).map fun (ptr, s) =>
      { state := s, live := if ptr = NULL then c.live else (ptr, size.toNat) :: c.live }
  | .free ptr =>
    if ptr ∈ c.live.map Prod.fst then
      some { state := memFree c.state ptr, live := c.live.filter (fun e => e.1 ≠ ptr) }
    else none
  | .write ptr offset byte =>
    if ∃ e ∈ c.live, e.1 = ptr ∧ offset < e.2 then
      some { c with state.mem := Function.update c.state.mem (ptr + offset) byte }
    else none

/-- The client before its first request, where the bytes of the memory were `mem`. -/
def Client.init (heap : HeapArray) (mem : Memory) : Client := ⟨memInit heap mem, []⟩

end TpSo.MyMalloc
