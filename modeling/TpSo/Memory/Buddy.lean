import Mathlib.Algebra.Group.Nat.Hom
import Mathlib.Logic.Function.Basic

set_option autoImplicit false

/-! # The buddy allocator (`buddy.c`)

Node pointers are indices into the array `nodes`, block addresses are offsets into `heap`. The heap
is bytes; a byte of an `AllocationHeader` is a fragment of the pointer stored there, so that a header
reads back only what `mem_alloc` or `mem_free` stored in it whole. -/

namespace TpSo

def HEAP_ORDER_MIN : Nat := 5
def HEAP_ORDER_MAX : Nat := 19
def HEAP_SIZE : Nat := 2 ^ HEAP_ORDER_MAX
def TREE_LEVELS : Nat := HEAP_ORDER_MAX - HEAP_ORDER_MIN + 1
def NODE_COUNT : Nat := 2 ^ TREE_LEVELS - 1
/-- `sizeof(AllocationHeader)`. -/
def HEADER_SIZE : Nat := 8

/-- `NodeState`. -/
inductive NodeState
  | free | split | used
  deriving DecidableEq

/-- `BuddyNode`. -/
structure BuddyNode where
  parent : Option Nat := none
  left : Option Nat := none
  right : Option Nat := none
  order : Nat := 0
  state : NodeState := .free
  base : Nat := 0

/-- A byte of the heap: data, or the `i`-th byte of a `BuddyNode *`. -/
inductive HeapByte
  | data (byte : UInt8)
  | pointer (node : Option Nat) (i : Nat)
  deriving DecidableEq

/-- The static variables of `buddy.c`. -/
structure Buddy where
  heap : Nat → HeapByte := fun _ => .data 0
  nodes : Nat → BuddyNode := fun _ => {}
  root : Option Nat := none

/-- `block_size`. -/
def blockSize (order : Nat) : Nat := 2 ^ order

/-- `nodes[node].state = state`. -/
def setNodeState (nodes : Nat → BuddyNode) (node : Nat) (state : NodeState) : Nat → BuddyNode :=
  Function.update nodes node { nodes node with state := state }

/-- `nodes[node].parent = parent`. -/
def setParent (nodes : Nat → BuddyNode) (node parent : Nat) : Nat → BuddyNode :=
  Function.update nodes node { nodes node with parent := some parent }

/-- `build_tree` for a node of order `HEAP_ORDER_MIN + height`; it returns the node of this
    index. -/
def buildTree (nodes : Nat → BuddyNode) (index : Nat) : (height : Nat) → (base : Nat) → Nat → BuddyNode
  | 0, base => Function.update nodes index { order := HEAP_ORDER_MIN, base := base }
  | height + 1, base =>
    let leftIndex := index * 2 + 1
    let rightIndex := leftIndex + 1
    let half := blockSize (HEAP_ORDER_MIN + height)
    let nodes := Function.update nodes index { order := HEAP_ORDER_MIN + (height + 1), base := base }
    let nodes := buildTree nodes leftIndex height base
    let nodes := buildTree nodes rightIndex height (base + half)
    let nodes := setParent nodes leftIndex index
    let nodes := setParent nodes rightIndex index
    Function.update nodes index { nodes index with left := some leftIndex, right := some rightIndex }

/-- The loop of `required_order`. -/
def requiredOrderFrom (size : Nat) : (fuel : Nat) → (order : Nat) → Nat
  | 0, order => order
  | fuel + 1, order =>
    if order ≤ HEAP_ORDER_MAX ∧ blockSize order < size then requiredOrderFrom size fuel (order + 1)
    else order

/-- `required_order`. The loop makes at most `TREE_LEVELS` turns. -/
def requiredOrder (size : Nat) : Nat := requiredOrderFrom size TREE_LEVELS HEAP_ORDER_MIN

/-- `acquire_node`: the node found, and the tree with its new states. The recursion is no deeper than
    the tree. -/
def acquireNode (order : Nat) :
    (fuel : Nat) → (nodes : Nat → BuddyNode) → Option Nat → Option Nat × (Nat → BuddyNode)
  | 0, nodes, _ => (none, nodes)
  | _ + 1, nodes, none => (none, nodes)
  | fuel + 1, nodes, some node =>
    if (nodes node).state = .used then (none, nodes)
    else if (nodes node).order < order then (none, nodes)
    else if (nodes node).order = order then
      if (nodes node).state = .free then (some node, setNodeState nodes node .used) else (none, nodes)
    else
      match (nodes node).left, (nodes node).right with
      | some left, some right =>
        let nodes := if (nodes node).state = .free then setNodeState nodes node .split else nodes
        let result := acquireNode order fuel nodes (some left)
        if result.1.isSome then result
        else
          let result := acquireNode order fuel result.2 (some right)
          if result.1.isSome then result
          else if (result.2 left).state = .free ∧ (result.2 right).state = .free then
            (none, setNodeState result.2 node .free)
          else (none, result.2)
      | _, _ => (none, nodes)

/-- `coalesce_up`. The loop makes a turn for each level at most. -/
def coalesceUp : (fuel : Nat) → (nodes : Nat → BuddyNode) → Option Nat → Nat → BuddyNode
  | 0, nodes, _ => nodes
  | _ + 1, nodes, none => nodes
  | fuel + 1, nodes, some node =>
    match (nodes node).left, (nodes node).right with
    | some left, some right =>
      if (nodes left).state = .free ∧ (nodes right).state = .free then
        coalesceUp fuel (setNodeState nodes node .free) (nodes node).parent
      else setNodeState nodes node .split
    | _, _ => coalesceUp fuel nodes (nodes node).parent

/-- `free_bytes`. -/
def freeBytes (nodes : Nat → BuddyNode) : (fuel : Nat) → Option Nat → Nat
  | 0, _ => 0
  | _ + 1, none => 0
  | fuel + 1, some node =>
    match (nodes node).state with
    | .free => blockSize (nodes node).order
    | .split =>
      freeBytes nodes fuel (nodes node).left + freeBytes nodes fuel (nodes node).right
    | .used => 0

/-- `header->node = node` for the header at `address`. -/
def storeHeader (heap : Nat → HeapByte) (address : Nat) (node : Option Nat) : Nat → HeapByte :=
  fun a => if address ≤ a ∧ a < address + HEADER_SIZE then .pointer node (a - address) else heap a

/-- `header->node` for the header at `address`; bytes that are not those of one stored pointer read
    as `NULL`. -/
def loadHeader (heap : Nat → HeapByte) (address : Nat) : Option Nat :=
  match heap address with
  | .pointer node 0 =>
    if ∀ i < HEADER_SIZE, heap (address + i) = .pointer node i then node else none
  | _ => none

namespace Buddy

/-- `mem_init`. -/
def memInit (b : Buddy) : Buddy :=
  { b with nodes := buildTree b.nodes 0 (HEAP_ORDER_MAX - HEAP_ORDER_MIN) 0, root := some 0 }

/-- `if (root == NULL) mem_init();` -/
def ensureInit (b : Buddy) : Buddy := if b.root = none then b.memInit else b

/-- `mem_alloc`. -/
def memAlloc (b : Buddy) (size : Nat) : Option Nat × Buddy :=
  let b := b.ensureInit
  if size = 0 ∨ size > HEAP_SIZE then (none, b)
  else if size > HEAP_SIZE - HEADER_SIZE then (none, b)
  else
    let total := size + HEADER_SIZE
    let order := requiredOrder total
    if order > HEAP_ORDER_MAX then (none, b)
    else
      let acquired := acquireNode order TREE_LEVELS b.nodes b.root
      match acquired.1 with
      | none => (none, { b with nodes := acquired.2 })
      | some node =>
        let base := (acquired.2 node).base
        (some (base + HEADER_SIZE),
          { b with nodes := acquired.2, heap := storeHeader b.heap base (some node) })

/-- `mem_free`. -/
def memFree (b : Buddy) (ptr : Option Nat) : Buddy :=
  match ptr, b.root with
  | some ptr, some _ =>
    let header := ptr - HEADER_SIZE
    match loadHeader b.heap header with
    | none => b
    | some node =>
      if (b.nodes node).state ≠ .used then b
      else
        let nodes := setNodeState b.nodes node .free
        { b with
          heap := storeHeader b.heap header none
          nodes := coalesceUp TREE_LEVELS nodes (nodes node).parent }
  | _, _ => b

/-- What `mem_status` stores in `*total`, `*used` and `*available`. -/
structure Status where
  total : Nat
  used : Nat
  available : Nat

/-- `mem_status`. -/
def memStatus (b : Buddy) : Status × Buddy :=
  let b := b.ensureInit
  let freeTotal := freeBytes b.nodes TREE_LEVELS b.root
  ({ total := HEAP_SIZE, used := HEAP_SIZE - freeTotal, available := freeTotal }, b)

end Buddy

/-! ## A program that uses the allocator -/

/-- A block the program holds: the pointer `mem_alloc` returned, the size it asked for, and the node
    stored in the header. -/
structure Allocation where
  ptr : Nat
  size : Nat
  node : Option Nat
  deriving DecidableEq

/-- The allocator and the blocks held, the latest first. -/
structure BuddySystem where
  buddy : Buddy
  live : List Allocation

/-- What the program can do: ask for memory, give back a block it holds, and write inside one. -/
inductive BuddyOp
  | alloc (size : Nat)
  | free (ptr : Nat)
  | write (ptr off : Nat) (byte : UInt8)

namespace BuddySystem

/-- The block held at this pointer. -/
def held (s : BuddySystem) (ptr : Nat) : Option Allocation :=
  s.live.find? (fun a => decide (a.ptr = ptr))

/-- After `mem_init`. -/
def init : BuddySystem := { buddy := Buddy.memInit {}, live := [] }

/-- One operation; `none` when it is not one on a block the program holds. -/
def step (s : BuddySystem) : BuddyOp → Option BuddySystem
  | .alloc size =>
    let r := s.buddy.memAlloc size
    match r.1 with
    | none => some { s with buddy := r.2 }
    | some ptr =>
      let node := loadHeader r.2.heap (ptr - HEADER_SIZE)
      some { buddy := r.2, live := { ptr := ptr, size := size, node := node } :: s.live }
  | .free ptr =>
    (s.held ptr).map (fun a => { buddy := s.buddy.memFree (some ptr), live := s.live.erase a })
  | .write ptr off byte =>
    match s.held ptr with
    | none => none
    | some a =>
      if off < a.size then
        let heap := Function.update s.buddy.heap (ptr + off) (.data byte)
        some { s with buddy := { s.buddy with heap := heap } }
      else none

end BuddySystem

end TpSo
