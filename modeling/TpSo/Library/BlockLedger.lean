import Mathlib.Data.List.Nodup

set_option autoImplicit false

/-! # Blocks obtained and given back

The history of a program as a list of events, the newest first. An event can obtain a block or give one
back. `Owns log owned` says that what has been obtained is what has been given back together with
`owned`; there is one rule for each kind of event. -/

/-- What an event does with blocks. -/
structure BlockEvents (ε β : Type) where
  obtains : ε → Option β
  releases : ε → Option β

namespace BlockEvents

variable {ε β : Type} (B : BlockEvents ε β)

def obtained (log : List ε) : List β := log.filterMap B.obtains

def released (log : List ε) : List β := log.filterMap B.releases

/-- No block has been obtained twice, and those in `owned` are what has not been given back. -/
structure Owns (log : List ε) (owned : List β) : Prop where
  nodup : (B.obtained log).Nodup
  balance : (B.obtained log).Perm (B.released log ++ owned)

variable {B} {log : List ε} {owned owned' : List β} {e : ε} {b : β}

namespace Owns

theorem nil : B.Owns [] [] := ⟨.nil, .nil⟩

theorem perm (h : B.Owns log owned) (hp : owned.Perm owned') : B.Owns log owned' :=
  ⟨h.nodup, h.balance.trans (hp.append_left _)⟩

/-- A block is obtained. -/
theorem obtain (h : B.Owns log owned) (ho : B.obtains e = some b) (hr : B.releases e = none)
    (hfresh : b ∉ B.obtained log) : B.Owns (e :: log) (b :: owned) := by
  have hobtained : B.obtained (e :: log) = b :: B.obtained log := List.filterMap_cons_some ho
  have hreleased : B.released (e :: log) = B.released log := List.filterMap_cons_none hr
  constructor
  · rw [hobtained]
    exact List.nodup_cons.mpr ⟨hfresh, h.nodup⟩
  · rw [hobtained, hreleased]
    exact (h.balance.cons b).trans List.perm_middle.symm

/-- An owned block is given back. -/
theorem release (h : B.Owns log (b :: owned)) (hr : B.releases e = some b) (ho : B.obtains e = none) :
    B.Owns (e :: log) owned := by
  have hobtained : B.obtained (e :: log) = B.obtained log := List.filterMap_cons_none ho
  have hreleased : B.released (e :: log) = b :: B.released log := List.filterMap_cons_some hr
  constructor
  · rw [hobtained]
    exact h.nodup
  · rw [hobtained, hreleased]
    exact h.balance.trans List.perm_middle

/-- An event that has nothing to do with blocks. -/
theorem other (h : B.Owns log owned) (ho : B.obtains e = none) (hr : B.releases e = none) :
    B.Owns (e :: log) owned := by
  have hobtained : B.obtained (e :: log) = B.obtained log := List.filterMap_cons_none ho
  have hreleased : B.released (e :: log) = B.released log := List.filterMap_cons_none hr
  exact ⟨by rw [hobtained]; exact h.nodup, by rw [hobtained, hreleased]; exact h.balance⟩

/-- With nothing left, each block obtained has been given back once, and no other at all. -/
theorem settled [DecidableEq β] (h : B.Owns log []) (b : β) :
    (B.released log).count b = if b ∈ B.obtained log then 1 else 0 := by
  rw [← List.append_nil (B.released log), ← h.balance.count_eq]
  split
  · next hb => exact List.count_eq_one_of_mem h.nodup hb
  · next hb => exact List.count_eq_zero_of_not_mem hb

end Owns

end BlockEvents
