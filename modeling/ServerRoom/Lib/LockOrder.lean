import Mathlib.Data.Set.Basic
import Mathlib.Order.WellFounded

/-!
# Lock orders

Threads want locks and hold locks; `t` waits for `u` if `t` wants a lock that `u` holds. A
deadlock is a set of threads each of which waits for a thread of the set.

* `Ordered`: the locks have ranks, and who holds a lock wants locks of higher rank only.
* `Ordered.wellFounded`: then nobody begins an endless chain of threads that wait for each other.
* `Ordered.not_deadlock`: so there is no deadlock.
-/

namespace LockOrder

variable {T M ι : Type*} {wants holds : T → M → Prop}

/-- `t` waits for `u`. -/
def WaitsFor (wants holds : T → M → Prop) (t u : T) : Prop := ∃ m, wants t m ∧ holds u m

/-- A non-empty set of threads each of which waits for one of the set, perhaps itself. -/
def Deadlock (wants holds : T → M → Prop) (S : Set T) : Prop :=
  S.Nonempty ∧ ∀ t ∈ S, ∃ u ∈ S, WaitsFor wants holds t u

/-- **A lock order**: who holds a lock wants only locks of higher rank. -/
def Ordered [LT ι] (rank : M → ι) (wants holds : T → M → Prop) : Prop :=
  ∀ t m m', holds t m → wants t m' → rank m < rank m'

variable [Preorder ι] [WellFoundedGT ι] {rank : M → ι}

/-- A thread that holds a lock begins no endless chain. -/
theorem Ordered.acc (h : Ordered rank wants holds) (i : ι) :
    ∀ t m, holds t m → rank m = i → Acc (fun u t => WaitsFor wants holds t u) t := by
  induction i using WellFoundedGT.induction with
  | ind i ih =>
    intro t m hm hi
    constructor
    rintro u ⟨m', hw, hu⟩
    -- `u` holds a lock of higher rank
    have hlt : i < rank m' := by rw [← hi]; exact h t m m' hm hw
    exact ih (rank m') hlt u m' hu rfl

/-- **Under a lock order the threads that wait for each other end.** -/
theorem Ordered.wellFounded (h : Ordered rank wants holds) :
    WellFounded fun u t => WaitsFor wants holds t u := by
  constructor
  intro t
  constructor
  rintro u ⟨m, -, hu⟩
  exact h.acc (rank m) u m hu rfl

/-- **Under a lock order there is no deadlock.** -/
theorem Ordered.not_deadlock (h : Ordered rank wants holds) (S : Set T) : ¬ Deadlock wants holds S := by
  rintro ⟨hne, hS⟩
  obtain ⟨t, ht, hmin⟩ := h.wellFounded.has_min S hne
  obtain ⟨u, hu, hw⟩ := hS t ht
  exact hmin u hu hw

end LockOrder
