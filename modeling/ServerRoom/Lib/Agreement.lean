import Mathlib.Data.Set.Function
import Mathlib.Order.Interval.Set.Basic
import ServerRoom.Lib.ByteMem

/-!
# Memories that agree

Two memories agree on a set of addresses when they hold the same bytes there. A write of the same bytes to
both makes them agree on what is written, and elsewhere they agree where they did (`eqOn_write`,
`eqOn_put`, `eqOn_store32`, `eqOn_store64`); what is read where they agree is the same (`slice_eq_iff_eqOn`,
`slice_eq_of_eqOn`, `load32_eq_of_eqOn`, `load64_eq_of_eqOn`). So what a program makes of a variable that it
has written before it reads it does not depend on what the variable held.
-/

namespace ByteMem

variable {A : Set ℕ} {m m' : Mem}

theorem eqOn_write (h : Set.EqOn m m' A) (off : ℕ) (bs : List UInt8) :
    Set.EqOn (write m off bs) (write m' off bs) (A ∪ Set.Ico off (off + bs.length)) := by
  intro i hi
  by_cases hin : off ≤ i ∧ i < off + bs.length
  · obtain ⟨j, rfl⟩ := Nat.exists_eq_add_of_le hin.1
    have hj : j < bs.length := by omega
    rw [write_of_mem m bs hj, write_of_mem m' bs hj]
  · rw [write_of_disj m bs (by omega), write_of_disj m' bs (by omega)]
    exact h (hi.resolve_right hin)

theorem eqOn_put (h : Set.EqOn m m' A) (n : ℕ) (b : UInt8) : Set.EqOn (put m n b) (put m' n b) (insert n A) := by
  intro i hi
  by_cases hn : i = n
  · rw [hn, put_self, put_self]
  · rw [put_of_ne m b hn, put_of_ne m' b hn]
    exact h (hi.resolve_left hn)

theorem eqOn_store32 (h : Set.EqOn m m' A) (off : ℕ) (w : UInt32) :
    Set.EqOn (store32 m off w) (store32 m' off w) (A ∪ Set.Ico off (off + 4)) := by
  have hw := eqOn_write h off (bytes32 w)
  rw [bytes32_length] at hw
  exact hw

theorem eqOn_store64 (h : Set.EqOn m m' A) (off : ℕ) (w : UInt64) :
    Set.EqOn (store64 m off w) (store64 m' off w) (A ∪ Set.Ico off (off + 8)) := by
  have hw := eqOn_write h off (toLE 8 w.toNat)
  rw [toLE_length] at hw
  exact hw

/-- **To agree on an interval is to read the same bytes there.** -/
theorem slice_eq_iff_eqOn {off len : ℕ} :
    slice m off len = slice m' off len ↔ Set.EqOn m m' (Set.Ico off (off + len)) := by
  refine ⟨fun h i hi => ?_, fun h => slice_congr fun _ hle hlt => h ⟨hle, hlt⟩⟩
  obtain ⟨j, rfl⟩ := Nat.exists_eq_add_of_le hi.1
  have hj : j < len := Nat.lt_of_add_lt_add_left hi.2
  exact List.map_inj_left.1 h j (List.mem_range.2 hj)

/-- What is read where two memories agree is the same. -/
theorem slice_eq_of_eqOn {off len : ℕ} (h : Set.EqOn m m' A) (hs : Set.Ico off (off + len) ⊆ A) :
    slice m off len = slice m' off len :=
  slice_eq_iff_eqOn.2 (h.mono hs)

theorem load32_eq_of_eqOn {off : ℕ} (h : Set.EqOn m m' A) (hs : Set.Ico off (off + 4) ⊆ A) :
    load32 m off = load32 m' off :=
  load32_congr (slice_eq_of_eqOn h hs)

theorem load64_eq_of_eqOn {off : ℕ} (h : Set.EqOn m m' A) (hs : Set.Ico off (off + 8) ⊆ A) :
    load64 m off = load64 m' off := by
  unfold load64
  rw [slice_eq_of_eqOn h hs]

end ByteMem
