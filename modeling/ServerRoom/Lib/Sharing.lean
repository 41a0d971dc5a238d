import Mathlib.Algebra.BigOperators.Group.Finset.Basic
import Mathlib.Data.Nat.Notation

/-!
# Locks, counted references and a register without a lock

Two views of one thing that must agree: a lock records its owner, and each thread's place
says what it holds.

* `Agree`: the owners of the locks and the places of the threads agree. It is kept when a
  thread takes a free lock (`Agree.take`) and when it gives its lock back (`Agree.drop`), so
  by every `Change`; at most one thread holds a lock (`Agree.unique`).
* `sum_step`: how the sum of the references of all holders changes when one holder moves.
* `RefCount`: an atomic reference count, that knows who holds a reference, and who gave back
  the last one.
* `Kept`: a register in which threads store values that they use in a later step, without a
  lock; what a store must respect (`Kept.store`).
-/

namespace Sharing

section Locks

variable {K T : Type*} {owner owner' : K → Option T} {held held' : T → Option K}

/-- Lock `k` records the owner `t` exactly if `t` holds `k`; a thread holds at most one. -/
def Agree (owner : K → Option T) (held : T → Option K) : Prop :=
  ∀ k t, owner k = some t ↔ held t = some k

theorem Agree.unique (h : Agree owner held) {k : K} {t u : T} (ht : held t = some k) (hu : held u = some k) :
    t = u := by
  have h1 := (h k t).2 ht
  have h2 := (h k u).2 hu
  rw [h1] at h2
  exact Option.some.inj h2

theorem Agree.same (h : Agree owner held) (ho : ∀ k, owner' k = owner k) (hh : ∀ t, held' t = held t) :
    Agree owner' held' := by
  intro k t
  rw [ho, hh]
  exact h k t

/-- **A thread that holds nothing takes a free lock.** -/
theorem Agree.take [DecidableEq K] (h : Agree owner held) {k : K} {t : T} (hfree : owner k = none)
    (hnone : held t = none) (ho : ∀ j, owner' j = if k = j then some t else owner j)
    (ht : held' t = some k) (hu : ∀ u, u ≠ t → held' u = held u) : Agree owner' held' := by
  intro j u
  rw [ho]
  by_cases hut : u = t
  · subst hut
    rw [ht]
    by_cases hj : k = j
    · rw [if_pos hj, hj]; simp
    · rw [if_neg hj, h j u, hnone]; simp [hj]
  · rw [hu u hut]
    by_cases hj : k = j
    · subst hj
      -- nobody else holds it: it was free
      have hno : held u ≠ some k := fun he => by rw [← h k u, hfree] at he; cases he
      rw [if_pos rfl]
      exact ⟨fun he => absurd (Option.some.inj he).symm hut, fun he => absurd he hno⟩
    · rw [if_neg hj]; exact h j u

/-- **A thread gives its lock back.** -/
theorem Agree.drop [DecidableEq K] (h : Agree owner held) {k : K} {t : T} (hk : held t = some k)
    (ho : ∀ j, owner' j = if k = j then none else owner j) (ht : held' t = none)
    (hu : ∀ u, u ≠ t → held' u = held u) : Agree owner' held' := by
  intro j u
  rw [ho]
  by_cases hut : u = t
  · subst hut
    rw [ht]
    by_cases hj : k = j
    · rw [if_pos hj]; simp
    · rw [if_neg hj, h j u, hk]; simp [hj]
  · rw [hu u hut]
    by_cases hj : k = j
    · subst hj
      rw [if_pos rfl]
      constructor
      · intro he; cases he
      · intro he; exact absurd (h.unique he hk) hut
    · rw [if_neg hj]; exact h j u

/-- What a step may do to the locks: nothing, or one thread takes or gives back a lock. -/
inductive Change [DecidableEq K] (owner owner' : K → Option T) (held held' : T → Option K) : Prop
  | same : (∀ k, owner' k = owner k) → (∀ t, held' t = held t) → Change owner owner' held held'
  | take (k : K) (t : T) : owner k = none → held t = none →
      (∀ j, owner' j = if k = j then some t else owner j) → held' t = some k →
      (∀ u, u ≠ t → held' u = held u) → Change owner owner' held held'
  | drop (k : K) (t : T) : held t = some k → (∀ j, owner' j = if k = j then none else owner j) →
      held' t = none → (∀ u, u ≠ t → held' u = held u) → Change owner owner' held held'

theorem Agree.change [DecidableEq K] (h : Agree owner held) (hc : Change owner owner' held held') :
    Agree owner' held' := by
  cases hc with
  | same ho hh => exact h.same ho hh
  | take k t hfree hnone ho ht hu => exact h.take hfree hnone ho ht hu
  | drop k t hk ho ht hu => exact h.drop hk ho ht hu

end Locks

/-- **One holder moves**: the sum changes by what it gains and loses. -/
theorem sum_step {ι : Type*} [DecidableEq ι] {holders : Finset ι} {f g : ι → ℕ} {i : ι} {gained lost : ℕ}
    (hi : i ∈ holders) (hother : ∀ j ∈ holders, j ≠ i → g j = f j) (hmove : g i + lost = f i + gained) :
    (∑ j ∈ holders, g j) + lost = (∑ j ∈ holders, f j) + gained := by
  have hg := Finset.add_sum_erase holders g hi
  have hf := Finset.add_sum_erase holders f hi
  have hrest : ∑ j ∈ holders.erase i, g j = ∑ j ∈ holders.erase i, f j :=
    Finset.sum_congr rfl fun j hj => hother j (Finset.mem_of_mem_erase hj) (Finset.ne_of_mem_erase hj)
  omega

/-- **An atomic reference count**: who holds a reference, and who gave back the last one. -/
structure RefCount (T : Type*) where
  holders : Finset T
  last : Option T

namespace RefCount

variable {T : Type*} [DecidableEq T] {c : RefCount T} {t u : T}

def acquire (c : RefCount T) (t : T) : RefCount T := { c with holders := insert t c.holders }

def release (c : RefCount T) (t : T) : RefCount T where
  holders := c.holders.erase t
  last := if c.holders.erase t = ∅ then some t else c.last

@[simp] theorem mem_acquire : u ∈ (c.acquire t).holders ↔ u = t ∨ u ∈ c.holders := Finset.mem_insert

@[simp] theorem mem_release : u ∈ (c.release t).holders ↔ u ≠ t ∧ u ∈ c.holders := Finset.mem_erase

theorem card_acquire (h : t ∉ c.holders) : (c.acquire t).holders.card = c.holders.card + 1 :=
  Finset.card_insert_of_notMem h

theorem card_release (h : t ∈ c.holders) : (c.release t).holders.card + 1 = c.holders.card :=
  Finset.card_erase_add_one h

/-- Somebody gives back the last reference when none is left. -/
theorem release_last (h : c.last = none) :
    (c.release t).last = if (c.release t).holders = ∅ then some t else none := by
  unfold release
  rw [h]

theorem release_last_eq_some (h : c.last = none) (hu : (c.release t).last = some u) : u = t := by
  rw [release_last h] at hu
  split at hu
  · exact (Option.some.inj hu).symm
  · cases hu

theorem release_last_ne_none_iff (h : c.last = none) :
    (c.release t).last ≠ none ↔ (c.release t).holders = ∅ := by
  rw [release_last h]
  split
  · rename_i hempty
    exact iff_of_true (Option.some_ne_none t) hempty
  · rename_i hsome
    exact iff_of_false (fun hne => hne rfl) hsome

end RefCount

section Register

variable {T A V : Type*} {U : Set T} {waits waits' : T → Option A} {ok : A → V → Prop} {register : V}

/-- **A register without a lock.** A thread `t` with `waits t = some x` has stored the value of `x` and
will use what the register then holds: for each such thread of `U` that is acceptable. -/
def Kept (U : Set T) (waits : T → Option A) (ok : A → V → Prop) (register : V) : Prop :=
  ∀ t ∈ U, ∀ x, waits t = some x → ok x register

theorem Kept.mono (h : Kept U waits ok register) (hw : ∀ t x, waits' t = some x → waits t = some x) :
    Kept U waits' ok register := fun t ht x hx => h t ht x (hw t x hx)

/-- **A thread stores a value** that is acceptable for itself, and for those of `U` that wait. -/
theorem Kept.store {t : T} {x : A} (ht : waits' t = some x) (hx : ok x register)
    (hw : ∀ u, u ≠ t → ∀ y, waits' u = some y → waits u = some y)
    (hother : ∀ u ∈ U, ∀ y, waits u = some y → ok y register) : Kept U waits' ok register := by
  intro u hu y hy
  by_cases hut : u = t
  · subst hut
    rw [ht] at hy
    rw [← Option.some.inj hy]
    exact hx
  · exact hother u hu y (hw u hut y hy)

end Register

end Sharing
