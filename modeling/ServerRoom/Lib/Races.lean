import Mathlib.Data.Set.Basic

/-!
# Data races

Threads are about to access locations, to read or to write them, or to dispose of the objects
that hold them. There is a race on a location that one thread is about to write, or to dispose of,
and another to access in any way.

A discipline says for each location how it is protected: by a mutex, by belonging to one thread,
by being left as it is, or not at all.

* `not_race`: under a discipline there is no race on a protected location, if who disposes of it
  is alone with it.
-/

namespace Races

/-- What a thread does to a location. -/
inductive Mode
  | read
  | write
  deriving DecidableEq

/-- How a location is protected. -/
inductive Guard (T M : Type*)
  | mutex (m : M)
  | owner (t : T)
  | frozen
  | nothing

variable {T L M : Type*} {holds : T → M → Prop} {t u : T} {i j : Mode} {g : Guard T M}

/-- A thread may access a location under its guard. It may also read it in the moment in which it
takes the mutex, which is free then. -/
def Guard.Allows (holds : T → M → Prop) (t : T) (i : Mode) : Guard T M → Prop
  | .mutex m => holds t m ∨ i = .read ∧ ∀ u, ¬ holds u m
  | .owner u => t = u
  | .frozen => i = .read
  | .nothing => True

/-- **A guard that allows one thread to write** allows nobody else anything. -/
theorem Guard.Allows.unique (hexcl : ∀ t u m, holds t m → holds u m → t = u) (hg : g ≠ .nothing)
    (hw : g.Allows holds t .write) (ha : g.Allows holds u j) : t = u := by
  cases g with
  | mutex m =>
    rcases hw with hw | ⟨hr, -⟩
    · rcases ha with ha | ⟨-, hfree⟩
      · exact hexcl t u m hw ha
      · exact absurd hw (hfree t)
    · cases hr
  | owner v =>
    have ht : t = v := hw
    have hu : u = v := ha
    rw [ht, hu]
  | frozen => cases hw
  | nothing => exact absurd rfl hg

variable {accesses : T → L → Mode → Prop} {disposes : T → L → Prop} {l : L}

/-- One thread is about to write the location, or to dispose of it, and another to access it. -/
def Race (accesses : T → L → Mode → Prop) (disposes : T → L → Prop) (l : L) : Prop :=
  ∃ t u, t ≠ u ∧ (accesses t l .write ∨ disposes t l) ∧ ((∃ j, accesses u l j) ∨ disposes u l)

/-- **Under a discipline there is no race on a protected location**, if nobody else is about to
access it when a thread is about to dispose of it. -/
theorem not_race (hexcl : ∀ t u m, holds t m → holds u m → t = u) (hg : g ≠ .nothing)
    (hallows : ∀ t i, accesses t l i → g.Allows holds t i)
    (hsole : ∀ t u j, disposes t l → accesses u l j → t = u)
    (honce : ∀ t u, disposes t l → disposes u l → t = u) : ¬ Race accesses disposes l := by
  rintro ⟨t, u, hne, hw | hd, ⟨j, ha⟩ | hd'⟩
  · exact hne ((hallows t .write hw).unique hexcl hg (hallows u j ha))
  · exact hne (hsole u t .write hd' hw).symm
  · exact hne (hsole t u j hd ha)
  · exact hne (honce t u hd hd')

end Races
