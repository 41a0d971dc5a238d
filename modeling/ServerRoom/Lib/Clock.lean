import Mathlib.Algebra.Group.Nat.Defs
import Mathlib.Data.List.Basic
import Mathlib.Order.Nat

/-!
# Plans on a clock that wraps

A plan is a list of things to do, each when a delay has passed since the one before. It is
polled from time to time, and a poll does at most the next thing. The polls read a 32-bit
counter of the time: `sub_toNat` is the elapsed time that they see. A plan is `Watched` when
the polls are close enough for the counter not to go round unseen (`Watched.since_le`).
-/

namespace Clock

/-- **Elapsed time**, as a 32-bit counter shows it. -/
theorem sub_toNat {t₀ t : ℕ} (h : t₀ ≤ t) :
    (UInt32.ofNat t - UInt32.ofNat t₀).toNat = (t - t₀) % 2 ^ 32 := by
  rw [UInt32.toNat_sub, UInt32.toNat_ofNat', UInt32.toNat_ofNat']
  omega

/-- Elapsed time of less than a round is shown as it is. -/
theorem lt_sub_iff {t₀ t : ℕ} (h : t₀ ≤ t) (hlt : t < t₀ + 2 ^ 32) (d : UInt32) :
    d < UInt32.ofNat t - UInt32.ofNat t₀ ↔ d.toNat < t - t₀ := by
  rw [UInt32.lt_iff_toNat_lt, sub_toNat h, Nat.mod_eq_of_lt (by omega)]

/-- The elapsed time is below a bound exactly when what is shown of it is, except after a round. -/
theorem mod_lt_iff {d : ℕ} (hd : d ≤ 2 ^ 32) (Δ : ℕ) :
    (Δ % 2 ^ 32 < d ↔ Δ < d) ↔ ¬ (2 ^ 32 ≤ Δ ∧ Δ % 2 ^ 32 < d) := by
  by_cases hround : 2 ^ 32 ≤ Δ
  · have hlong : ¬ Δ < d := Nat.not_lt.2 (hd.trans hround)
    rw [and_iff_right hround, iff_false_right hlong]
  · rw [Nat.mod_eq_of_lt (Nat.not_le.1 hround)]
    exact iff_of_true Iff.rfl fun hc => hround hc.1

/-- A plan: what is still to do, each with the delay before it; since when the first delay
runs; and what was done. -/
structure Plan (α : Type*) where
  pending : List (ℕ × α)
  since : ℕ
  done : List α

namespace Plan

variable {α : Type*} {f : Plan α} {clock now later D : ℕ} {mark : Option ℕ}

/-- One thing is done at once, and the rest is planned. -/
def start (f : Plan α) (a : α) (phases : List (ℕ × α)) (t : ℕ) : Plan α := ⟨phases, t, f.done ++ [a]⟩

/-- A poll does the next thing if more than its delay has passed. -/
def poll (f : Plan α) (now later : ℕ) : Plan α :=
  match f.pending with
  | [] => f
  | (d, a) :: rest => if now - f.since > d then ⟨rest, later, f.done ++ [a]⟩ else f

/-- What is done when the plan is at its end. -/
def total (f : Plan α) : List α := f.done ++ f.pending.map Prod.snd

theorem total_poll (f : Plan α) (now later : ℕ) : (f.poll now later).total = f.total := by
  obtain ⟨pending, since, done⟩ := f
  cases pending with
  | nil => rfl
  | cons e rest =>
    unfold poll
    dsimp only
    split
    · simp [total]
    · rfl

theorem total_start (h : f.pending = []) (a : α) (phases : List (ℕ × α)) (t : ℕ) :
    (f.start a phases t).total = f.total ++ a :: phases.map Prod.snd := by
  simp [total, start, h]

/-- The plan was polled, or started, at `mark`, and by then no delay was exceeded: all delays
are at most `D`. -/
structure Watched (f : Plan α) (clock : ℕ) (mark : Option ℕ) (D : ℕ) : Prop where
  delays : ∀ e ∈ f.pending, e.1 ≤ D
  since : f.pending ≠ [] → f.since ≤ clock ∧ ∃ m, mark = some m ∧ m ≤ f.since + D
  mark : ∀ m, mark = some m → m ≤ clock

/-- **The counter has not gone round**, if the poll is less than a round less `D` after the
last. -/
theorem Watched.since_le (h : f.Watched clock mark D) (hne : f.pending ≠ []) (hnow : clock ≤ now)
    (hgap : ∀ m, mark = some m → now + D < m + 2 ^ 32) : f.since ≤ now ∧ now < f.since + 2 ^ 32 := by
  obtain ⟨hle, m, hm, hD⟩ := h.since hne
  have := hgap m hm
  omega

theorem Watched.mono (h : f.Watched clock mark D) (hle : clock ≤ now) : f.Watched now mark D where
  delays := h.delays
  since hne := ⟨(h.since hne).1.trans hle, (h.since hne).2⟩
  mark m hm := (h.mark m hm).trans hle

theorem Watched.poll (h : f.Watched clock mark D) (hnow : clock ≤ now) (hle : now ≤ later) :
    (f.poll now later).Watched later (some now) D := by
  obtain ⟨pending, since, done⟩ := f
  have hmark : ∀ m, some now = some m → m ≤ later := fun m hm => Option.some.inj hm ▸ hle
  cases pending with
  | nil => exact ⟨h.delays, fun hne => absurd rfl hne, hmark⟩
  | cons e rest =>
    obtain ⟨d, a⟩ := e
    unfold Plan.poll
    dsimp only
    split
    · exact ⟨fun e he => h.delays e (.tail _ he), fun _ => ⟨le_rfl, now, rfl, by dsimp only; omega⟩, hmark⟩
    · have hd : d ≤ D := h.delays (d, a) (.head _)
      have hs := (h.since (List.cons_ne_nil _ _)).1
      dsimp only at hs
      exact ⟨h.delays, fun _ => ⟨by dsimp only; omega, now, rfl, by dsimp only; omega⟩, hmark⟩

/-- A plan that starts before any poll counts as polled when it starts. -/
theorem Watched.start (h : f.Watched clock mark D) {phases : List (ℕ × α)} (hd : ∀ e ∈ phases, e.1 ≤ D)
    (hle : clock ≤ now) (a : α) : (f.start a phases now).Watched now (mark.or (some now)) D where
  delays := hd
  since _ := by
    refine ⟨le_rfl, ?_⟩
    cases mark with
    | none => exact ⟨now, rfl, Nat.le_add_right _ _⟩
    | some m => exact ⟨m, rfl, ((h.mark m rfl).trans hle).trans (Nat.le_add_right _ _)⟩
  mark m hm := by
    cases mark with
    | none => exact (Option.some.inj hm).ge
    | some m' => exact Option.some.inj hm ▸ (h.mark m' rfl).trans hle

end Plan

end Clock
