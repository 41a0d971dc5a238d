import Mathlib.Data.Nat.Notation

/-!
# Runs of a machine

A machine has initial states and, for each action, at most one next state: the
action holds what the scheduler and the environment choose. `ReachWhen G` are the
states of the runs all of whose steps meet the condition `G`; `Reach` those of all
runs. `ReachWhen.induct` is the invariant rule and `runWhen_induct` that of a schedule;
`Reach.run` and `ReachWhen.runWhen` say where a schedule ends; `Machine.recording` is a
machine that keeps a record of its run.
-/

namespace Runs

/-- A machine: the initial states, and the step that an action takes. -/
structure Machine (σ α : Type*) where
  init : σ → Prop
  step : σ → α → Option σ

variable {σ α : Type*} {M : Machine σ α} {G : σ → α → Prop} {s s' : σ}

/-- The states that a run reaches when every step, in the state before it, meets `G`. -/
inductive Machine.ReachWhen (M : Machine σ α) (G : σ → α → Prop) : σ → Prop
  | init {s : σ} : M.init s → ReachWhen M G s
  | step {s s' : σ} (a : α) : ReachWhen M G s → G s a → M.step s a = some s' → ReachWhen M G s'

/-- The states that some run reaches. -/
abbrev Machine.Reach (M : Machine σ α) : σ → Prop := M.ReachWhen fun _ _ => True

/-- **The invariant rule.** What holds initially and is kept by every step of a
reachable state that meets the condition holds of every state reached. -/
theorem Machine.ReachWhen.induct {I : σ → Prop} (h0 : ∀ s, M.init s → I s)
    (hstep : ∀ s a s', M.ReachWhen G s → I s → G s a → M.step s a = some s' → I s')
    (h : M.ReachWhen G s) : I s := by
  induction h with
  | init hi => exact h0 _ hi
  | step a hr hg hs ih => exact hstep _ a _ hr ih hg hs

/-- A weaker condition is met by more runs. -/
theorem Machine.ReachWhen.mono {G' : σ → α → Prop} (hG : ∀ s a, G s a → G' s a) (h : M.ReachWhen G s) :
    M.ReachWhen G' s :=
  h.induct (fun _ => .init) fun s a _ _ ih hg hs => .step a ih (hG s a hg) hs

/-- It only has to be weaker in the states that some run reaches. -/
theorem Machine.ReachWhen.mono_reach {G' : σ → α → Prop} (hG : ∀ s a, M.Reach s → G s a → G' s a)
    (h : M.ReachWhen G s) : M.ReachWhen G' s :=
  h.induct (fun _ => .init) fun s a _ hr ih hg hs => .step a ih (hG s a (hr.mono fun _ _ _ => trivial) hg) hs

/-- The state after a schedule, if every action of it can be taken. -/
def Machine.run (M : Machine σ α) (s : σ) : List α → Option σ
  | [] => some s
  | a :: as => (M.step s a).bind fun s' => M.run s' as

/-- A schedule that runs ends in a reachable state. -/
theorem Machine.Reach.run {as : List α} (h : M.Reach s) (hr : M.run s as = some s') : M.Reach s' := by
  induction as generalizing s with
  | nil => cases hr; exact h
  | cons a as ih =>
    obtain ⟨t, ht, hr⟩ := Option.bind_eq_some_iff.1 hr
    exact ih (.step a h trivial ht) hr

/-- What a schedule shows is reached. -/
theorem Machine.exists_reach {as : List α} (hi : M.init s) {p : σ → Bool} (h : (M.run s as).any p = true) :
    ∃ s', M.Reach s' ∧ p s' = true := by
  cases hr : M.run s as with
  | none => rw [hr] at h; cases h
  | some s' => rw [hr] at h; exact ⟨s', Machine.Reach.run (.init hi) hr, h⟩

/-- The state after a schedule, if every action of it can be taken and meets the condition. -/
def Machine.runWhen (M : Machine σ α) (G : σ → α → Prop) [∀ s a, Decidable (G s a)] (s : σ) : List α → Option σ
  | [] => some s
  | a :: as => if G s a then (M.step s a).bind fun s' => M.runWhen G s' as else none

/-- **What the steps of a schedule keep, its end keeps.** -/
theorem Machine.runWhen_induct [∀ s a, Decidable (G s a)] {I : σ → Prop} {as : List α}
    (hr : M.runWhen G s as = some s') (hi : I s)
    (hstep : ∀ s a s', I s → G s a → M.step s a = some s' → I s') : I s' := by
  induction as generalizing s with
  | nil => cases hr; exact hi
  | cons a as ih =>
    unfold Machine.runWhen at hr
    split at hr
    · rename_i hg
      obtain ⟨t, ht, hr⟩ := Option.bind_eq_some_iff.1 hr
      exact ih hr (hstep s a t hi hg ht)
    · cases hr

theorem Machine.ReachWhen.runWhen [∀ s a, Decidable (G s a)] {as : List α} (h : M.ReachWhen G s)
    (hr : M.runWhen G s as = some s') : M.ReachWhen G s' :=
  runWhen_induct hr h fun _ a _ ht hg hs => .step a ht hg hs

/-- What a schedule shows is reached, in a run that meets the condition. -/
theorem Machine.exists_reachWhen [∀ s a, Decidable (G s a)] {as : List α} (hi : M.init s) {p : σ → Bool}
    (h : (M.runWhen G s as).any p = true) : ∃ s', M.ReachWhen G s' ∧ p s' = true := by
  cases hr : M.runWhen G s as with
  | none => rw [hr] at h; cases h
  | some s' => rw [hr] at h; exact ⟨s', Machine.ReachWhen.runWhen (.init hi) hr, h⟩

/-- The machine that also keeps a record, starting with `t₀`. -/
def Machine.recording {τ : Type*} (M : Machine σ α) (t₀ : τ) (record : τ → σ → α → τ) : Machine (σ × τ) α where
  init p := M.init p.1 ∧ p.2 = t₀
  step p a := (M.step p.1 a).map fun s => (s, record p.2 p.1 a)

/-- A step of the recording machine is a step of the machine. -/
theorem Machine.recording_step {τ : Type*} {t₀ : τ} {record : τ → σ → α → τ} {p p' : σ × τ} {a : α}
    (h : (M.recording t₀ record).step p a = some p') :
    M.step p.1 a = some p'.1 ∧ p'.2 = record p.2 p.1 a := by
  obtain ⟨s, hs, rfl⟩ := Option.map_eq_some_iff.1 h
  exact ⟨hs, rfl⟩

/-- A step of the machine is a step of the recording machine. -/
theorem Machine.ReachWhen.recorded {τ : Type*} {t₀ t : τ} {record : τ → σ → α → τ}
    {G' : σ × τ → α → Prop} {a : α} (h : (M.recording t₀ record).ReachWhen G' (s, t)) (hg : G' (s, t) a)
    (hs : M.step s a = some s') : (M.recording t₀ record).ReachWhen G' (s', record t s a) :=
  .step a h hg (Option.map_eq_some_iff.2 ⟨s', hs, rfl⟩)

/-- Every run can be recorded. -/
theorem Machine.ReachWhen.exists_recorded {τ : Type*} (t₀ : τ) (record : τ → σ → α → τ) (h : M.ReachWhen G s) :
    ∃ t, (M.recording t₀ record).ReachWhen (fun p a => G p.1 a) (s, t) := by
  induction h with
  | init hi => exact ⟨t₀, .init ⟨hi, rfl⟩⟩
  | step a _ hg hs ih =>
    obtain ⟨t, ht⟩ := ih
    exact ⟨_, ht.recorded hg hs⟩

/-- Recording does not change what is reached. -/
theorem Machine.ReachWhen.unrecorded {τ : Type*} {t₀ : τ} {record : τ → σ → α → τ}
    {G' : σ × τ → α → Prop} {p : σ × τ} (h : (M.recording t₀ record).ReachWhen G' p)
    (hG : ∀ p a, G' p a → G p.1 a) : M.ReachWhen G p.1 := by
  induction h with
  | init hi => exact .init hi.1
  | step a _ hg hs ih => exact .step a ih (hG _ _ hg) (recording_step hs).1

end Runs
