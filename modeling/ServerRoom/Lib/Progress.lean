import ServerRoom.Lib.Runs

/-!
# Bounded progress

In a run of a machine, `m` are the actions of somebody who works towards a goal `T`. A rank `r` that each
of them lowers, and that no other action raises, bounds how many of them there are before the goal is
reached, in whatever order the actions come (`runWhen_progress`). Where some of them have to be paid for
otherwise, a count `c` of what pays for them is added to the bound (`runWhen_budget`).
-/

namespace Runs

variable {σ α : Type*} {M : Machine σ α} {G : σ → α → Prop} [∀ s a, Decidable (G s a)] {s s' : σ} {as : List α}
  {I T : σ → Prop} {r c : σ → ℕ} {m : α → Bool}

theorem length_filter_cons (m : α → Bool) (a : α) (as : List α) :
    ((a :: as).filter m).length = (m a).toNat + (as.filter m).length := by
  rw [List.filter_cons]
  cases m a with
  | true => exact Nat.add_comm _ _
  | false => exact (Nat.zero_add _).symm

/-- A goal that no action undoes is kept to the end of a run. -/
theorem Machine.runWhen_keeps (hr : M.runWhen G s as = some s') (hi : I s) (ht : T s)
    (hstep : ∀ s a s', I s → G s a → M.step s a = some s' → I s')
    (hkeep : ∀ s a s', I s → T s → G s a → M.step s a = some s' → T s') : T s' := by
  let J : σ → Prop := fun s => I s ∧ T s
  have hstart : J s := ⟨hi, ht⟩
  have hend : J s' := Machine.runWhen_induct hr hstart fun s a s' h hg hs =>
    ⟨hstep s a s' h.1 hg hs, hkeep s a s' h.1 h.2 hg hs⟩
  exact hend.2

/-- **Every action of `m` brings the goal nearer**, as long as the state keeps `I`. -/
theorem Machine.runWhen_progress (hr : M.runWhen G s as = some s') (hi : I s)
    (hstep : ∀ s a s', I s → G s a → M.step s a = some s' → I s')
    (hkeep : ∀ s a s', I s → T s → G s a → M.step s a = some s' → T s')
    (hrank : ∀ s a s', I s → ¬ T s → G s a → M.step s a = some s' → T s' ∨ (m a).toNat + r s' ≤ r s) :
    T s' ∨ (as.filter m).length + r s' ≤ r s := by
  induction as generalizing s with
  | nil =>
    cases hr
    exact .inr (Nat.le_of_eq (Nat.zero_add _))
  | cons a as ih =>
    by_cases ht : T s
    · exact .inl (Machine.runWhen_keeps hr hi ht hstep hkeep)
    · unfold Machine.runWhen at hr
      split at hr
      · rename_i hG
        obtain ⟨t, hs, hr⟩ := Option.bind_eq_some_iff.1 hr
        have hit := hstep s a t hi hG hs
        have hcount := length_filter_cons m a as
        rcases hrank s a t hi ht hG hs with hreached | hle
        · exact .inl (Machine.runWhen_keeps hr hit hreached hstep hkeep)
        · refine (ih hr hit).imp_right fun hrest => ?_
          rw [hcount]
          omega
      · cases hr

/-- **Every action of `m` lowers the rank or is paid for**, as long as the state keeps `I`. -/
theorem Machine.runWhen_budget (hr : M.runWhen G s as = some s') (hi : I s)
    (hstep : ∀ s a s', I s → G s a → M.step s a = some s' → I s')
    (hcost : ∀ s a s', I s → G s a → M.step s a = some s' → (m a).toNat + r s' + c s ≤ r s + c s') :
    (as.filter m).length + r s' + c s ≤ r s + c s' := by
  induction as generalizing s with
  | nil =>
    cases hr
    exact Nat.le_of_eq (by rw [List.filter_nil, List.length_nil, Nat.zero_add])
  | cons a as ih =>
    unfold Machine.runWhen at hr
    split at hr
    · rename_i hG
      obtain ⟨t, hs, hr⟩ := Option.bind_eq_some_iff.1 hr
      have hfirst := hcost s a t hi hG hs
      have hrest := ih hr (hstep s a t hi hG hs)
      have hcount := length_filter_cons m a as
      omega
    · cases hr

end Runs
