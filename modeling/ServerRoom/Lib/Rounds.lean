import Mathlib.Data.Finset.Basic
import Mathlib.Data.List.Nodup
import Mathlib.Data.List.Pairwise
import Mathlib.Data.List.Range

/-!
# Rounds of deliveries

A sender works in rounds, one after the other; each round has a set of recipients, and
reaches them one at a time. `reached sets current remaining r` are the numbers of the
rounds that have reached `r`, when `sets` are the recipients of the rounds so far and
`remaining` is what is left of round `current`.

* `reached_open`, `reached_deliver`, `reached_close`: a round starts, reaches a recipient,
  ends.
* `reached_sorted`: a recipient is reached in the order of the rounds.
* `filter_eq_of_reached`: a log of deliveries holds one entry for each round that has ended
  and of which its owner is a recipient, and none for the others.
* `sublist_of_numbered`: entries that hold what was sent under their numbers, in the order of
  these, are a subsequence of what was sent.
-/

namespace Rounds

variable {ρ : Type*} [DecidableEq ρ] {sets : List (Finset ρ)} {current : ℕ} {remaining : Finset ρ} {r x : ρ}

def reached (sets : List (Finset ρ)) (current : ℕ) (remaining : Finset ρ) (r : ρ) : List ℕ :=
  (List.range sets.length).filter fun k => r ∈ sets[k]?.getD ∅ ∧ (k = current → r ∉ remaining)

/-- A recipient is reached in the order of the rounds. -/
theorem reached_sorted (sets : List (Finset ρ)) (current : ℕ) (remaining : Finset ρ) (r : ρ) :
    (reached sets current remaining r).Pairwise (· < ·) :=
  List.pairwise_lt_range.filter _

theorem mem_reached {k : ℕ} : k ∈ reached sets current remaining r ↔
    k < sets.length ∧ r ∈ sets[k]?.getD ∅ ∧ (k = current → r ∉ remaining) := by
  unfold reached
  rw [List.mem_filter, List.mem_range, decide_eq_true_iff]

/-- What is left of a round does not matter before the round has started. -/
theorem reached_congr {remaining' : Finset ρ} (h : sets.length ≤ current ∨ (r ∈ remaining ↔ r ∈ remaining')) :
    reached sets current remaining r = reached sets current remaining' r := by
  refine List.filter_congr fun k hk => decide_eq_decide.2 (and_congr_right fun _ => ?_)
  rw [List.mem_range] at hk
  rcases h with h | h
  · have hne : k ≠ current := by omega
    simp [hne]
  · rw [h]

/-- **A round starts**, and has not reached anybody. -/
theorem reached_open (hlen : sets.length = current) (set : Finset ρ) (r : ρ) :
    reached (sets ++ [set]) current set r = reached sets current remaining r := by
  unfold reached
  rw [List.length_append, List.length_singleton, List.range_succ, List.filter_append]
  have hnew : (sets ++ [set])[sets.length]?.getD ∅ = set := by simp
  have hlast : [sets.length].filter
      (fun k => decide (r ∈ (sets ++ [set])[k]?.getD ∅ ∧ (k = current → r ∉ set))) = [] := by
    refine List.filter_eq_nil_iff.2 fun k hk => ?_
    rw [List.mem_singleton.1 hk, hnew, hlen]
    simp
  rw [hlast, List.append_nil]
  refine List.filter_congr fun k hk => decide_eq_decide.2 ?_
  rw [List.mem_range] at hk
  have hne : k ≠ current := by omega
  simp [hne, List.getElem?_append_left hk]

/-- **A round reaches a recipient** `r`: its number is added for `r`, and for nobody else. -/
theorem reached_deliver (hlen : sets.length = current + 1) (hr : r ∈ sets[current]?.getD ∅) (hnot : r ∉ remaining)
    (x : ρ) : reached sets current remaining x =
      reached sets current (insert r remaining) x ++ if r = x then [current] else [] := by
  by_cases hx : r = x
  · subst hx
    rw [if_pos rfl]
    unfold reached
    rw [hlen, List.range_succ, List.filter_append, List.filter_append]
    have h1 : [current].filter
        (fun k => decide (r ∈ sets[k]?.getD ∅ ∧ (k = current → r ∉ remaining))) = [current] := by
      simp [hr, hnot]
    have h2 : [current].filter
        (fun k => decide (r ∈ sets[k]?.getD ∅ ∧ (k = current → r ∉ insert r remaining))) = [] := by
      simp
    rw [h1, h2, List.append_nil]
    congr 1
    refine List.filter_congr fun k hk => decide_eq_decide.2 ?_
    have hne : k ≠ current := Nat.ne_of_lt (List.mem_range.1 hk)
    simp [hne]
  · rw [if_neg hx, List.append_nil]
    exact reached_congr (Or.inr (by simp [Ne.symm hx]))

/-- **A round ends** when it has reached all its recipients. -/
theorem reached_close (sets : List (Finset ρ)) (current next : ℕ) (r : ρ) :
    reached sets next ∅ r = reached sets current ∅ r := by
  simp [reached]

/-- **One entry for each round.** If the rounds that the entries of a log belong to are those
that have reached its owner `r`, and all entries of round `k` are equal, the log has exactly
one of them if `r` is a recipient of the round, and otherwise none. -/
theorem filter_eq_of_reached {ε : Type*} {num : ε → Option ℕ} {log : List ε} {k : ℕ} {e : ε}
    (hlog : log.filterMap num = reached sets current remaining r) (hk : k < current) (hlt : k < sets.length)
    (heq : ∀ y ∈ log, num y = some k → y = e) :
    log.filter (fun y => num y = some k) = if r ∈ sets[k]?.getD ∅ then [e] else [] := by
  have hcount : (log.filter fun y => num y = some k).length = (reached sets current remaining r).count k := by
    rw [← hlog, List.count_filterMap, List.countP_eq_length_filter]
    refine congrArg List.length (List.filter_congr fun y _ => ?_)
    rw [Bool.eq_iff_iff]
    simp
  have hall : log.filter (fun y => num y = some k) =
      List.replicate ((reached sets current remaining r).count k) e := by
    refine List.eq_replicate_iff.2 ⟨hcount, fun y hy => ?_⟩
    obtain ⟨hy, hn⟩ := List.mem_filter.1 hy
    exact heq y hy (of_decide_eq_true hn)
  have hnodup : (reached sets current remaining r).Nodup := (reached_sorted ..).imp Nat.ne_of_lt
  rw [hall]
  split
  · rename_i hr
    have hmem : k ∈ reached sets current remaining r := mem_reached.2 ⟨hlt, hr, fun he => by omega⟩
    rw [List.count_eq_one_of_mem hnodup hmem]
    rfl
  · rename_i hr
    have hmem : k ∉ reached sets current remaining r := fun hm => hr (mem_reached.1 hm).2.1
    rw [List.count_eq_zero.2 hmem]
    rfl

/-- **Numbered entries.** If each entry holds what stands in `sent` under its number, and the
numbers increase, then the entries are a subsequence of `sent`. -/
theorem sublist_of_numbered {ε μ : Type*} {num : ε → Option ℕ} {what : ε → μ} {log : List ε} {sent : List μ}
    (hsorted : (log.filterMap num).Pairwise (· < ·))
    (heq : ∀ y ∈ log, ∀ k, num y = some k → sent[k]? = some (what y)) :
    ((log.filter fun y => (num y).isSome).map what).Sublist sent := by
  have hlt : ∀ k ∈ log.filterMap num, k < sent.length := by
    intro k hk
    obtain ⟨y, hy, hn⟩ := List.mem_filterMap.1 hk
    obtain ⟨h, -⟩ := List.getElem?_eq_some_iff.1 (heq y hy k hn)
    exact h
  have hplaces : (log.filter fun y => (num y).isSome).map what =
      (log.filterMap num).pmap (fun k h => sent.get ⟨k, h⟩) hlt := by
    clear hsorted
    induction log with
    | nil => rfl
    | cons y log ih =>
      have htail := ih (fun z hz => heq z (List.mem_cons_of_mem y hz))
      cases hn : num y with
      | none =>
        have hskip : (y :: log).filterMap num = log.filterMap num := by rw [List.filterMap_cons, hn]
        simp only [List.filter_cons, hn, Option.isSome_none, Bool.false_eq_true, if_false, hskip]
        exact htail fun k hk => hlt k (hskip ▸ hk)
      | some k =>
        have htake : (y :: log).filterMap num = k :: log.filterMap num := by rw [List.filterMap_cons, hn]
        obtain ⟨h, hval⟩ := List.getElem?_eq_some_iff.1 (heq y List.mem_cons_self k hn)
        simp only [List.filter_cons, hn, Option.isSome_some, if_true, htake, List.map_cons, List.pmap]
        rw [List.get_eq_getElem, hval, htail fun k hk => hlt k (htake ▸ List.mem_cons_of_mem _ hk)]
  have hmap : (log.filterMap num).pmap (fun k h => sent.get ⟨k, h⟩) hlt =
      ((log.filterMap num).pmap (fun k h => (⟨k, h⟩ : Fin sent.length)) hlt).map (sent[·]) := by
    rw [List.map_pmap]
    rfl
  rw [hplaces, hmap]
  refine List.map_getElem_sublist ((List.pairwise_pmap hlt).2 ?_)
  exact hsorted.imp fun h _ _ => h

end Rounds
