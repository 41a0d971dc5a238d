import Mathlib.Order.Nat
import Mathlib.Tactic.Common
import ServerRoom.Lib.Clock

/-!
# Periodic jobs and flags that are held

Once a round a job is polled, and it runs if `P` has passed since it last ran. A flag is
raised by an alarm, and lowered when more than `H` has passed since the last alarm. Both
read a 32-bit counter of the time, and no two readings of one round and the next are more
than `G` apart.

* `Job.check_lt`: while the job does not run, less than `P` has passed.
* `Held.until_run`: if `P + G ≤ H`, a flag that is raised is up until the job has run.
* `Raised.origin`: a flag that is up was raised by an alarm, at most `H` before it was last seen to.
-/

namespace Clock

/-! ## A periodic job -/

/-- A job over `N` rounds: it is polled at `check n`, before which it ran at `since n`. -/
structure Job (P G N : ℕ) (check since : ℕ → ℕ) (runs : ℕ → Prop) : Prop where
  first : 0 < N → since 0 ≤ check 0 ∧ check 0 ≤ since 0 + G
  polled : ∀ n < N, runs n ↔ P ≤ (check n - since n) % 2 ^ 32
  idle : ∀ n, n + 1 < N → ¬ runs n → since (n + 1) = since n ∧ check n ≤ check (n + 1) ∧ check (n + 1) ≤ check n + G
  ran : ∀ n, n + 1 < N → runs n → since (n + 1) ≤ check (n + 1) ∧ check (n + 1) ≤ since (n + 1) + G

variable {P G N : ℕ} {check since : ℕ → ℕ} {runs : ℕ → Prop}

/-- **The counter does not go round** between a run of the job and the next poll. -/
theorem Job.bounds (h : Job P G N check since runs) (hP : 0 < P) (hround : P + G < 2 ^ 32) :
    ∀ n < N, since n ≤ check n ∧ check n < since n + P + G := by
  intro n
  induction n with
  | zero =>
    intro hn
    have := h.first hn
    omega
  | succ n ih =>
    intro hn
    obtain ⟨hle, hlt⟩ := ih (by omega)
    have hpoll := h.polled n (by omega)
    have hmod : (check n - since n) % 2 ^ 32 = check n - since n := Nat.mod_eq_of_lt (by omega)
    by_cases hr : runs n
    · have := h.ran n hn hr
      omega
    · have := h.idle n hn hr
      rw [hpoll, hmod] at hr
      omega

/-- **While the job does not run, less than `P` has passed.** -/
theorem Job.check_lt (h : Job P G N check since runs) (hP : 0 < P) (hround : P + G < 2 ^ 32) {n : ℕ} (hn : n < N)
    (hr : ¬ runs n) : check n < since n + P := by
  obtain ⟨hle, hlt⟩ := h.bounds hP hround n hn
  have hmod : (check n - since n) % 2 ^ 32 = check n - since n := Nat.mod_eq_of_lt (by omega)
  rw [h.polled n hn, hmod] at hr
  omega

/-- The job has not run since the round `k`. -/
theorem Job.since_eq (h : Job P G N check since runs) {k n : ℕ} (hkn : k ≤ n) (hn : n < N)
    (hno : ∀ i, k ≤ i → i < n → ¬ runs i) : since n = since k := by
  induction n, hkn using Nat.le_induction with
  | base => rfl
  | succ n hkn ih =>
    rw [(h.idle n hn (hno n hkn (by omega))).1]
    exact ih (by omega) fun i h1 h2 => hno i h1 (by omega)

/-! ## A flag that is held -/

/-- A flag, and when the last alarm was. -/
structure Hold where
  up : Bool
  timer : UInt32

/-- **What a round does to a flag** at the time `t`. -/
inductive Hold.Step (H : UInt32) (t : ℕ) (h : Hold) : Hold → Prop
  | alarm : Step H t h ⟨true, UInt32.ofNat t⟩
  | keep : Step H t h h
  | expire : H < UInt32.ofNat t - h.timer → Step H t h ⟨false, h.timer⟩

/-- A flag beside a job: in round `n` it is seen to at `seen n`, before the job is polled,
and it is `flag n` before that. -/
structure Held (P G N : ℕ) (H : UInt32) (check since : ℕ → ℕ) (runs : ℕ → Prop) (seen : ℕ → ℕ)
    (flag : ℕ → Hold) : Prop extends Job P G N check since runs where
  step : ∀ n < N, (flag n).Step H (seen n) (flag (n + 1))
  before : ∀ n < N, since n ≤ seen n ∧ seen n ≤ check n
  gap : ∀ n, n + 1 < N → check n ≤ seen (n + 1) ∧ seen (n + 1) ≤ check n + G

variable {H : UInt32} {seen : ℕ → ℕ} {flag : ℕ → Hold}

/-- **A raised flag is up until the job has run**, when it is held for `P + G` at least. -/
theorem Held.until_run (h : Held P G N H check since runs seen flag) (hP : 0 < P) (hround : P + G < 2 ^ 32)
    (hH : P + G ≤ H.toNat) {k n : ℕ} (hkn : k ≤ n) (hn : n < N)
    (halarm : flag (k + 1) = ⟨true, UInt32.ofNat (seen k)⟩)
    (hno : ∀ i, k ≤ i → i < n → ¬ runs i) :
    (flag (n + 1)).up = true ∧ ∃ t, seen k ≤ t ∧ t ≤ seen n ∧ (flag (n + 1)).timer = UInt32.ofNat t := by
  induction n, hkn using Nat.le_induction with
  | base => rw [halarm]; exact ⟨rfl, seen k, Nat.le_refl _, Nat.le_refl _, rfl⟩
  | succ n hkn ih =>
    obtain ⟨hup, t, hkt, htn, htimer⟩ := ih (by omega) fun i h1 h2 => hno i h1 (by omega)
    have hb := h.before n (by omega)
    have hg := h.gap n (by omega)
    have hstep := h.step (n + 1) hn
    generalize flag (n + 1 + 1) = f' at hstep
    cases hstep with
    | alarm => exact ⟨rfl, _, by omega, Nat.le_refl _, rfl⟩
    | keep => exact ⟨hup, t, hkt, by omega, htimer⟩
    | expire hexp =>
      -- the job did not run in round `n`, so less than `P` had passed since before the alarm
      have hlt := h.check_lt hP hround (by omega) (hno n hkn (by omega))
      rw [h.since_eq hkn (by omega) fun i h1 h2 => hno i h1 (by omega)] at hlt
      have hbk := h.before k (by omega)
      rw [htimer, UInt32.lt_iff_toNat_lt, sub_toNat (by omega)] at hexp
      have hmod := Nat.mod_le (seen (n + 1) - t) (2 ^ 32)
      omega

/-- The first run of the job from round `k` on. -/
theorem exists_first {k n : ℕ} (hex : ∃ i, k ≤ i ∧ i < n ∧ runs i) :
    ∃ i, k ≤ i ∧ i < n ∧ runs i ∧ ∀ j, k ≤ j → j < i → ¬ runs j := by
  classical
  obtain ⟨hk, hn, hr⟩ := Nat.find_spec hex
  refine ⟨Nat.find hex, hk, hn, hr, fun j hkj hj hrj => ?_⟩
  exact Nat.find_min hex hj ⟨hkj, by omega, hrj⟩

/-- **The job runs while the flag is up**: from the alarm in round `k` to that run, the flag
is up. -/
def Seen (runs : ℕ → Prop) (flag : ℕ → Hold) (k n : ℕ) : Prop :=
  ∃ i, k ≤ i ∧ i < n ∧ runs i ∧ ∀ j, k ≤ j → j ≤ i → (flag (j + 1)).up = true

/-- A flag that is down again was seen by the job. -/
theorem Held.seen_of_down (h : Held P G N H check since runs seen flag) (hP : 0 < P) (hround : P + G < 2 ^ 32)
    (hH : P + G ≤ H.toNat) {k n : ℕ} (hkn : k ≤ n) (hn : n < N)
    (halarm : flag (k + 1) = ⟨true, UInt32.ofNat (seen k)⟩)
    (hdown : (flag (n + 1)).up = false) : Seen runs flag k n := by
  have hex : ∃ i, k ≤ i ∧ i < n ∧ runs i := by
    by_contra hno
    have hup := (h.until_run hP hround hH hkn hn halarm fun i h1 h2 hr => hno ⟨i, h1, h2, hr⟩).1
    rw [hdown] at hup
    cases hup
  obtain ⟨i, hki, hin, hr, hfirst⟩ := exists_first hex
  refine ⟨i, hki, hin, hr, fun j hkj hji => ?_⟩
  exact (h.until_run hP hround hH hkj (by omega) halarm fun x h1 h2 => hfirst x h1 (by omega)).1

/-- And when `P` has passed since the alarm, the flag was seen by the job. -/
theorem Held.seen_of_check (h : Held P G N H check since runs seen flag) (hP : 0 < P) (hround : P + G < 2 ^ 32)
    (hH : P + G ≤ H.toNat) {k n : ℕ} (hkn : k ≤ n) (hn : n < N)
    (halarm : flag (k + 1) = ⟨true, UInt32.ofNat (seen k)⟩)
    (hlate : seen k + P ≤ check n) : Seen runs flag k (n + 1) := by
  have hex : ∃ i, k ≤ i ∧ i < n + 1 ∧ runs i := by
    by_contra hno
    have hnone : ∀ i, k ≤ i → i < n + 1 → ¬ runs i := fun i h1 h2 hr => hno ⟨i, h1, h2, hr⟩
    have hlt := h.check_lt hP hround hn (hnone n hkn (by omega))
    rw [h.since_eq hkn (by omega) fun i h1 h2 => hnone i h1 (by omega)] at hlt
    have := h.before k (by omega)
    omega
  obtain ⟨i, hki, hin, hr, hfirst⟩ := exists_first hex
  refine ⟨i, hki, hin, hr, fun j hkj hji => ?_⟩
  exact (h.until_run hP hround hH hkj (by omega) halarm fun x h1 h2 => hfirst x h1 (by omega)).1

/-! ## Where a raised flag comes from -/

/-- The last of the visits before round `n`. -/
structure LastVisit (visits : ℕ → Prop) (m n : ℕ) : Prop where
  lt : m < n
  visit : visits m
  none : ∀ i, m < i → i < n → ¬ visits i

theorem LastVisit.succ {visits : ℕ → Prop} {m n : ℕ} (h : LastVisit visits m n) (hn : ¬ visits n) :
    LastVisit visits m (n + 1) := by
  have hlt := h.lt
  refine ⟨by omega, h.visit, fun i hmi hin => ?_⟩
  by_cases hi : i = n
  · rw [hi]
    exact hn
  · exact h.none i hmi (by omega)

theorem LastVisit.self {visits : ℕ → Prop} {n : ℕ} (h : visits n) : LastVisit visits n (n + 1) :=
  ⟨Nat.lt_succ_self n, h, fun i h1 h2 => by omega⟩

/-- **When a job that ran in round `m`, at `since`, is polled next**: it is due after `P`, and no poll
comes later than `P + G`. -/
theorem LastVisit.check_lt {P G m n since : ℕ} {check : ℕ → ℕ} {runs : ℕ → Prop} (h : LastVisit runs m n)
    (hround : P + G < 2 ^ 32) (hP : 0 < P) (hfirst : since ≤ check (m + 1) ∧ check (m + 1) ≤ since + G)
    (hpoll : ∀ i, m < i → i ≤ n → (runs i ↔ P ≤ (check i - since) % 2 ^ 32))
    (hgap : ∀ i, m < i → i < n → check i ≤ check (i + 1) ∧ check (i + 1) ≤ check i + G) :
    since ≤ check n ∧ check n < since + P + G ∧ (¬ runs n → check n < since + P) := by
  have hbounds : ∀ i, m + 1 ≤ i → i ≤ n → since ≤ check i ∧ check i < since + P + G := by
    intro i hi
    induction i, hi using Nat.le_induction with
    | base => intro _; omega
    | succ i hi ih =>
      intro hin
      obtain ⟨hle, hlt⟩ := ih (by omega)
      have hno := h.none i (by omega) (by omega)
      rw [hpoll i (by omega) (by omega), Nat.mod_eq_of_lt (by omega)] at hno
      have := hgap i (by omega) (by omega)
      omega
  obtain ⟨hle, hlt⟩ := hbounds n h.lt (Nat.le_refl n)
  refine ⟨hle, hlt, fun hno => ?_⟩
  rw [hpoll n h.lt (Nat.le_refl n), Nat.mod_eq_of_lt (by omega)] at hno
  omega

/-- A flag over `N` rounds that is down at first and seen to in the rounds `visits`: an alarm raises it,
and without one it is up only if it was and at most `H` has passed. -/
structure Raised (N : ℕ) (H : UInt32) (visits alarm : ℕ → Prop) (seen : ℕ → ℕ) (flag : ℕ → Hold) : Prop where
  start : (flag 0).up = false
  skip : ∀ n < N, ¬ visits n → flag (n + 1) = flag n
  rises : ∀ n < N, visits n → alarm n → flag (n + 1) = ⟨true, UInt32.ofNat (seen n)⟩
  quiet : ∀ n < N, visits n → ¬ alarm n → (flag (n + 1)).up = true →
    flag (n + 1) = flag n ∧ ¬ H < UInt32.ofNat (seen n) - (flag n).timer

variable {visits alarm : ℕ → Prop} {D : ℕ}

/-- **A raised flag has an alarm behind it**, at most `H` before it was last seen to, when it is seen to
every `D`. -/
theorem Raised.origin (h : Raised N H visits alarm seen flag) (hround : H.toNat + D < 2 ^ 32)
    (hgap : ∀ m n, n < N → LastVisit visits m n → visits n → seen m ≤ seen n ∧ seen n ≤ seen m + D) {n : ℕ}
    (hn : n ≤ N) (hup : (flag n).up = true) :
    ∃ k m, LastVisit visits m n ∧ k ≤ m ∧ visits k ∧ alarm k ∧ seen k ≤ seen m ∧ seen m ≤ seen k + H.toNat ∧
      (flag n).timer = UInt32.ofNat (seen k) := by
  induction n with
  | zero =>
    rw [h.start] at hup
    cases hup
  | succ n ih =>
    by_cases hv : visits n
    · by_cases ha : alarm n
      · rw [h.rises n hn hv ha]
        exact ⟨n, n, .self hv, Nat.le_refl n, hv, ha, Nat.le_refl _, Nat.le_add_right _ _, rfl⟩
      · obtain ⟨hkeep, hold⟩ := h.quiet n hn hv ha hup
        rw [hkeep] at hup ⊢
        obtain ⟨k, m, hlast, hkm, hvk, hak, hle, hlt, htimer⟩ := ih (by omega) hup
        obtain ⟨hmn, hmd⟩ := hgap m n hn hlast hv
        have hlate : seen n < seen k + 2 ^ 32 := by omega
        rw [htimer, lt_sub_iff (by omega) hlate] at hold
        have hmn' := hlast.lt
        exact ⟨k, n, .self hv, by omega, hvk, hak, by omega, by omega, htimer⟩
    · rw [h.skip n hn hv] at hup ⊢
      obtain ⟨k, m, hlast, hrest⟩ := ih (by omega) hup
      exact ⟨k, m, hlast.succ hv, hrest⟩

end Clock
