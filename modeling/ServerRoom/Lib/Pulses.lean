import Mathlib.Data.List.Basic
import Mathlib.Data.Nat.Notation

/-!
# Bytes as pulses on a line

A line has a level each time it is polled. A reader that has seen a level counts the polls in
which the line stays there, up to a limit; the level of the poll after the change is the next one
that it counts. `widths` are its counts.

* `count_spec`: what a count says of the line.
* `widths_of_shows`: a line that shows runs of known lengths, each of at least two polls, is read
  as these lengths; the two polls at a change are not counted.
* `byteAt_flatMap`: bytes that are sent bit by bit, the most significant first, are read back.
-/

namespace Pulses

/-! ## Polling -/

section Polling

variable {α : Type*} [DecidableEq α] {line : ℕ → α} {level : α} {limit : ℕ}

/-- How often the line is at `level`, polled from `pos` on and at most `left` times, and where the
next poll is. -/
def count (line : ℕ → α) (level : α) : ℕ → ℕ → ℕ × ℕ
  | 0, pos => (0, pos)
  | left + 1, pos =>
    if line pos = level then
      let (n, pos) := count line level left (pos + 1)
      (n + 1, pos)
    else (0, pos + 1)

/-- **What a count says.** It ends at the limit, or at a poll that finds another level. -/
theorem count_spec (line : ℕ → α) (level : α) (left : ℕ) : ∀ pos,
    (∀ k < (count line level left pos).1, line (pos + k) = level) ∧
      ((count line level left pos).1 = left ∧ (count line level left pos).2 = pos + left ∨
        (count line level left pos).1 < left ∧ line (pos + (count line level left pos).1) ≠ level ∧
          (count line level left pos).2 = pos + (count line level left pos).1 + 1) := by
  induction left with
  | zero =>
    intro pos
    exact ⟨fun k hk => absurd hk (Nat.not_lt_zero k), Or.inl ⟨rfl, rfl⟩⟩
  | succ left ih =>
    intro pos
    unfold count
    by_cases hl : line pos = level
    · obtain ⟨hall, hend⟩ := ih (pos + 1)
      simp only [if_pos hl]
      refine ⟨fun k hk => ?_, ?_⟩
      · cases k with
        | zero => exact hl
        | succ k =>
          have := hall k (by omega)
          rwa [Nat.add_assoc, Nat.add_comm 1 k] at this
      · rcases hend with ⟨h1, h2⟩ | ⟨h1, h2, h3⟩
        · left
          omega
        · right
          refine ⟨by omega, ?_, by omega⟩
          rwa [Nat.add_assoc, Nat.add_comm 1] at h2
    · simp only [if_neg hl]
      exact ⟨fun k hk => absurd hk (Nat.not_lt_zero k), Or.inr ⟨Nat.succ_pos _, hl, trivial⟩⟩

/-- A run of `n` polls at the level is counted. -/
theorem count_run {n pos : ℕ} (hrun : ∀ k < n, line (pos + k) = level) (hend : line (pos + n) ≠ level) {left : ℕ}
    (hn : n < left) : count line level left pos = (n, pos + n + 1) := by
  obtain ⟨hall, hcases⟩ := count_spec line level left pos
  generalize count line level left pos = r at hall hcases
  obtain ⟨m, next⟩ := r
  dsimp only at hall hcases
  have hle : m ≤ n := Nat.le_of_not_lt fun hlt => hend (hall n hlt)
  rcases hcases with ⟨h1, -⟩ | ⟨-, h2, h3⟩
  · omega
  · have hge : n ≤ m := Nat.le_of_not_lt fun hlt => h2 (hrun m hlt)
    have heq : m = n := Nat.le_antisymm hle hge
    rw [h3, heq]

/-- The counts of a reader that makes at most `steps` of them, and stops at one that reaches the
limit. -/
def widths (line : ℕ → α) (limit : ℕ) : ℕ → α → ℕ → List ℕ
  | 0, _, _ => []
  | steps + 1, level, pos =>
    let (n, pos) := count line level limit pos
    if n = limit then [] else n :: widths line limit steps (line pos) (pos + 1)

/-- A reader that makes fewer counts makes the first of them. -/
theorem widths_take {m : ℕ} : ∀ {steps}, m ≤ steps → ∀ level pos,
    (widths line limit steps level pos).take m = widths line limit m level pos := by
  induction m with
  | zero => exact fun _ _ _ => List.take_zero
  | succ m ih =>
    intro steps hle level pos
    obtain ⟨steps, rfl⟩ : ∃ k, steps = k + 1 := ⟨steps - 1, by omega⟩
    have hle : m ≤ steps := by omega
    have htail := ih hle
    unfold widths
    dsimp only
    split
    · rfl
    · rw [List.take_succ_cons, htail]

/-- The line shows some runs, from `pos` on. -/
def Shows (line : ℕ → α) : ℕ → List (α × ℕ) → Prop
  | _, [] => True
  | pos, (level, n) :: runs => (∀ k < n, line (pos + k) = level) ∧ Shows line (pos + n) runs

/-- The line that shows some runs and is then at rest. -/
def polled (rest : α) : List (α × ℕ) → ℕ → α
  | [], _ => rest
  | (level, n) :: runs, k => if k < n then level else polled rest runs (k - n)

omit [DecidableEq α] in
theorem shows_polled (rest : α) (runs : List (α × ℕ)) : ∀ {pos}, (∀ k, line (pos + k) = polled rest runs k) →
    Shows line pos runs := by
  induction runs with
  | nil => exact fun _ => trivial
  | cons r runs ih =>
    intro pos h
    refine ⟨fun k hk => (h k).trans (if_pos hk), ih fun k => ?_⟩
    have hrest := h (r.2 + k)
    unfold polled at hrest
    rw [if_neg (by omega), Nat.add_sub_cancel_left, ← Nat.add_assoc] at hrest
    exact hrest

/-- **Runs are read as their lengths.** All but the last are counted. -/
theorem widths_of_shows {runs : List (α × ℕ)} : ∀ {n pos : ℕ} {level : α}, Shows line pos ((level, n) :: runs) →
    ((level, n) :: runs).IsChain (fun a b => a.1 ≠ b.1) → n < limit →
    (∀ r ∈ runs, 2 ≤ r.2 ∧ r.2 < limit + 2) →
    widths line limit runs.length level pos = ((n :: runs.map fun r => r.2 - 2).take runs.length) := by
  induction runs with
  | nil => exact fun _ _ _ _ => rfl
  | cons r runs ih =>
    intro n pos level hshows hchain hn hruns
    obtain ⟨next, m⟩ := r
    obtain ⟨hrun, hnext, hrest⟩ := hshows
    obtain ⟨hne, hchain⟩ := List.isChain_cons_cons.1 hchain
    obtain ⟨hm, hm'⟩ := hruns _ List.mem_cons_self
    dsimp only at hne hm hm' hnext
    -- the change is found at the first poll of the next run, and its level at the second
    have hfound : line (pos + n) = next := hnext 0 (by omega)
    have hlevel : line (pos + n + 1) = next := hnext 1 (by omega)
    have hcount : count line level limit pos = (n, pos + n + 1) :=
      count_run hrun (fun he => hne (he.symm.trans hfound)) hn
    have hleft : Shows line (pos + n + 1 + 1) ((next, m - 2) :: runs) := by
      refine ⟨fun k hk => ?_, ?_⟩
      · have := hnext (2 + k) (by omega)
        rwa [← Nat.add_assoc] at this
      · rwa [show pos + n + 1 + 1 + (m - 2) = pos + n + m by omega]
    have hchain' : ((next, m - 2) :: runs).IsChain (fun a b => a.1 ≠ b.1) := by
      cases runs with
      | nil => exact List.IsChain.singleton _
      | cons r runs =>
        obtain ⟨h1, h2⟩ := List.isChain_cons_cons.1 hchain
        exact List.isChain_cons_cons.2 ⟨h1, h2⟩
    have htail := ih hleft hchain' (by omega) fun r hr => hruns r (List.mem_cons_of_mem _ hr)
    rw [List.length_cons, List.take_succ_cons, List.map_cons, ← htail, widths, hcount]
    dsimp only
    rw [if_neg (by omega), hlevel]

end Polling

/-! ## Bytes -/

/-- A bit is shifted into a byte. -/
def shiftIn (b : UInt8) (bit : Bool) : UInt8 := if bit then b <<< 1 ||| 1 else b <<< 1

/-- The byte that some bits spell, the most significant first. -/
def ofBits (bits : List Bool) : UInt8 := bits.foldl shiftIn 0

/-- The bits of a byte, the most significant first. -/
def toBits (b : UInt8) : List Bool := (List.range 8).map fun i => b.toNat.testBit (7 - i)

/-- The byte number `m` of some bits. -/
def byteAt (bits : List Bool) (m : ℕ) : UInt8 := ofBits ((bits.drop (8 * m)).take 8)

theorem length_toBits (b : UInt8) : (toBits b).length = 8 := rfl

theorem ofBits_toBits (b : UInt8) : ofBits (toBits b) = b := by
  have hall : ∀ n < 256, ofBits (toBits (UInt8.ofNat n)) = UInt8.ofNat n := by decide +kernel
  have hb := hall b.toNat b.toNat_lt
  rwa [UInt8.ofNat_toNat] at hb

theorem length_flatMap_toBits (bytes : List UInt8) : (bytes.flatMap toBits).length = 8 * bytes.length := by
  induction bytes with
  | nil => rfl
  | cons b bytes ih =>
    rw [List.flatMap_cons, List.length_append, ih, length_toBits, List.length_cons]
    omega

/-- **Bytes are read back** from their bits. -/
theorem byteAt_flatMap (bytes : List UInt8) : ∀ {m : ℕ} (hm : m < bytes.length),
    byteAt (bytes.flatMap toBits) m = bytes[m] := by
  induction bytes with
  | nil => exact fun hm => absurd hm (Nat.not_lt_zero _)
  | cons b bytes ih =>
    intro m hm
    unfold byteAt at ih ⊢
    rw [List.flatMap_cons]
    cases m with
    | zero =>
      rw [Nat.mul_zero, List.drop_zero, List.take_left' (length_toBits b)]
      exact ofBits_toBits b
    | succ m =>
      have hdrop : (toBits b ++ bytes.flatMap toBits).drop (8 * (m + 1)) = (bytes.flatMap toBits).drop (8 * m) := by
        rw [show 8 * (m + 1) = (toBits b).length + 8 * m by rw [length_toBits]; omega,
          List.drop_length_add_append]
      rw [hdrop, ih (Nat.lt_of_succ_lt_succ hm)]
      rfl

/-- A bit after the byte does not matter to it. -/
theorem byteAt_append (bits more : List Bool) {m : ℕ} (h : 8 * m + 8 ≤ bits.length) :
    byteAt (bits ++ more) m = byteAt bits m := by
  unfold byteAt
  rw [List.drop_append_of_le_length (by omega), List.take_append_of_le_length (by rw [List.length_drop]; omega)]

/-- **One more bit**: it is shifted into the byte that it belongs to. -/
theorem byteAt_snoc (bits : List Bool) (bit : Bool) (m : ℕ) :
    byteAt (bits ++ [bit]) m =
      if m = bits.length / 8 then shiftIn (byteAt bits m) bit else byteAt bits m := by
  unfold byteAt ofBits
  rw [List.drop_append, List.take_append]
  split
  · rename_i hm
    have hle : 8 * m ≤ bits.length := by omega
    have hlen : ((bits.drop (8 * m)).take 8) = bits.drop (8 * m) :=
      List.take_of_length_le (by rw [List.length_drop]; omega)
    have hdrop : 8 * m - bits.length = 0 := by omega
    have hroom : 0 < 8 - (bits.drop (8 * m)).length := by rw [List.length_drop]; omega
    obtain ⟨room, hroom⟩ : ∃ k, 8 - (bits.drop (8 * m)).length = k + 1 := ⟨_, (Nat.succ_pred_eq_of_pos hroom).symm⟩
    rw [hdrop, List.drop_zero, hroom, hlen]
    simp only [List.take_succ_cons, List.take_nil, List.foldl_append, List.foldl_cons, List.foldl_nil]
  · rename_i hm
    have hnone : ([bit].drop (8 * m - bits.length)).take (8 - (bits.drop (8 * m)).length) = [] := by
      rw [List.length_drop]
      rcases Nat.lt_or_ge bits.length (8 * m) with hlt | hge
      · rw [List.drop_of_length_le (by simp; omega), List.take_nil]
      · rw [show 8 - (bits.length - 8 * m) = 0 by omega, List.take_zero]
    rw [hnone, List.append_nil]

end Pulses
