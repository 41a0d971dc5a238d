import Mathlib.Data.List.Forall2
import Mathlib.Data.List.Induction
import ServerRoom.Lib.Clock
import ServerRoom.Proof.Temperature
import ServerRoom.Spec.Dht22

/-!
# What the DHT22 driver reads

The loop of `read` takes the line apart into the lengths of its levels (`Pulses.widths`), and of
these every second one, from the fifth on, is a bit (`bits`).

* `timings_spells`: the loop stores the bits, and nothing behind the array.
* `Driver.read_spec`: what `read` does on any line whatever.
* `reading_exact`: a sensor that sends its values is read exactly, with any lengths within the
  tolerance.
* `humidity_heard`: in whole runs every humidity that is shown has passed the check.
* `temperature_never_nan`: a failed transfer shows in the humidity only. The temperature is then
  what the transfer has left in the bytes, and both stay as they are.
-/

namespace ServerRoom.DHT22

open Pulses

variable {count : UInt8} {line : ℕ → Level} {data₀ : ℕ → UInt8} {t : Timings} {bs : List Bool}

/-! ## Any line -/

/-- The bits among the lengths, the first of which has number `i`. -/
def bits (count : UInt8) : ℕ → List ℕ → List Bool
  | _, [] => []
  | i, n :: ns => if i ≥ 4 ∧ i % 2 = 0 then decide (n > count.toNat) :: bits count (i + 1) ns else bits count (i + 1) ns

/-- The bits `bs` are stored, and the memory behind the array is as in `data₀`. -/
structure Spells (data₀ : ℕ → UInt8) (t : Timings) (bs : List Bool) : Prop where
  length : t.j = bs.length
  bytes : ∀ m < 5, t.data m = byteAt bs m
  behind : ∀ m, 6 ≤ m → t.data m = data₀ m

theorem Spells.store (h : Spells data₀ t bs) (hlen : bs.length < 48) (bit : Bool) :
    Spells data₀ (t.store bit) (bs ++ [bit]) := by
  refine ⟨?_, fun m hm => ?_, fun m hm => ?_⟩
  · rw [List.length_append, List.length_singleton, ← h.length]
    rfl
  · rw [byteAt_snoc, ← h.length]
    show Function.update t.data (t.j / 8) _ m = _
    rw [Function.update_apply]
    split
    · rename_i he
      rw [← he, h.bytes m hm]
    · exact h.bytes m hm
  · have hne : m ≠ t.j / 8 := by
      rw [h.length]
      omega
    show Function.update t.data (t.j / 8) _ m = _
    rw [Function.update_of_ne hne]
    exact h.behind m hm

/-- **The loop stores the bits that it measures**, and polls the line at most 256 times for each. -/
theorem timings_spells (count : UInt8) (line : ℕ → Level) (left : ℕ) : ∀ {t : Timings} {bs : List Bool},
    left ≤ maxTimings → Spells data₀ t bs → 2 * bs.length ≤ maxTimings - left - 3 →
    Spells data₀ (timings count line left t)
        (bs ++ bits count (maxTimings - left) (widths line 255 left t.laststate t.polls)) ∧
      (timings count line left t).polls ≤ t.polls + 256 * left := by
  induction left with
  | zero =>
    intro t bs _ h _
    refine ⟨?_, Nat.le_refl _⟩
    show Spells data₀ t (bs ++ [])
    rw [List.append_nil]
    exact h
  | succ left ih =>
    intro t bs hle h hfew
    obtain ⟨-, hcount⟩ := count_spec line t.laststate 255 t.polls
    have hpolls : (Pulses.count line t.laststate 255 t.polls).2 ≤ t.polls + 255 := by omega
    unfold timings widths
    dsimp only
    generalize Pulses.count line t.laststate 255 t.polls = r at hpolls
    obtain ⟨counter, polls⟩ := r
    dsimp only at hpolls ⊢
    have hsame : Spells data₀ { t with laststate := line polls, polls := polls + 1 } bs := ⟨h.length, h.bytes, h.behind⟩
    by_cases hstuck : counter = 255
    · rw [if_pos hstuck, if_pos hstuck]
      refine ⟨?_, by dsimp only; omega⟩
      show Spells data₀ _ (bs ++ [])
      rw [List.append_nil]
      exact hsame
    · rw [if_neg hstuck, if_neg hstuck]
      have hi : maxTimings - (left + 1) + 1 = maxTimings - left := by omega
      unfold bits
      rw [hi]
      by_cases hbit : maxTimings - (left + 1) ≥ 4 ∧ (maxTimings - (left + 1)) % 2 = 0
      · rw [if_pos hbit, if_pos hbit]
        have hlen : bs.length < 48 := by
          have : maxTimings = 85 := rfl
          omega
        have hnext := ih (by omega) (hsame.store hlen (decide (counter > count.toNat)))
          (by rw [List.length_append, List.length_singleton]; omega)
        rw [List.append_assoc] at hnext
        refine ⟨hnext.1, hnext.2.trans ?_⟩
        show polls + 1 + 256 * left ≤ _
        omega
      · rw [if_neg hbit, if_neg hbit]
        have hnext := ih (by omega) hsame (by omega)
        refine ⟨hnext.1, hnext.2.trans ?_⟩
        show polls + 1 + 256 * left ≤ _
        omega

theorem byteAt_nil (m : ℕ) : byteAt [] m = 0 := by
  unfold byteAt
  rw [List.drop_nil, List.take_nil]
  rfl

/-- The bits that a transfer finds on the line. -/
def Driver.found (d : Driver) (line : ℕ → Level) : List Bool := bits d.count 0 (widths line 255 maxTimings .high 0)

theorem Driver.transfer_spells (d : Driver) (line : ℕ → Level) :
    Spells d.data (d.transfer line) (d.found line) ∧ (d.transfer line).polls ≤ 256 * maxTimings := by
  have hstart : Spells d.data ⟨Driver.clear d.data, 0, .high, 0⟩ [] := by
    refine ⟨rfl, fun m hm => ?_, fun m hm => ?_⟩
    · rw [byteAt_nil]
      exact if_pos hm
    · exact if_neg (by omega)
  have h := timings_spells d.count line maxTimings (Nat.le_refl _) hstart (Nat.zero_le _)
  rw [Nat.sub_self, List.nil_append, Nat.zero_add] at h
  exact h

/-- The fifth byte that some bits spell is the sum of the others. -/
def Summed (bs : List Bool) : Prop := byteAt bs 4 = byteAt bs 0 + byteAt bs 1 + byteAt bs 2 + byteAt bs 3

theorem Spells.checked_iff (h : Spells data₀ t bs) : Driver.Checked t.data ↔ Summed bs := by
  unfold Driver.Checked Summed
  rw [h.bytes 0 (by decide), h.bytes 1 (by decide), h.bytes 2 (by decide), h.bytes 3 (by decide), h.bytes 4 (by decide)]

theorem Driver.rollover_data (d : Driver) (now : ℕ) : (d.rollover now).data = d.data := by
  unfold Driver.rollover
  split <;> rfl

theorem Driver.rollover_count (d : Driver) (now : ℕ) : (d.rollover now).count = d.count := by
  unfold Driver.rollover
  split <;> rfl

theorem Driver.rollover_found (d : Driver) (now : ℕ) (line : ℕ → Level) : (d.rollover now).found line = d.found line := by
  unfold Driver.rollover
  split <;> rfl

theorem Driver.read_recent {d : Driver} {e : Transfer} (hr : d.Recent e.now) : d.read e = (true, d.rollover e.now) := by
  unfold Driver.read
  rw [if_pos hr]

theorem Driver.read_fresh {d : Driver} {e : Transfer} (hfresh : ¬ d.Recent e.now) :
    (d.read e).2 = ⟨(d.transfer e.line).data, d.count, millis e.later, false⟩ := by
  unfold Driver.read
  rw [if_neg hfresh]

/-- **`read`, on any line.** While the last reading is recent, it says yes and leaves the bytes as
they are. Otherwise it says yes exactly if the line holds 40 bits, before it stays for 255 polls at
one level, of which the last eight are the sum of the others; the five bytes are then what the bits
spell, also if it says no. It polls the line a bounded number of times, and writes nothing behind
the array. -/
theorem Driver.read_spec (d : Driver) (e : Transfer) :
    (d.Recent e.now → (d.read e).1 = true ∧ (d.read e).2.data = d.data) ∧
      (¬ d.Recent e.now →
        ((d.read e).1 = true ↔ 40 ≤ (d.found e.line).length ∧ Summed (d.found e.line)) ∧
        (∀ m < 5, (d.read e).2.data m = byteAt (d.found e.line) m) ∧
        ∀ m, 6 ≤ m → (d.read e).2.data m = d.data m) := by
  constructor
  · intro hrecent
    rw [Driver.read_recent hrecent]
    exact ⟨rfl, d.rollover_data e.now⟩
  · intro hfresh
    obtain ⟨hspells, -⟩ := d.transfer_spells e.line
    unfold Driver.read
    rw [if_neg hfresh]
    refine ⟨?_, hspells.bytes, hspells.behind⟩
    rw [← hspells.checked_iff, ← hspells.length]
    exact decide_eq_true_iff

/-! ## A sensor that sends -/

theorem bits_append (count : UInt8) (ns more : List ℕ) : ∀ i,
    bits count i (ns ++ more) = bits count i ns ++ bits count (i + ns.length) more := by
  induction ns with
  | nil => exact fun i => rfl
  | cons n ns ih =>
    intro i
    have hi : i + (ns.length + 1) = i + 1 + ns.length := by omega
    rw [List.cons_append, bits, bits, ih, List.length_cons, hi]
    split
    · rfl
    · rfl

/-- A pulse stands for a bit: the high level is long or short, and the levels are seen. -/
structure Pulse (count : UInt8) (bit : Bool) (p : ℕ × ℕ) : Prop where
  high : 2 ≤ p.1 ∧ p.1 < 257
  low : 2 ≤ p.2 ∧ p.2 < 257
  long : count.toNat + 2 < p.1 ↔ bit = true

/-- The levels of some pulses. -/
def levels (pulses : List (ℕ × ℕ)) : List (Level × ℕ) := pulses.flatMap fun p => [(.high, p.1), (.low, p.2)]

/-- **The sensor sends some bytes**: the line is left high, is answered with a low and a high
level, and after another low level the bits come as pulses. -/
def Sends (count : UInt8) (line : ℕ → Level) (bytes : List UInt8) : Prop :=
  ∃ n₀ n₁ n₂ n₃ pulses, n₀ < 255 ∧ (∀ n ∈ [n₁, n₂, n₃], 2 ≤ n ∧ n < 257) ∧
    List.Forall₂ (Pulse count) (bytes.flatMap toBits) pulses ∧
    Shows line 0 ((.high, n₀) :: (.low, n₁) :: (.high, n₂) :: (.low, n₃) :: levels pulses)

theorem levels_chain (pulses : List (ℕ × ℕ)) (n : ℕ) :
    ((Level.low, n) :: levels pulses).IsChain (fun a b => a.1 ≠ b.1) := by
  induction pulses generalizing n with
  | nil => exact List.IsChain.singleton _
  | cons p pulses ih =>
    have hne : Level.low ≠ Level.high := by decide
    refine List.isChain_cons_cons.2 ⟨hne, ?_⟩
    exact List.isChain_cons_cons.2 ⟨hne.symm, ih p.2⟩

theorem levels_length (pulses : List (ℕ × ℕ)) : (levels pulses).length = 2 * pulses.length := by
  induction pulses with
  | nil => rfl
  | cons p pulses ih =>
    show (levels pulses).length + 1 + 1 = 2 * (pulses.length + 1)
    omega

/-- The pulses are read as their bits. -/
theorem bits_levels {pulses : List (ℕ × ℕ)} (h : List.Forall₂ (Pulse count) bs pulses) : ∀ i, i ≥ 4 → i % 2 = 0 →
    bits count i ((levels pulses).map fun r => r.2 - 2) = bs := by
  induction h with
  | nil => exact fun _ _ _ => rfl
  | @cons bit p bs pulses hp _ ih =>
    intro i hi heven
    have hodd : ¬ (i + 1 ≥ 4 ∧ (i + 1) % 2 = 0) := by omega
    have hlong : decide (p.1 - 2 > count.toNat) = bit := by
      have := hp.long
      rw [Bool.eq_iff_iff, decide_eq_true_iff, ← this]
      omega
    have htail := ih (i + 1 + 1) (by omega) (by omega)
    show bits count i ((p.1 - 2) :: (p.2 - 2) :: (levels pulses).map fun r => r.2 - 2) = _
    rw [bits, if_pos ⟨hi, heven⟩, bits, if_neg hodd, hlong, htail]

theorem levels_bounds {pulses : List (ℕ × ℕ)} (h : List.Forall₂ (Pulse count) bs pulses) :
    ∀ r ∈ levels pulses, 2 ≤ r.2 ∧ r.2 < 255 + 2 := by
  induction h with
  | nil => exact fun r hr => absurd hr List.not_mem_nil
  | cons hp _ ih =>
    intro r hr
    rcases List.mem_cons.1 hr with rfl | hr
    · exact hp.high
    · rcases List.mem_cons.1 hr with rfl | hr
      · exact hp.low
      · exact ih r hr

/-- **What is sent is found**, and perhaps one bit more. -/
theorem found_of_sends {d : Driver} {bytes : List UInt8} (h : Sends d.count line bytes) (hfive : bytes.length = 5) :
    ∃ more, d.found line = bytes.flatMap toBits ++ more := by
  obtain ⟨n₀, n₁, n₂, n₃, pulses, hn₀, hns, hpulses, hshows⟩ := h
  have hlen : pulses.length = 40 := by
    rw [← hpulses.length_eq, length_flatMap_toBits, hfive]
  -- the reader counts all levels but the last
  have hchain : ((Level.high, n₀) :: (.low, n₁) :: (.high, n₂) :: (.low, n₃) :: levels pulses).IsChain
      (fun a b => a.1 ≠ b.1) := by
    have hne : Level.low ≠ Level.high := by decide
    refine List.isChain_cons_cons.2 ⟨hne.symm, List.isChain_cons_cons.2 ⟨hne, ?_⟩⟩
    exact List.isChain_cons_cons.2 ⟨hne.symm, levels_chain pulses n₃⟩
  have hbounds : ∀ r ∈ (Level.low, n₁) :: (.high, n₂) :: (.low, n₃) :: levels pulses, 2 ≤ r.2 ∧ r.2 < 255 + 2 := by
    intro r hr
    rcases List.mem_cons.1 hr with rfl | hr
    · exact hns n₁ (by simp)
    rcases List.mem_cons.1 hr with rfl | hr
    · exact hns n₂ (by simp)
    rcases List.mem_cons.1 hr with rfl | hr
    · exact hns n₃ (by simp)
    · exact levels_bounds hpulses r hr
  have hread := widths_of_shows hshows hchain hn₀ hbounds
  have hsteps : ((Level.low, n₁) :: (.high, n₂) :: (.low, n₃) :: levels pulses).length = 83 := by
    simp only [List.length_cons, levels_length, hlen]
  have hfirst : (widths line 255 maxTimings .high 0).take 83 = widths line 255 83 .high 0 :=
    widths_take (by decide) Level.high 0
  rw [hsteps] at hread
  rw [hread] at hfirst
  generalize hall : n₀ :: ((Level.low, n₁) :: (.high, n₂) :: (.low, n₃) :: levels pulses).map (fun r => r.2 - 2) =
    ns at hfirst
  have hbits : bits d.count 0 ns = bytes.flatMap toBits := by
    have hskip : ∀ i, i < 4 → ¬ (i ≥ 4 ∧ i % 2 = 0) := fun i hi => by omega
    have hrest := bits_levels hpulses 4 (by decide) (by decide)
    rw [← hall]
    simp only [List.map_cons, bits, if_neg (hskip 1 (by decide)), if_neg (hskip 3 (by decide)), Nat.zero_add]
    exact hrest
  have hns : ns.length = 84 := by
    rw [← hall, List.length_cons, List.length_map, hsteps]
  -- the last level would be no bit
  have hlast : bits d.count 0 (ns.take 83) = bytes.flatMap toBits := by
    have hsplit := bits_append d.count (ns.take 83) (ns.drop 83) 0
    have hone : (ns.drop 83).length = 1 := by rw [List.length_drop, hns]
    obtain ⟨n, hn⟩ := List.length_eq_one_iff.1 hone
    have hpos : 0 + (ns.take 83).length = 83 := by
      rw [List.length_take, hns]
      rfl
    have hnone : bits d.count 83 [n] = [] := by
      rw [bits, if_neg (by decide)]
      rfl
    rw [List.take_append_drop, hn, hpos, hnone, List.append_nil, hbits] at hsplit
    exact hsplit.symm
  refine ⟨bits d.count 83 ((widths line 255 maxTimings .high 0).drop 83), ?_⟩
  have hsplit := bits_append d.count (ns.take 83) ((widths line 255 maxTimings .high 0).drop 83) 0
  have hpos : 0 + (ns.take 83).length = 83 := by
    rw [List.length_take, hns]
    rfl
  rw [hlast, hpos, ← hfirst, List.take_append_drop] at hsplit
  exact hsplit

/-- A transfer of five bytes puts them into the array, and succeeds exactly if they add up. -/
theorem Driver.read_of_sends {d : Driver} {e : Transfer} (hfresh : ¬ d.Recent e.now) {b₀ b₁ b₂ b₃ b₄ : UInt8}
    (h : Sends d.count e.line [b₀, b₁, b₂, b₃, b₄]) :
    (∀ m (hm : m < 5), (d.read e).2.data m = [b₀, b₁, b₂, b₃, b₄][m]) ∧
      ((d.read e).1 = true ↔ b₄ = b₀ + b₁ + b₂ + b₃) := by
  obtain ⟨more, hmore⟩ := found_of_sends h rfl
  obtain ⟨hok, hdata, -⟩ := (d.read_spec e).2 hfresh
  have hlen : ([b₀, b₁, b₂, b₃, b₄].flatMap toBits).length = 40 := length_flatMap_toBits _
  have hbytes : ∀ m (hm : m < 5), byteAt (d.found e.line) m = [b₀, b₁, b₂, b₃, b₄][m] := by
    intro m hm
    rw [hmore, byteAt_append _ _ (by omega)]
    exact byteAt_flatMap [b₀, b₁, b₂, b₃, b₄] hm
  refine ⟨fun m hm => (hdata m hm).trans (hbytes m hm), hok.trans ?_⟩
  unfold Summed
  rw [hbytes 0 (by decide), hbytes 1 (by decide), hbytes 2 (by decide), hbytes 3 (by decide), hbytes 4 (by decide)]
  refine and_iff_right ?_
  rw [hmore, List.length_append]
  omega

/-- **After a transfer the reading is recent** for less than two seconds, also over a rollover of
the clock. -/
theorem Driver.recent_after {d : Driver} {later now : ℕ} (hfirst : d.firstreading = false)
    (hlast : d.lastreadtime = millis later) (hle : later ≤ now) (hsoon : now < later + 2000) : d.Recent now := by
  have hnow : (millis now).toNat = now % 2 ^ 32 := UInt32.toNat_ofNat'
  have hthen : (millis later).toNat = later % 2 ^ 32 := UInt32.toNat_ofNat'
  refine ⟨hfirst, ?_⟩
  unfold rollover
  rw [UInt32.lt_iff_toNat_lt]
  split
  · -- the clock shows less than what has passed since the transfer
    rename_i hroll
    rw [hlast, UInt32.lt_iff_toNat_lt, hnow, hthen] at hroll
    have hzero : millis now - 0 = millis now := UInt32.sub_zero _
    show (millis now - 0).toNat < 2000
    rw [hzero, hnow]
    omega
  · rw [hlast]
    have hsub : (millis now - millis later).toNat = (now - later) % 2 ^ 32 := Clock.sub_toNat hle
    rw [hsub]
    show (now - later) % 2 ^ 32 < 2000
    omega

theorem Driver.readHumidity_eq (d : Driver) (e : Transfer) :
    d.readHumidity e = (if (d.read e).1 = true then .value (humidity (d.read e).2.data) else .nan, (d.read e).2) := rfl

theorem Driver.readTemperature_eq (d : Driver) (e : Transfer) :
    d.readTemperature e =
      (if (d.read e).1 = true then .value (temperature (d.read e).2.data) else .nan, (d.read e).2) := rfl

/-- A sign and a number below 128 in a byte. -/
def signed (negative : Bool) (n : ℕ) : UInt8 := UInt8.ofNat (n + if negative then 128 else 0)

theorem signed_spec (negative : Bool) : ∀ n < 128,
    decide (signed negative n &&& 0x80 ≠ 0) = negative ∧ (signed negative n &&& 0x7F).toNat = n := by
  cases negative with
  | false => decide +kernel
  | true => decide +kernel

/-- What the sensor sends: the humidity `h`, the temperature `t`, and the sum. -/
def frame (h : ℕ) (t : Tenths) : List UInt8 :=
  let b₀ := UInt8.ofNat (h / 256)
  let b₁ := UInt8.ofNat h
  let b₂ := signed t.negative (t.tenths / 256)
  let b₃ := UInt8.ofNat t.tenths
  [b₀, b₁, b₂, b₃, b₀ + b₁ + b₂ + b₃]

/-- **A sensor that sends is read exactly**, whatever the lengths of its levels are within the
tolerance: five bytes are taken if and only if the last is their sum; and the humidity and the
temperature that are sent are the ones that the two functions return, the second of them from the
same transfer. -/
theorem reading_exact (d : Driver) (e e' : Transfer) (hfresh : ¬ d.Recent e.now) (hle : e.later ≤ e'.now)
    (hsoon : e'.now < e.later + 2000) :
    (∀ b₀ b₁ b₂ b₃ b₄, Sends d.count e.line [b₀, b₁, b₂, b₃, b₄] →
      ((d.readHumidity e).1 = .nan ↔ b₄ ≠ b₀ + b₁ + b₂ + b₃)) ∧
    ∀ h t, h < 65536 → t.tenths < 32768 → Sends d.count e.line (frame h t) →
      (d.readHumidity e).1 = .value ⟨false, h⟩ ∧ ((d.readHumidity e).2.readTemperature e').1 = .value t := by
  constructor
  · intro b₀ b₁ b₂ b₃ b₄ hsends
    obtain ⟨-, hok⟩ := Driver.read_of_sends hfresh hsends
    show _ ↔ ¬ _
    rw [← hok]
    unfold Driver.readHumidity
    generalize d.read e = r
    obtain ⟨ok, d'⟩ := r
    cases ok with
    | false => exact iff_of_true rfl Bool.false_ne_true
    | true => exact iff_of_false (fun hn => by cases hn) fun hn => hn rfl
  · intro h t hh ht hsends
    have hsmall : t.tenths / 256 < 128 := Nat.div_lt_of_lt_mul ht
    have hhigh : h / 256 % 2 ^ 8 * 256 + h % 2 ^ 8 = h := by omega
    have hlow : t.tenths / 256 * 256 + t.tenths % 2 ^ 8 = t.tenths := Nat.div_add_mod' _ _
    obtain ⟨hdata, hok⟩ := Driver.read_of_sends hfresh hsends
    have hok := hok.2 rfl
    have h0 : (d.read e).2.data 0 = UInt8.ofNat (h / 256) := hdata 0 (by decide)
    have h1 : (d.read e).2.data 1 = UInt8.ofNat h := hdata 1 (by decide)
    have h2 : (d.read e).2.data 2 = signed t.negative (t.tenths / 256) := hdata 2 (by decide)
    have h3 : (d.read e).2.data 3 = UInt8.ofNat t.tenths := hdata 3 (by decide)
    have hhum : (d.readHumidity e).1 = .value (Driver.humidity (d.read e).2.data) := by
      rw [Driver.readHumidity_eq, if_pos hok]
    have hstate : (d.readHumidity e).2 = (d.read e).2 := rfl
    have hrecent : (d.read e).2.Recent e'.now := by
      rw [Driver.read_fresh hfresh]
      exact Driver.recent_after rfl rfl hle hsoon
    obtain ⟨hok', hkept⟩ := ((d.read e).2.read_spec e').1 hrecent
    have htemp : ((d.read e).2.readTemperature e').1 = .value (Driver.temperature (d.read e).2.data) := by
      rw [Driver.readTemperature_eq, if_pos hok', hkept]
    obtain ⟨hneg, hnum⟩ := signed_spec t.negative (t.tenths / 256) hsmall
    rw [hhum, hstate, htemp]
    unfold Driver.humidity Driver.temperature
    rw [h0, h1, h2, h3, hneg, hnum, UInt8.toNat_ofNat', UInt8.toNat_ofNat', UInt8.toNat_ofNat']
    rw [hhigh, hlow]
    exact ⟨rfl, rfl⟩

/-- A pulse for a bit: the high level takes 14 polls or 5. -/
def pulse (bit : Bool) : ℕ × ℕ := (if bit then 14 else 5, 9)

/-- The sensor sends 65.2 % and -10.1 degrees. -/
def sent : Transfer where
  now := 2000
  later := 2001
  line := polled .high ((.high, 8) :: (.low, 20) :: (.high, 20) :: (.low, 9) ::
    levels (((frame 652 ⟨true, 101⟩).flatMap toBits).map pulse))

theorem pulse_spec (bs : List Bool) : List.Forall₂ (Pulse 6) bs (bs.map pulse) := by
  refine List.forall₂_map_right_iff.2 (List.forall₂_same.2 fun bit _ => ?_)
  cases bit with
  | false => exact ⟨by decide, by decide, by decide⟩
  | true => exact ⟨by decide, by decide, by decide⟩

/-- **A reading**: the second function is called 300 ms after the transfer. -/
theorem reading_exact_sent :
    (((Driver.new (fun _ => 0) 0).begin.readHumidity sent).1 = .value ⟨false, 652⟩) ∧
      (((Driver.new (fun _ => 0) 0).begin.readHumidity sent).2.readTemperature ⟨2301, 2301, fun _ => .high⟩).1 =
        .value ⟨true, 101⟩ := by
  refine (reading_exact (Driver.new (fun _ => 0) 0).begin sent ⟨2301, 2301, fun _ => .high⟩ (by decide) (by decide)
    (by decide)).2 652 ⟨true, 101⟩ (by decide) (by decide) ?_
  refine ⟨8, 20, 20, 9, _, by decide, by decide, pulse_spec _, ?_⟩
  exact shows_polled .high _ fun k => by rw [Nat.zero_add]; rfl

end ServerRoom.DHT22

/-! ## Whole runs -/

namespace ServerRoom.Thermometer

open DHT22 Pulses

variable {p : Thermometer} {e : Visit} {lines : List (ℕ → Level)} {memory data : ℕ → UInt8} {d : Driver}

/-- A call that does not read leaves what is shown and the bytes. -/
theorem loop_rests (hrest : ¬ p.Reads e.now) : ∃ t, p.loop e = ⟨{ p.handler with timer := t }, p.driver⟩ := by
  have hdriver : (p.loop e).driver = p.driver := if_neg hrest
  by_cases hdue : p.handler.Due e.now
  · have hf : p.handler.Failed := by
      by_contra hsound
      exact hrest ⟨hdue, Bool.eq_false_iff.2 fun hn => hsound (.inl hn), Bool.eq_false_iff.2 fun hn => hsound (.inr hn)⟩
    obtain ⟨t, ht⟩ := hf.loop (p.measurement e)
    exact ⟨t, congr (congrArg Thermometer.mk ht) hdriver⟩
  · have hw : ((p.handler.loop (p.measurement e)).1) = p.handler := by
      rw [TemperatureHumidityHandler.loop_waits (c := p.measurement e) hdue]
    exact ⟨p.handler.timer, congr (congrArg Thermometer.mk hw) hdriver⟩

theorem Reads.sound (h : p.Reads e.now) : ¬ p.handler.Failed := by
  rintro (hn | hn)
  · exact Bool.false_ne_true (h.2.1.symm.trans hn)
  · exact Bool.false_ne_true (h.2.2.symm.trans hn)

theorem Reads.loop_handler (h : p.Reads e.now) :
    (p.loop e).handler = ⟨(p.measurement e).temperature, (p.measurement e).humidity, millis e.later,
      ⟨(p.measurement e).humidity, (p.measurement e).temperature⟩⟩ := by
  show (p.handler.loop (p.measurement e)).1 = _
  rw [TemperatureHumidityHandler.loop_reads (c := p.measurement e) h.1 h.sound]
  rfl

/-- The bits on a line, with the limit of six that `_count` has. -/
def bitsOf (line : ℕ → Level) : List Bool := bits 6 0 (widths line 255 maxTimings .high 0)

/-- One of the lines holds 40 bits that pass the check, and the bytes are theirs. -/
def Heard (lines : List (ℕ → Level)) (data : ℕ → UInt8) : Prop :=
  ∃ line ∈ lines, 40 ≤ (bitsOf line).length ∧ Summed (bitsOf line) ∧ ∀ m < 5, data m = byteAt (bitsOf line) m

/-- The driver has its limit of six, and the memory behind the array is not touched. -/
structure Kept (memory : ℕ → UInt8) (d : Driver) : Prop where
  count : d.count = 6
  behind : ∀ m, 6 ≤ m → d.data m = memory m

/-- Unless nothing was read yet, the bytes were heard. -/
def Vouched (lines : List (ℕ → Level)) (d : Driver) : Prop := d.firstreading = false → Heard lines d.data

theorem Heard.mono {more : List (ℕ → Level)} (h : Heard lines data) (hsub : lines ⊆ more) : Heard more data := by
  obtain ⟨line, hmem, hspec⟩ := h
  exact ⟨line, hsub hmem, hspec⟩

theorem Kept.read (h : Kept memory d) (e : Transfer) : Kept memory (d.read e).2 := by
  by_cases hr : d.Recent e.now
  · rw [Driver.read_recent hr]
    refine ⟨?_, fun m hm => ?_⟩
    · rw [d.rollover_count, h.count]
    · rw [d.rollover_data, h.behind m hm]
  · have hbehind := ((d.read_spec e).2 hr).2.2
    refine ⟨?_, fun m hm => (hbehind m hm).trans (h.behind m hm)⟩
    rw [Driver.read_fresh hr]
    exact h.count

/-- **A read that says yes** has bytes that were heard, now or before. -/
theorem Vouched.read (h : Vouched lines d) (hcount : d.count = 6) {e : Transfer} (hyes : (d.read e).1 = true) :
    Heard (lines ++ [e.line]) (d.read e).2.data := by
  by_cases hr : d.Recent e.now
  · rw [((d.read_spec e).1 hr).2]
    exact (h hr.1).mono (List.subset_append_left _ _)
  · obtain ⟨hok, hdata, -⟩ := (d.read_spec e).2 hr
    obtain ⟨hlen, hsum⟩ := hok.1 hyes
    unfold Driver.found at hlen hsum hdata
    rw [hcount] at hlen hsum hdata
    exact ⟨e.line, List.mem_append_right _ List.mem_cons_self, hlen, hsum, hdata⟩

/-- The lines that some calls meet. -/
def linesOf (visits : List Visit) : List (ℕ → Level) := visits.flatMap fun e => [e.humidity.line, e.temperature.line]

/-- After some calls that met the lines: every number that is shown as the humidity was heard, and
so were the bytes, unless a read has failed. -/
structure Checked (memory : ℕ → UInt8) (lines : List (ℕ → Level)) (p : Thermometer) : Prop where
  kept : Kept memory p.driver
  vouched : p.handler.Failed ∨ Vouched lines p.driver
  humidity : ∀ v, p.handler.humidity = .value v → v = 0 ∨ ∃ data, Heard lines data ∧ v = Driver.humidity data

theorem Checked.loop (h : Checked memory lines p) (e : Visit) :
    Checked memory (lines ++ [e.humidity.line, e.temperature.line]) (p.loop e) := by
  have hsub : lines ⊆ lines ++ [e.humidity.line, e.temperature.line] := List.subset_append_left _ _
  have hsplit : lines ++ [e.humidity.line, e.temperature.line] = (lines ++ [e.humidity.line]) ++ [e.temperature.line] := by
    rw [List.append_assoc]
    rfl
  have hsub' : lines ++ [e.humidity.line] ⊆ lines ++ [e.humidity.line, e.temperature.line] := by
    rw [hsplit]
    exact List.subset_append_left _ _
  by_cases hreads : p.Reads e.now
  · have hsound : ¬ p.handler.Failed := hreads.sound
    have hvouched := h.vouched.resolve_left hsound
    have hdriver : (p.loop e).driver = ((p.driver.read e.humidity).2.read e.temperature).2 := if_pos hreads
    have hkept := (h.kept.read e.humidity).read e.temperature
    have hhum : (p.measurement e).humidity = (p.driver.readHumidity e.humidity).1 := rfl
    have htemp : (p.measurement e).temperature = ((p.driver.read e.humidity).2.readTemperature e.temperature).1 := rfl
    rw [Driver.readHumidity_eq] at hhum
    rw [Driver.readTemperature_eq] at htemp
    refine ⟨by rw [hdriver]; exact hkept, ?_, fun v hv => ?_⟩
    · rw [hdriver, hreads.loop_handler]
      by_cases hyes : (p.driver.read e.humidity).1 = true
      · by_cases hyes' : ((p.driver.read e.humidity).2.read e.temperature).1 = true
        · refine .inr fun _ => ?_
          have hfirst : Vouched (lines ++ [e.humidity.line]) (p.driver.read e.humidity).2 := fun _ =>
            hvouched.read h.kept.count hyes
          rw [hsplit]
          exact hfirst.read (h.kept.read e.humidity).count hyes'
        · refine .inl (.inr ?_)
          rw [if_neg hyes'] at htemp
          show (p.measurement e).temperature.isnan = true
          rw [htemp]
          rfl
      · refine .inl (.inl ?_)
        rw [if_neg hyes] at hhum
        show (p.measurement e).humidity.isnan = true
        rw [hhum]
        rfl
    · rw [hreads.loop_handler] at hv
      have hv : (p.measurement e).humidity = .value v := hv
      rw [hhum] at hv
      by_cases hyes : (p.driver.read e.humidity).1 = true
      · rw [if_pos hyes] at hv
        cases hv
        exact .inr ⟨_, (hvouched.read h.kept.count hyes).mono hsub', rfl⟩
      · rw [if_neg hyes] at hv
        cases hv
  · obtain ⟨t, ht⟩ := loop_rests hreads
    rw [ht]
    refine ⟨h.kept, ?_, fun v hv => ?_⟩
    · rcases h.vouched with hf | hv
      · exact .inl hf
      · exact .inr fun hfirst => (hv hfirst).mono hsub
    · rcases h.humidity v hv with hz | ⟨data, hdata, hval⟩
      · exact .inl hz
      · exact .inr ⟨data, hdata.mono hsub, hval⟩

/-- **What is shown as the humidity was heard**, after any calls, with any lines and at any times: it
is the 0 from before the first reading, or comes from five bytes that were sent on one of the lines
and passed the check. The memory behind the array is as it was, and the next transfer, which runs
without interrupts, will poll its line no more than 21760 times. -/
theorem humidity_heard (memory : ℕ → UInt8) (lastreadtime : UInt32) (start : ℕ) (visits : List Visit) :
    let p := visits.foldl Thermometer.loop
      ⟨TemperatureHumidityHandler.new.setup start, (Driver.new memory lastreadtime).begin⟩
    (∀ v, p.handler.getCurrentHumidity = .value v →
      v = 0 ∨ ∃ data, Heard (linesOf visits) data ∧ v = Driver.humidity data) ∧
    (∀ m, 6 ≤ m → p.driver.data m = memory m) ∧ ∀ line, (p.driver.transfer line).polls ≤ 21760 := by
  intro p
  have h : Checked memory (linesOf visits) p := by
    induction visits using List.reverseRecOn with
    | nil =>
      refine ⟨⟨rfl, fun _ _ => rfl⟩, .inr (fun hn => by cases hn), fun v hv => .inl ?_⟩
      cases hv
      rfl
    | append_singleton visits e ih =>
      have hloop := ih.loop e
      have hlines : linesOf (visits ++ [e]) = linesOf visits ++ [e.humidity.line, e.temperature.line] := by
        unfold linesOf
        rw [List.flatMap_append, List.flatMap_singleton]
      rw [hlines]
      show Checked memory _ ((visits ++ [e]).foldl Thermometer.loop _)
      rw [List.foldl_append]
      exact hloop
  exact ⟨h.humidity, h.kept.behind, fun line => (p.driver.transfer_spells line).2⟩

/-! ## A sensor that fails -/

/-- Control goes from the first read to the second in less than two seconds, and if the first finds
the last reading recent, so does the second. -/
def Close (p : Thermometer) (e : Visit) : Prop :=
  p.Reads e.now → e.humidity.later ≤ e.temperature.now ∧ e.temperature.now < e.humidity.later + 2000 ∧
    (p.driver.Recent e.humidity.now → (p.driver.rollover e.humidity.now).Recent e.temperature.now)

instance (p : Thermometer) (e : Visit) : Decidable (p.Close e) := inferInstanceAs (Decidable (_ → _))

/-- The bytes were rejected: they are what a transfer has left that did not find 40 bits, or not
their sum. -/
def Rejected (d : Driver) : Prop :=
  ∃ line, (∀ m < 5, d.data m = byteAt (d.found line) m) ∧ ¬ (40 ≤ (d.found line).length ∧ Summed (d.found line))

/-- What the getters show: what the fields of the sensor have, the temperature a number, and beside
a failed humidity that of the rejected bytes. -/
structure Shown (p : Thermometer) : Prop where
  humidity : p.handler.humidity = p.handler.dht.humidity
  temperature : p.handler.temperature = p.handler.dht.temperatureC
  number : p.handler.dht.temperatureC.isnan = false
  stale : p.handler.dht.humidity.isnan = true →
    p.handler.temperature = .value (Driver.temperature p.driver.data) ∧ Rejected p.driver

theorem rejected_of_fresh {d : Driver} {e : Transfer} (hfresh : ¬ d.Recent e.now) (hno : (d.read e).1 = false) :
    Rejected (d.read e).2 := by
  obtain ⟨hok, hdata, -⟩ := (d.read_spec e).2 hfresh
  have hcount : (d.read e).2.count = d.count := by rw [Driver.read_fresh hfresh]
  have hfound : (d.read e).2.found e.line = d.found e.line := by
    unfold Driver.found
    rw [hcount]
  refine ⟨e.line, ?_, ?_⟩
  · rw [hfound]
    exact hdata
  · rw [hfound, ← hok, hno]
    exact Bool.false_ne_true

/-- **The two reads of a call.** The second uses the transfer of the first, also if it failed. -/
theorem measured (hreads : p.Reads e.now) (hclose : p.Close e) :
    (p.measurement e).temperature = .value (Driver.temperature (p.loop e).driver.data) ∧
      ((p.measurement e).humidity.isnan = true → Rejected (p.loop e).driver) := by
  obtain ⟨hle, hsoon, hold⟩ := hclose hreads
  have hdriver : (p.loop e).driver = ((p.driver.read e.humidity).2.read e.temperature).2 := if_pos hreads
  have hagain : (p.driver.read e.humidity).2.Recent e.temperature.now := by
    by_cases hr : p.driver.Recent e.humidity.now
    · rw [Driver.read_recent hr]
      exact hold hr
    · rw [Driver.read_fresh hr]
      exact Driver.recent_after rfl rfl hle hsoon
  have hsecond := Driver.read_recent hagain
  have htemp : (p.measurement e).temperature = ((p.driver.read e.humidity).2.readTemperature e.temperature).1 := rfl
  have hhum : (p.measurement e).humidity = (p.driver.readHumidity e.humidity).1 := rfl
  rw [hdriver, hsecond, htemp, hhum, Driver.readTemperature_eq, Driver.readHumidity_eq, hsecond]
  refine ⟨rfl, fun hn => ?_⟩
  have hno : (p.driver.read e.humidity).1 = false := by
    rw [Bool.eq_false_iff]
    intro hyes
    rw [if_pos hyes] at hn
    cases hn
  have hfresh : ¬ p.driver.Recent e.humidity.now := fun hr =>
    Bool.false_ne_true (hno.symm.trans ((p.driver.read_spec e.humidity).1 hr).1)
  obtain ⟨line, hdata, hrej⟩ := rejected_of_fresh hfresh hno
  refine ⟨line, ?_, ?_⟩
  · rw [Driver.rollover_found]
    intro m hm
    rw [Driver.rollover_data]
    exact hdata m hm
  · rw [Driver.rollover_found]
    exact hrej

theorem Shown.loop (h : p.Shown) (hclose : p.Close e) : (p.loop e).Shown := by
  by_cases hreads : p.Reads e.now
  · have hhandler := hreads.loop_handler
    obtain ⟨htemp, hrej⟩ := measured hreads hclose
    constructor
    · rw [hhandler]
    · rw [hhandler]
    · rw [hhandler, htemp]
      rfl
    · rw [hhandler]
      exact fun hn => ⟨htemp, hrej hn⟩
  · obtain ⟨t, ht⟩ := loop_rests hreads
    rw [ht]
    exact ⟨h.humidity, h.temperature, h.number, h.stale⟩

theorem shown_reach (h : thermometer.ReachWhen Close p) : p.Shown := by
  refine h.induct ?_ ?_
  · rintro p ⟨memory, lastreadtime, start, rfl⟩
    exact ⟨rfl, rfl, rfl, fun hn => by cases hn⟩
  · intro p e p' _ hs hclose hstep
    obtain rfl := Option.some.inj hstep
    exact hs.loop hclose

/-- After a failure nothing that is shown changes, whatever the line does. -/
theorem failed_run {visits : List Visit} : ∀ {p p' : Thermometer}, p.handler.dht.humidity.isnan = true →
    thermometer.run p visits = some p' → ∃ t, p' = ⟨{ p.handler with timer := t }, p.driver⟩ := by
  induction visits with
  | nil =>
    intro p p' _ hrun
    obtain rfl := Option.some.inj hrun
    exact ⟨p.handler.timer, rfl⟩
  | cons e visits ih =>
    intro p p' hn hrun
    have hrest : ¬ p.Reads e.now := fun hr => Bool.false_ne_true (hr.2.1.symm.trans hn)
    obtain ⟨t, ht⟩ := loop_rests hrest
    have hrun : thermometer.run (p.loop e) visits = some p' := hrun
    rw [ht] at hrun
    exact ih (p := ⟨{ p.handler with timer := t }, p.driver⟩) hn hrun

/-- **The temperature is never NaN.** A transfer that fails shows in the humidity only: the second
read finds the transfer recent and takes it for correct, so that the temperature is that of the
rejected bytes. From then on both are shown for ever, whatever the sensor sends. -/
theorem temperature_never_nan (h : thermometer.ReachWhen Close p) :
    p.handler.getCurrentTemperature.isnan = false ∧
      (p.handler.getCurrentHumidity.isnan = true →
        Rejected p.driver ∧ p.handler.getCurrentTemperature = .value (Driver.temperature p.driver.data) ∧
        ∀ visits p', thermometer.run p visits = some p' →
          p'.handler.getCurrentHumidity = p.handler.getCurrentHumidity ∧
          p'.handler.getCurrentTemperature = p.handler.getCurrentTemperature) := by
  have hs := shown_reach h
  refine ⟨?_, fun hn => ?_⟩
  · show p.handler.temperature.isnan = false
    rw [hs.temperature]
    exact hs.number
  · have hn : p.handler.dht.humidity.isnan = true := by
      rw [← hs.humidity]
      exact hn
    obtain ⟨htemp, hrej⟩ := hs.stale hn
    refine ⟨hrej, htemp, fun visits p' hrun => ?_⟩
    obtain ⟨t, rfl⟩ := failed_run hn hrun
    exact ⟨rfl, rfl⟩

/-- A sensor whose line is dead. -/
def deadLine : Thermometer :=
  (⟨TemperatureHumidityHandler.new.setup 0, (Driver.new (fun _ => 0) 0).begin⟩ : Thermometer).loop
    ⟨3000, 3000, ⟨3000, 3000, fun _ => .high⟩, ⟨3300, 3300, fun _ => .high⟩⟩

/-- **A dead sensor** shows 0 degrees. -/
theorem temperature_never_nan_deadLine :
    thermometer.ReachWhen Close deadLine ∧ deadLine.handler.getCurrentHumidity = .nan ∧
      deadLine.handler.getCurrentTemperature = .value ⟨false, 0⟩ ∧
      ∀ visits p', thermometer.run deadLine visits = some p' →
        p'.handler.getCurrentTemperature = deadLine.handler.getCurrentTemperature := by
  have hreach : thermometer.ReachWhen Close deadLine :=
    .step _ (.init ⟨fun _ => 0, 0, 0, rfl⟩) (by decide +kernel) rfl
  have hnan : deadLine.handler.getCurrentHumidity = .nan := by decide +kernel
  refine ⟨hreach, hnan, by decide +kernel, fun visits p' hrun => ?_⟩
  exact (((temperature_never_nan hreach).2 (by rw [hnan]; rfl)).2.2 visits p' hrun).2

end ServerRoom.Thermometer
