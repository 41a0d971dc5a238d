import Mathlib.Algebra.GroupWithZero.Nat
import ServerRoom.Spec.Temperature

/-!
# Sensor failures

`loop` checks the fields of the sensor before it reads it, so it sees a failure one call too
late: the NaN has been copied to where the getters look, and as it is still in the field, the
sensor is never read again (`failed_loop`, `failed_stays`). `monitored_iff`: in a run the temperature is
monitored as it should be exactly when no read fails.
-/

namespace ServerRoom.TemperatureHumidityHandler

variable {V : Type} {h : TemperatureHumidityHandler V} {c : Measurement V}

/-- What a call of `loop` is to do: the getters return what was read, and keep what they return
when the read fails. -/
structure Monitors (h : TemperatureHumidityHandler V) (c : Measurement V) : Prop where
  reads : h.Due c.now → c.Succeeds →
    (h.loop c).1.getCurrentHumidity = c.humidity ∧ (h.loop c).1.getCurrentTemperature = c.temperature
  humidity : c.humidity.isnan = true → (h.loop c).1.getCurrentHumidity = h.getCurrentHumidity
  temperature : c.temperature.isnan = true → (h.loop c).1.getCurrentTemperature = h.getCurrentTemperature

/-- The last read failed. -/
def Failed (h : TemperatureHumidityHandler V) : Prop :=
  h.dht.humidity.isnan = true ∨ h.dht.temperatureC.isnan = true

/-- No read has failed. -/
structure Sound (h : TemperatureHumidityHandler V) : Prop where
  dht : ¬ h.Failed
  humidity : h.humidity.isnan = false
  temperature : h.temperature.isnan = false

/-! ## A call -/

theorem loop_waits (hd : ¬ h.Due c.now) : h.loop c = (h, none) := if_neg hd

theorem loop_reports (hd : h.Due c.now) (hf : h.Failed) :
    h.loop c = ({ h with timer := millis c.later }, some "DHT sensor read failure!") := by
  have hcheck : (h.dht.humidity.isnan || h.dht.temperatureC.isnan) = true := Bool.or_eq_true_iff.2 hf
  unfold loop
  rw [if_pos hd]
  exact if_pos hcheck

theorem loop_reads (hd : h.Due c.now) (hf : ¬ h.Failed) :
    h.loop c = (⟨c.temperature, c.humidity, millis c.later, ⟨c.humidity, c.temperature⟩⟩, none) := by
  have hcheck : ¬ (h.dht.humidity.isnan || h.dht.temperatureC.isnan) = true := fun hc => hf (Bool.or_eq_true_iff.1 hc)
  unfold loop
  rw [if_pos hd]
  exact if_neg hcheck

/-- **A sound handler monitors a call** exactly if its reads succeed. -/
theorem Sound.monitors_iff (hs : h.Sound) : h.Monitors c ↔ (h.Due c.now → c.Succeeds) := by
  by_cases hd : h.Due c.now
  · have hl := loop_reads hd hs.dht
    constructor
    · intro hm _
      -- a NaN would have taken the place of a value
      refine ⟨Bool.eq_false_iff.2 fun hn => ?_, Bool.eq_false_iff.2 fun hn => ?_⟩
      · have hkept := hm.humidity hn
        rw [hl] at hkept
        have hsame : c.humidity = h.humidity := hkept
        rw [hsame, hs.humidity] at hn
        cases hn
      · have hkept := hm.temperature hn
        rw [hl] at hkept
        have hsame : c.temperature = h.temperature := hkept
        rw [hsame, hs.temperature] at hn
        cases hn
    · intro hok
      obtain ⟨hhum, htemp⟩ := hok hd
      refine ⟨fun _ _ => ?_, fun hn => ?_, fun hn => ?_⟩
      · rw [hl]
        exact ⟨rfl, rfl⟩
      · rw [hhum] at hn
        cases hn
      · rw [htemp] at hn
        cases hn
  · refine iff_of_true ⟨fun hdue => absurd hdue hd, fun _ => ?_, fun _ => ?_⟩ fun hdue => absurd hdue hd
    · rw [loop_waits hd]
    · rw [loop_waits hd]

theorem Sound.loop (hs : h.Sound) (hok : h.Due c.now → c.Succeeds) : (h.loop c).1.Sound := by
  by_cases hd : h.Due c.now
  · obtain ⟨hhum, htemp⟩ := hok hd
    rw [loop_reads hd hs.dht]
    refine ⟨?_, hhum, htemp⟩
    rintro (hn | hn)
    · rw [hhum] at hn
      cases hn
    · rw [htemp] at hn
      cases hn
  · rw [loop_waits hd]
    exact hs

/-- A read that fails leaves its NaN. -/
theorem failed_loop (hd : h.Due c.now) (hf : ¬ h.Failed) (hn : ¬ c.Succeeds) : (h.loop c).1.Failed := by
  rw [loop_reads hd hf]
  by_contra hsound
  exact hn ⟨Bool.eq_false_iff.2 fun hhum => hsound (.inl hhum), Bool.eq_false_iff.2 fun htemp => hsound (.inr htemp)⟩

/-- A failed handler only restarts its timer. -/
theorem Failed.loop (hf : h.Failed) (c : Measurement V) : ∃ t, (h.loop c).1 = { h with timer := t } := by
  by_cases hd : h.Due c.now
  · exact ⟨millis c.later, by rw [loop_reports hd hf]⟩
  · exact ⟨h.timer, by rw [loop_waits hd]⟩

/-! ## Runs -/

/-- **After a failure the sensor is not read again**: the getters never change. -/
theorem failed_stays (hf : h.Failed) (cs : List (Measurement V)) : ∃ t, h.run cs = { h with timer := t } := by
  induction cs generalizing h with
  | nil => exact ⟨h.timer, rfl⟩
  | cons c cs ih =>
    obtain ⟨t, ht⟩ := hf.loop c
    obtain ⟨t', ht'⟩ := ih (h := (h.loop c).1) (by rw [ht]; exact hf)
    refine ⟨t', ht'.trans ?_⟩
    rw [ht]

theorem Sound.atEach_iff (hs : h.Sound) (cs : List (Measurement V)) :
    AtEach Monitors h cs ↔ AtEach (fun h c => h.Due c.now → c.Succeeds) h cs := by
  induction cs generalizing h with
  | nil => exact Iff.rfl
  | cons c cs ih =>
    refine (and_congr_left' hs.monitors_iff).trans (and_congr_right fun hok => ?_)
    exact ih (hs.loop hok)

theorem sound_setup [Zero V] (start : ℕ) : (new.setup start : TemperatureHumidityHandler V).Sound := by
  refine ⟨?_, rfl, rfl⟩
  rintro (hn | hn) <;> cases hn

/-- **The temperature is monitored** in a run exactly when, each time the interval has elapsed,
both reads succeed. -/
theorem monitored_iff [Zero V] (start : ℕ) (cs : List (Measurement V)) :
    AtEach Monitors (new.setup start) cs ↔ AtEach (fun h c => h.Due c.now → c.Succeeds) (new.setup start) cs :=
  (sound_setup start).atEach_iff cs

/-- One read of the humidity fails, and the reads after it succeed. -/
def oneFailure : List (Measurement ℕ) :=
  [⟨4000, 4000, .value 40, .value 25⟩, ⟨8000, 8000, .nan, .value 26⟩, ⟨12000, 12000, .value 42, .value 27⟩,
    ⟨16000, 16000, .value 43, .value 28⟩]

/-- **One failed read ends the monitoring**: the reads after it would succeed, and are not made. -/
theorem one_failure :
    ¬ AtEach Monitors (new.setup 0) oneFailure ∧
      AtEach (fun h c => h.Due c.now) (new.setup 0) oneFailure ∧
      (∀ c ∈ oneFailure.drop 2, c.Succeeds) ∧
      ((new.setup 0).run oneFailure).getCurrentHumidity = .nan ∧
      ((new.setup 0).run oneFailure).getCurrentTemperature = .value 26 := by
  refine ⟨fun ha => ?_, ?_, ?_, rfl, rfl⟩
  · have hkept := ha.2.1.humidity rfl
    cases hkept
  · refine ⟨?_, ?_, ?_, ?_, trivial⟩ <;> decide
  · intro c hc
    rcases List.mem_cons.1 hc with rfl | hc
    · exact ⟨rfl, rfl⟩
    · rw [List.mem_singleton.1 hc]
      exact ⟨rfl, rfl⟩

end ServerRoom.TemperatureHumidityHandler
