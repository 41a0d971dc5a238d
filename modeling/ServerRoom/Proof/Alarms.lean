import ServerRoom.Lib.Periodic
import ServerRoom.Spec.Sensors

/-!
# No alarm goes unreported

Each handler holds its flag beside the report, which is a periodic job (`Sketch.Paced.job`):
a visit of a handler is a step of a held flag (`SensorHandler.loop_step`,
`MotionHandler.loop_step`). The hold times are the interval of the reports and the pace that
is allowed, 5000 + 15000 and 5000 + 5000, so the flag is up until the report has seen it:
`alarms_reported`.
-/

namespace ServerRoom

open Clock

variable {s : Sketch} {e : ℕ → Iteration} {start G N : ℕ}

/-! ## The handlers -/

/-- The flag of a handler, and when its last alarm was. -/
def SensorHandler.hold (h : SensorHandler) : Hold := ⟨h.detected, h.alarmTimer⟩

def MotionHandler.hold (h : MotionHandler) : Hold := ⟨h.motion, h.timer⟩

/-- **A visit is a step of a held flag.** A handler that is not due does nothing. -/
theorem SensorHandler.loop_step (upTime : UInt32) (isAlarm : ℤ → Bool) (t : ℕ → ℕ) (sensorRead : ℤ)
    (h : SensorHandler) (now : ℕ) :
    h.hold.Step upTime (if h.Due t then t 2 else now) (h.loop upTime isAlarm t sensorRead).hold := by
  unfold SensorHandler.loop
  by_cases hd : h.Due t
  · rw [if_pos hd, if_pos hd]
    dsimp only
    split
    · exact .alarm
    · split
      · rename_i hexp
        exact .expire hexp
      · exact .keep
  · rw [if_neg hd, if_neg hd]
    exact .keep

theorem SensorHandler.loop_alarm {upTime : UInt32} {isAlarm : ℤ → Bool} {t : ℕ → ℕ} {sensorRead : ℤ}
    {h : SensorHandler} (hd : h.Due t) (ha : isAlarm sensorRead = true) :
    (h.loop upTime isAlarm t sensorRead).hold = ⟨true, UInt32.ofNat (t 2)⟩ := by
  unfold SensorHandler.loop
  rw [if_pos hd, if_pos ha]
  rfl

theorem MotionHandler.loop_step (t : ℕ) (pin : Level) (h : MotionHandler) :
    h.hold.Step pirSensorUpTime t (h.loop t pin).hold := by
  unfold MotionHandler.loop
  split
  · exact .alarm
  · split
    · rename_i hexp
      exact .expire hexp
    · exact .keep

/-! ## The report -/

namespace Sketch

/-- What an iteration leaves as it is after the sensing. -/
theorem before_succ (s : Sketch) (e : ℕ → Iteration) (n : ℕ) :
    s.before e (n + 1) = { s.sensed e n with
      sendingTimer :=
        if (s.before e n).Posts (e n) then millis ((e n).time 11) else (s.before e n).sendingTimer } := by
  show ((s.sensed e n).reportDataToServer (e n)).1 = _
  have hposts : (s.sensed e n).Posts (e n) ↔ (s.before e n).Posts (e n) := Iff.rfl
  unfold reportDataToServer
  by_cases hp : (s.before e n).Posts (e n)
  · rw [if_pos (hposts.2 hp), if_pos hp]
  · rw [if_neg (hposts.not.2 hp), if_neg hp]
    rfl

/-- What an iteration sends is the payload of its data. -/
theorem sent_of_posts {n : ℕ} (hp : (s.before e n).Posts (e n)) :
    s.sent e n = some ((s.sensed e n).reportData (e n)).payload := by
  show ((s.sensed e n).reportDataToServer (e n)).2 = _
  have hposts : (s.sensed e n).Posts (e n) := hp
  unfold reportDataToServer
  rw [if_pos hposts]

/-- The real time that the sending timer stands for. -/
def lastSent (s : Sketch) (e : ℕ → Iteration) (start : ℕ) : ℕ → ℕ
  | 0 => start
  | n + 1 => if (s.before e n).Posts (e n) then (e n).time 11 else lastSent s e start n

theorem sendingTimer_eq (hs : s.Starts start) (n : ℕ) :
    (s.before e n).sendingTimer = millis (s.lastSent e start n) := by
  induction n with
  | zero => exact hs.sendingTimer
  | succ n ih =>
    rw [before_succ]
    unfold lastSent
    dsimp only
    split
    · rfl
    · exact ih

/-- The readings of iteration `n` by the handlers, before the report. -/
def sensing (s : Sketch) (e : ℕ → Iteration) (n : ℕ) : List ℕ :=
  [(e n).time 0] ++ (s.before e n).flameHandler1.readings (fun i => (e n).time (1 + i)) ++
    (s.before e n).flameHandler2.readings (fun i => (e n).time (4 + i)) ++
    (s.before e n).smokeHandler.readings (fun i => (e n).time (7 + i))

theorem round_succ (s : Sketch) (e : ℕ → Iteration) (start n : ℕ) :
    s.round e start (n + 1) =
      s.sensing e n ++ if (s.before e n).Posts (e n) then [(e n).time 10, (e n).time 11] else [(e n).time 10] := rfl

/-- The check of the report is always read. -/
theorem check_mem (s : Sketch) (e : ℕ → Iteration) (start n : ℕ) : (e n).time 10 ∈ s.round e start (n + 1) := by
  rw [round_succ]
  refine List.mem_append_right _ ?_
  split <;> exact List.mem_cons_self

theorem sending_mem {n : ℕ} (hp : (s.before e n).Posts (e n)) (start : ℕ) :
    (e n).time 11 ∈ s.round e start (n + 1) := by
  rw [round_succ, if_pos hp]
  refine List.mem_append_right _ ?_
  exact List.mem_cons_of_mem _ (List.mem_singleton_self _)

/-- Readings of one round are not later than those of the next. -/
theorem Paced.le_next (h : s.Paced e start G N) {n : ℕ} (hn : n < N) {t t' : ℕ} (ht : t ∈ s.round e start n)
    (ht' : t' ∈ s.round e start (n + 1)) : t ≤ t' :=
  (List.pairwise_append.1 (h.ordered n hn)).2.2 t ht t' ht'

theorem Paced.le_add (h : s.Paced e start G N) {n : ℕ} (hn : n < N) {t t' : ℕ} (ht : t ∈ s.round e start n)
    (ht' : t' ∈ s.round e start (n + 1)) : t' ≤ t + G :=
  h.gap n hn t (List.mem_append_left _ ht) t' (List.mem_append_right _ ht')

/-- The last report was sent before the iteration. -/
theorem Paced.lastSent_le (h : s.Paced e start G N) {n : ℕ} (hn : n < N) {t : ℕ}
    (ht : t ∈ s.round e start (n + 1)) : s.lastSent e start n ≤ t := by
  induction n generalizing t with
  | zero => exact h.le_next hn (List.mem_singleton_self start) ht
  | succ n ih =>
    have hcheck := check_mem s e start n
    unfold lastSent
    split
    · rename_i hp
      exact h.le_next hn (sending_mem hp start) ht
    · exact (ih (by omega) hcheck).trans (h.le_next hn hcheck ht)

/-- **The report is a periodic job.** -/
theorem Paced.job (h : s.Paced e start G N) (hs : s.Starts start) :
    Job 5000 G N (fun n => (e n).time 10) (s.lastSent e start) (fun n => (s.before e n).Posts (e n)) where
  first hN :=
    ⟨h.lastSent_le hN (check_mem s e start 0), h.le_add hN (List.mem_singleton_self start) (check_mem s e start 0)⟩
  polled n hn := by
    have hle := h.lastSent_le hn (check_mem s e start n)
    have hint : postToServerInterval.toNat = 5000 := rfl
    show (¬ millis ((e n).time 10) - (s.before e n).sendingTimer < postToServerInterval) ↔ _
    rw [sendingTimer_eq hs, UInt32.lt_iff_toNat_lt, hint, Nat.not_lt]
    unfold millis
    rw [sub_toNat hle]
  idle n hn hno := by
    refine ⟨?_, h.le_next hn (check_mem s e start n) (check_mem s e start (n + 1)),
      h.le_add hn (check_mem s e start n) (check_mem s e start (n + 1))⟩
    show (if _ then _ else _) = _
    exact if_neg hno
  ran n hn hp := by
    have hlast : s.lastSent e start (n + 1) = (e n).time 11 := if_pos hp
    rw [hlast]
    exact ⟨h.le_next hn (sending_mem hp start) (check_mem s e start (n + 1)),
      h.le_add hn (sending_mem hp start) (check_mem s e start (n + 1))⟩

/-- What the handlers read is read in the round, and not later than the check of the report. -/
theorem Paced.sensing (h : s.Paced e start G N) {n : ℕ} (hn : n < N) {t : ℕ} (ht : t ∈ s.sensing e n) :
    t ∈ s.round e start (n + 1) ∧ t ≤ (e n).time 10 := by
  have hround := (List.pairwise_append.1 (h.ordered n hn)).2.1
  rw [round_succ] at hround ⊢
  refine ⟨List.mem_append_left _ ht, (List.pairwise_append.1 hround).2.2 t ht _ ?_⟩
  split <;> exact List.mem_cons_self

/-- **A flag that is seen to once an iteration, before the report, is held beside it.** -/
theorem Paced.held (h : s.Paced e start G N) (hs : s.Starts start) (H : UInt32) (seen : ℕ → ℕ) (flag : ℕ → Hold)
    (hstep : ∀ n, (flag n).Step H (seen n) (flag (n + 1)))
    (hmem : ∀ n < N, seen n ∈ s.round e start (n + 1) ∧ seen n ≤ (e n).time 10) :
    Held 5000 G N H (fun n => (e n).time 10) (s.lastSent e start) (fun n => (s.before e n).Posts (e n))
      seen flag where
  toJob := h.job hs
  step n _ := hstep n
  before n hn := ⟨h.lastSent_le hn (hmem n hn).1, (hmem n hn).2⟩
  gap n hn := ⟨h.le_next hn (check_mem s e start n) (hmem (n + 1) hn).1,
    h.le_add hn (check_mem s e start n) (hmem (n + 1) hn).1⟩

/-! ## The alarms -/

/-- A payload was sent in one of the iterations from `k` on and before `n`; its data have the
alarm, and the flag was up from iteration `k` till then. -/
def Reported (s : Sketch) (e : ℕ → Iteration) (flag : Sketch → Bool) (data : Report → Bool) (k n : ℕ) : Prop :=
  ∃ i, k ≤ i ∧ i < n ∧ s.sent e i = some ((s.sensed e i).reportData (e i)).payload ∧
    data ((s.sensed e i).reportData (e i)) = true ∧ ∀ j, k ≤ j → j ≤ i → flag (s.sensed e j) = true

/-- **Alarms are reported.** An alarm that is sampled in iteration `k`, at `seen k`, is
reported before the flag is down again, and before the report is checked 5000 ms later. -/
structure AlarmsReported (s : Sketch) (e : ℕ → Iteration) (N : ℕ) (alarm : ℕ → Prop) (seen : ℕ → ℕ)
    (flag : Sketch → Bool) (data : Report → Bool) : Prop where
  beforeDown : ∀ k n, k ≤ n → n < N → alarm k → flag (s.sensed e n) = false → s.Reported e flag data k n
  inTime : ∀ k n, k ≤ n → n < N → alarm k → seen k + 5000 ≤ (e n).time 10 → s.Reported e flag data k (n + 1)

/-- **A held flag is reported**, if the data show it. -/
theorem reported_of_held {H : UInt32} {alarm : ℕ → Prop} {seen now : ℕ → ℕ} {hold : ℕ → Hold} {flag : Sketch → Bool}
    {data : Report → Bool}
    (h : Held 5000 G N H (fun n => (e n).time 10) (s.lastSent e start) (fun n => (s.before e n).Posts (e n)) now hold)
    (hG : 5000 + G < 2 ^ 32) (hH : 5000 + G ≤ H.toNat) (hflag : ∀ n, (hold (n + 1)).up = flag (s.sensed e n))
    (hdata : ∀ s e, flag s = true → data (s.reportData e) = true)
    (halarm : ∀ n, alarm n → now n = seen n ∧ hold (n + 1) = ⟨true, UInt32.ofNat (now n)⟩) :
    s.AlarmsReported e N alarm seen flag data := by
  have hseen : ∀ k n, Seen (fun n => (s.before e n).Posts (e n)) hold k n → s.Reported e flag data k n := by
    rintro k n ⟨i, hki, hin, hp, hup⟩
    have hup' : ∀ j, k ≤ j → j ≤ i → flag (s.sensed e j) = true := fun j h1 h2 => by rw [← hflag]; exact hup j h1 h2
    exact ⟨i, hki, hin, sent_of_posts hp, hdata _ _ (hup' i hki (Nat.le_refl i)), hup'⟩
  refine ⟨fun k n hkn hn ha hdown => hseen k n ?_, fun k n hkn hn ha hlate => hseen k (n + 1) ?_⟩
  · exact h.seen_of_down (by omega) hG hH hkn hn (halarm k ha).2 (by rw [hflag]; exact hdown)
  · refine h.seen_of_check (by omega) hG hH hkn hn (halarm k ha).2 ?_
    rw [(halarm k ha).1]
    exact hlate

/-- The sensor handler `get` samples an alarm in iteration `n`. -/
def Samples (s : Sketch) (e : ℕ → Iteration) (get : Sketch → SensorHandler) (isAlarm : ℤ → Bool)
    (place : ℕ) (read : Iteration → ℤ) (n : ℕ) : Prop :=
  (get (s.before e n)).Due (fun i => (e n).time (place + i)) ∧ isAlarm (read (e n)) = true

/-- **The alarms of a sensor handler are reported.** -/
theorem Paced.sensor (h : s.Paced e start 15000 N) (hs : s.Starts start) {isAlarm : ℤ → Bool}
    {get : Sketch → SensorHandler} {place : ℕ} {read : Iteration → ℤ} {data : Report → Bool}
    (hloop : ∀ n, get (s.sensed e n) =
      (get (s.before e n)).loop 20000 isAlarm (fun i => (e n).time (place + i)) (read (e n)))
    (hnext : ∀ n, get (s.before e (n + 1)) = get (s.sensed e n))
    (hread : ∀ n, n < N → ∀ t ∈ (get (s.before e n)).readings (fun i => (e n).time (place + i)),
      t ∈ s.round e start (n + 1) ∧ t ≤ (e n).time 10)
    (hdata : ∀ s e, (get s).detected = true → data (s.reportData e) = true) :
    s.AlarmsReported e N (s.Samples e get isAlarm place read) (fun n => (e n).time (place + 2))
      (fun s => (get s).detected) data := by
  -- a handler that is not due is seen to when the report is checked
  have hheld := h.held hs 20000
    (fun n => if (get (s.before e n)).Due (fun i => (e n).time (place + i)) then (e n).time (place + 2)
      else (e n).time 10)
    (fun n => (get (s.before e n)).hold) (fun n => ?_) (fun n hn => ?_)
  · refine reported_of_held hheld (by omega) (by decide) (fun n => ?_) hdata fun n ha => ?_
    · show (get (s.before e (n + 1))).detected = _
      rw [hnext]
    · refine ⟨if_pos ha.1, ?_⟩
      simp only [hnext, hloop, if_pos ha.1]
      exact SensorHandler.loop_alarm ha.1 ha.2
  · simp only [hnext, hloop]
    exact SensorHandler.loop_step _ _ _ _ _ _
  · split
    · rename_i hd
      refine hread n hn _ ?_
      unfold SensorHandler.readings
      rw [if_pos hd]
      simp
    · exact ⟨check_mem s e start n, Nat.le_refl _⟩

/-- **The alarms of the motion handler are reported.** -/
theorem Paced.motion (h : s.Paced e start 5000 N) (hs : s.Starts start) :
    s.AlarmsReported e N (fun n => (e n).pir = .high) (fun n => (e n).time 0) (fun s => s.motionHandler.motion)
      Report.motion := by
  have hnext : ∀ n, (s.before e (n + 1)).motionHandler =
      (s.before e n).motionHandler.loop ((e n).time 0) (e n).pir := by
    intro n
    rw [before_succ]
    rfl
  have hheld := h.held hs pirSensorUpTime (fun n => (e n).time 0) (fun n => (s.before e n).motionHandler.hold)
    (fun n => ?_) (fun n hn => h.sensing hn (by simp [Sketch.sensing]))
  · refine reported_of_held hheld (by omega) (by decide) (fun n => ?_) (fun _ _ hm => hm) fun n ha => ⟨rfl, ?_⟩
    · show (s.before e (n + 1)).motionHandler.motion = _
      rw [hnext]
      rfl
    · simp only [hnext]
      unfold MotionHandler.loop
      rw [if_pos ha]
      rfl
  · simp only [hnext]
    exact MotionHandler.loop_step _ _ _

end Sketch

/-- **No sampled alarm goes unreported.** In every run from `setup()` on in which time does
not go back: if the readings of the clock in the same or consecutive rounds are at most
15000 ms apart, each alarm that a flame handler or the smoke handler samples is in the data
of a payload that is sent before the handler's flag is down again, and before the report is
checked 5000 ms after the alarm; if they are at most 5000 ms apart, so is each alarm of the
motion handler. -/
theorem alarms_reported (hs : s.Starts start) :
    (s.Paced e start 15000 N →
      s.AlarmsReported e N (s.Samples e Sketch.flameHandler1 isFlame 1 Iteration.flame1) (fun n => (e n).time 3)
        (fun s => s.flameHandler1.detected) Report.flame ∧
      s.AlarmsReported e N (s.Samples e Sketch.flameHandler2 isFlame 4 Iteration.flame2) (fun n => (e n).time 6)
        (fun s => s.flameHandler2.detected) Report.flame ∧
      s.AlarmsReported e N (s.Samples e Sketch.smokeHandler isSmoke 7 Iteration.smoke) (fun n => (e n).time 9)
        (fun s => s.smokeHandler.detected) Report.smoke) ∧
      (s.Paced e start 5000 N →
        s.AlarmsReported e N (fun n => (e n).pir = .high) (fun n => (e n).time 0) (fun s => s.motionHandler.motion)
          Report.motion) := by
  refine ⟨fun h => ⟨h.sensor hs (fun _ => rfl) (fun n => ?_) (fun n hn t ht => ?_) fun s e hd => ?_,
    h.sensor hs (fun _ => rfl) (fun n => ?_) (fun n hn t ht => ?_) fun s e hd => ?_,
    h.sensor hs (fun _ => rfl) (fun n => ?_) (fun n hn t ht => ?_) fun s e hd => ?_⟩, fun h => h.motion hs⟩
  · rw [Sketch.before_succ]
  · exact h.sensing hn (by simp [Sketch.sensing, ht])
  · simp [Sketch.reportData, hd]
  · rw [Sketch.before_succ]
  · exact h.sensing hn (by simp [Sketch.sensing, ht])
  · simp [Sketch.reportData, hd]
  · rw [Sketch.before_succ]
  · exact h.sensing hn (by simp [Sketch.sensing, ht])
  · exact hd

/-! ## A flame in the first iteration -/

/-- The sketch after a `setup()` that ends at 1001 ms; the handlers are as old as the board. -/
def Sketch.main : Sketch := ⟨⟨false, 0⟩, ⟨false, 0, 0⟩, ⟨false, 0, 0⟩, ⟨false, 0, 0⟩, millis 1001⟩

theorem Sketch.main_starts : Sketch.main.Starts 1001 := ⟨rfl, rfl, rfl, rfl, rfl⟩

/-- Every three seconds an iteration; the first flame sensor shows a flame in the first. -/
def oneFlame (n : ℕ) : Iteration :=
  ⟨fun i => 1001 + 3000 * (n + 1) + i, .low, if n = 0 then 900 else 1000, 1000, 100, "22.5", "40.0"⟩

theorem oneFlame_paced : Sketch.main.Paced oneFlame 1001 15000 3 where
  ordered := by decide +kernel
  gap := by decide +kernel

/-- The flame is in a payload by the third iteration. -/
theorem alarms_reported_oneFlame :
    Sketch.main.Reported oneFlame (fun s => s.flameHandler1.detected) Report.flame 0 3 :=
  ((alarms_reported Sketch.main_starts).1 oneFlame_paced).1.inTime 0 2 (by decide) (by decide)
    ⟨by decide, by decide⟩ (by decide)

end ServerRoom
