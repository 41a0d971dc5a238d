import ServerRoom.Proof.Alarms

/-!
# What a report says of alarms is so

The converse of `alarms_reported`: a report says that there is a flame, smoke or motion only if a sensor
showed it lately. The flags are held for 20 s (10 s for motion) after an alarm. `FlameHandler` and
`SmokeHandler` see to theirs when they read the sensor, every 100 ms at most and that and `G` ms at
least, so that a flag can be up for so much longer.
-/

namespace ServerRoom

open Clock

/-! ## A visit -/

section Visit

variable {upTime : UInt32} {isAlarm : ℤ → Bool} {t : ℕ → ℕ} {sensorRead : ℤ} {h : SensorHandler}

theorem SensorHandler.loop_rest (hno : ¬ h.Due t) : h.loop upTime isAlarm t sensorRead = h := if_neg hno

theorem SensorHandler.loop_useTimer (hd : h.Due t) :
    (h.loop upTime isAlarm t sensorRead).useTimer = millis (t 1) := by
  unfold SensorHandler.loop
  rw [if_pos hd]
  dsimp only
  split
  · rfl
  · split <;> rfl

/-- Without an alarm the flag is up only if it was, and not for too long. -/
theorem SensorHandler.loop_quiet (hd : h.Due t) (hno : ¬ isAlarm sensorRead = true)
    (hup : (h.loop upTime isAlarm t sensorRead).detected = true) :
    (h.loop upTime isAlarm t sensorRead).hold = h.hold ∧ ¬ upTime < millis (t 2) - h.alarmTimer := by
  unfold SensorHandler.loop at hup ⊢
  rw [if_pos hd] at hup ⊢
  dsimp only at hup ⊢
  rw [if_neg hno] at hup ⊢
  split at hup
  · cases hup
  · rename_i hold
    rw [if_neg hold]
    exact ⟨rfl, hold⟩

end Visit

namespace Sketch

variable {s : Sketch} {e : ℕ → Iteration} {start G N : ℕ}

/-- An alarm in one of the iterations up to `n`, seen at most `D` ms before the report of iteration `n`
is checked. -/
def Lately (e : ℕ → Iteration) (alarm : ℕ → Prop) (seen : ℕ → ℕ) (D n : ℕ) : Prop :=
  ∃ k ≤ n, alarm k ∧ (e n).time 10 ≤ seen k + D

theorem Paced.check_le (h : s.Paced e start G N) {n : ℕ} (hn : n < N) {t : ℕ} (ht : t ∈ s.round e start (n + 1)) :
    (e n).time 10 ≤ t + G :=
  h.gap n hn t (List.mem_append_right _ ht) _ (List.mem_append_right _ (check_mem s e start n))

/-! ## The sensors that are read every 100 ms -/

section Sensor

variable {isAlarm : ℤ → Bool} {get : Sketch → SensorHandler} {place : ℕ} {read : Iteration → ℤ} {upTime : UInt32}

/-- The handler `get` is due in iteration `n`. -/
def Visits (s : Sketch) (e : ℕ → Iteration) (get : Sketch → SensorHandler) (place n : ℕ) : Prop :=
  (get (s.before e n)).Due fun i => (e n).time (place + i)

/-- The readings of a visit come in their order. -/
theorem Paced.visit_readings (h : s.Paced e start G N) {n : ℕ} (hn : n < N)
    (hread : ((get (s.before e n)).readings fun i => (e n).time (place + i)).Sublist (s.sensing e n))
    (hv : s.Visits e get place n) :
    ((e n).time place ≤ (e n).time (place + 1) ∧ (e n).time (place + 1) ≤ (e n).time (place + 2)) ∧
      (e n).time (place + 1) ∈ s.sensing e n ∧ (e n).time (place + 2) ∈ s.sensing e n := by
  have hlist : ((get (s.before e n)).readings fun i => (e n).time (place + i)) =
      [(e n).time place, (e n).time (place + 1), (e n).time (place + 2)] := if_pos hv
  rw [hlist] at hread
  have hround := (List.pairwise_append.1 (h.ordered n hn)).2.1
  rw [round_succ] at hround
  have hpair := (List.pairwise_append.1 hround).1.sublist hread
  have hmem := hread.subset
  simp only [List.pairwise_cons, List.mem_cons, forall_eq_or_imp] at hpair
  exact ⟨⟨hpair.1.1, hpair.2.1.1⟩, hmem (by simp), hmem (by simp)⟩

/-- The sensor is always polled. -/
theorem poll_mem {n : ℕ}
    (hread : ((get (s.before e n)).readings fun i => (e n).time (place + i)).Sublist (s.sensing e n)) :
    (e n).time place ∈ s.sensing e n := by
  refine hread.subset ?_
  unfold SensorHandler.readings
  split <;> exact List.mem_cons_self

/-- Readings of an iteration are not later than those of any later one. -/
theorem Paced.le_later (h : s.Paced e start G N) {m n : ℕ} (hmn : m < n) (hn : n < N) {t t' : ℕ}
    (ht : t ∈ s.round e start (m + 1)) (ht' : t' ∈ s.round e start (n + 1)) : t ≤ t' := by
  induction n, hmn using Nat.le_induction generalizing t' with
  | base => exact h.le_next hn ht ht'
  | succ n hmn ih =>
    have hcheck := check_mem s e start n
    have hmid := ih (by omega) hcheck
    have hstep := h.le_next hn hcheck ht'
    omega

/-- **A handler over its visits.** -/
structure Polls (s : Sketch) (e : ℕ → Iteration) (upTime : UInt32) (isAlarm : ℤ → Bool) (get : Sketch → SensorHandler)
    (place : ℕ) (read : Iteration → ℤ) : Prop where
  start : (get s).detected = false
  loop : ∀ n, get (s.sensed e n) = (get (s.before e n)).loop upTime isAlarm (fun i => (e n).time (place + i)) (read (e n))
  next : ∀ n, get (s.before e (n + 1)) = get (s.sensed e n)
  read : ∀ n, ((get (s.before e n)).readings fun i => (e n).time (place + i)).Sublist (s.sensing e n)

/-- The timer of the visits is set in each. -/
theorem Polls.useTimer (h : s.Polls e upTime isAlarm get place read) {m n : ℕ}
    (hlast : LastVisit (s.Visits e get place) m n) :
    (get (s.before e n)).useTimer = millis ((e m).time (place + 1)) := by
  obtain ⟨hlt, hvisit, hnone⟩ := hlast
  induction n, hlt using Nat.le_induction with
  | base =>
    rw [h.next, h.loop]
    exact SensorHandler.loop_useTimer hvisit
  | succ n hmn ih =>
    have hno : ¬ s.Visits e get place n := hnone n hmn (Nat.lt_succ_self n)
    rw [h.next, h.loop, SensorHandler.loop_rest hno]
    exact ih fun i h1 h2 => hnone i h1 (by omega)

/-- **From one visit to the next poll**: while the handler is not due, less than 100 ms have passed. -/
theorem Polls.next_poll (hp : s.Polls e upTime isAlarm get place read) (h : s.Paced e start G N)
    (hG : 100 + G < 2 ^ 32) {m n : ℕ} (hlast : LastVisit (s.Visits e get place) m n) (hn : n < N) :
    (e m).time (place + 2) ≤ (e n).time place ∧ (e n).time place < (e m).time (place + 1) + 100 + G ∧
      (¬ s.Visits e get place n → (e n).time place < (e m).time (place + 1) + 100) := by
  have hmn := hlast.lt
  obtain ⟨-, huse, hseen⟩ := h.visit_readings (by omega) (hp.read m) hlast.visit
  have huse := (h.sensing (by omega) huse).1
  have hseen := (h.sensing (by omega) hseen).1
  have hpoll : ∀ i < N, (e i).time place ∈ s.round e start (i + 1) := fun i hi => (h.sensing hi (poll_mem (hp.read i))).1
  refine ⟨h.le_later hmn hn hseen (hpoll n hn), ?_⟩
  have hfirst : (e m).time (place + 1) ≤ (e (m + 1)).time place ∧ (e (m + 1)).time place ≤ (e m).time (place + 1) + G :=
    ⟨h.le_next (by omega) huse (hpoll (m + 1) (by omega)), h.le_add (by omega) huse (hpoll (m + 1) (by omega))⟩
  have hdue : ∀ i, m < i → i ≤ n →
      (s.Visits e get place i ↔ 100 ≤ ((e i).time place - (e m).time (place + 1)) % 2 ^ 32) := by
    intro i hmi hin
    have hlasti : LastVisit (s.Visits e get place) m i := ⟨hmi, hlast.visit, fun j h1 h2 => hlast.none j h1 (by omega)⟩
    have hpast := h.le_later hmi (by omega) huse (hpoll i (by omega))
    have hread : SensorHandler.readTime.toNat = 100 := rfl
    show ¬ millis ((e i).time place) - (get (s.before e i)).useTimer < SensorHandler.readTime ↔ _
    rw [hp.useTimer hlasti, UInt32.lt_iff_toNat_lt, hread, Nat.not_lt]
    unfold millis
    rw [sub_toNat hpast]
  have hgap : ∀ i, m < i → i < n → (e i).time place ≤ (e (i + 1)).time place ∧
      (e (i + 1)).time place ≤ (e i).time place + G := by
    intro i _ hin
    exact ⟨h.le_next (by omega) (hpoll i (by omega)) (hpoll (i + 1) (by omega)),
      h.le_add (by omega) (hpoll i (by omega)) (hpoll (i + 1) (by omega))⟩
  have hcheck := hlast.check_lt hG (by omega) hfirst hdue hgap
  exact hcheck.2

/-- The flag of the handler. -/
theorem Polls.raised (hp : s.Polls e upTime isAlarm get place read) :
    Raised N upTime (s.Visits e get place) (fun n => isAlarm (read (e n)) = true) (fun n => (e n).time (place + 2))
      (fun n => (get (s.before e n)).hold) where
  start := hp.start
  skip n _ hno := by
    simp only [hp.next, hp.loop]
    rw [SensorHandler.loop_rest hno]
  rises n _ hv ha := by
    simp only [hp.next, hp.loop]
    exact SensorHandler.loop_alarm hv ha
  quiet n _ hv hno hup := by
    simp only [hp.next, hp.loop] at hup ⊢
    exact SensorHandler.loop_quiet hv hno hup

/-- **A flag that is up shows an alarm of late.** -/
theorem Polls.lately (hp : s.Polls e upTime isAlarm get place read) (h : s.Paced e start G N)
    (hG : upTime.toNat + 100 + 2 * G < 2 ^ 32) {n : ℕ} (hn : n < N) (hup : (get (s.sensed e n)).detected = true) :
    Lately e (s.Samples e get isAlarm place read) (fun k => (e k).time (place + 2)) (upTime.toNat + 100 + G) n := by
  have hnext : ∀ m n, n < N → LastVisit (s.Visits e get place) m n → s.Visits e get place n →
      (e m).time (place + 2) ≤ (e n).time (place + 2) ∧ (e n).time (place + 2) ≤ (e m).time (place + 2) + (100 + 2 * G) := by
    intro m n hn hlast hv
    have hmn := hlast.lt
    obtain ⟨hafter, hsoon, -⟩ := hp.next_poll h (by omega) hlast hn
    obtain ⟨⟨h01, h12⟩, -, hseen⟩ := h.visit_readings hn (hp.read n) hv
    obtain ⟨⟨-, hm12⟩, -, -⟩ := h.visit_readings (by omega) (hp.read m) hlast.visit
    have hround := (h.sensing hn hseen).1
    have hpoll := (h.sensing hn (poll_mem (hp.read n))).1
    have hsame := h.gap n hn _ (List.mem_append_right _ hpoll) _ (List.mem_append_right _ hround)
    constructor <;> omega
  have hup' : ((get (s.before e (n + 1))).hold).up = true := by
    show (get (s.before e (n + 1))).detected = true
    rw [hp.next]
    exact hup
  obtain ⟨k, m, hlast, hkm, hvk, hak, hle, hlt, -⟩ := hp.raised.origin (by omega) hnext (Nat.succ_le_of_lt hn) hup'
  have hmn := hlast.lt
  refine ⟨k, by omega, ⟨hvk, hak⟩, ?_⟩
  by_cases hmn' : m = n
  · rw [hmn'] at hlt hlast
    obtain ⟨-, -, hseen⟩ := h.visit_readings hn (hp.read n) hlast.visit
    have hcheck := h.check_le hn (h.sensing hn hseen).1
    show (e n).time 10 ≤ (e k).time (place + 2) + (upTime.toNat + 100 + G)
    omega
  · -- the handler was not due in this iteration
    have hlast' : LastVisit (s.Visits e get place) m n := ⟨by omega, hlast.visit, fun i h1 h2 => hlast.none i h1 (by omega)⟩
    have hno : ¬ s.Visits e get place n := hlast.none n (by omega) (Nat.lt_succ_self n)
    have hsoon := (hp.next_poll h (by omega) hlast' hn).2.2 hno
    obtain ⟨⟨-, hm12⟩, -, -⟩ := h.visit_readings (by omega) (hp.read m) hlast.visit
    have hcheck := h.check_le hn (h.sensing hn (poll_mem (hp.read n))).1
    show (e n).time 10 ≤ (e k).time (place + 2) + (upTime.toNat + 100 + G)
    omega

end Sensor

/-! ## The motion sensor -/

/-- The motion handler sees to its flag in every iteration. -/
theorem motion_raised (hs : s.Starts start) :
    Raised N pirSensorUpTime (fun _ => True) (fun n => (e n).pir = .high) (fun n => (e n).time 0)
      (fun n => (s.before e n).motionHandler.hold) := by
  have hnext : ∀ n, (s.before e (n + 1)).motionHandler =
      (s.before e n).motionHandler.loop ((e n).time 0) (e n).pir := by
    intro n
    rw [before_succ]
    rfl
  refine ⟨hs.motion, fun n _ hno => absurd trivial hno, fun n _ _ ha => ?_, fun n _ _ hno hup => ?_⟩
  · simp only [hnext]
    unfold MotionHandler.loop
    rw [if_pos ha]
    rfl
  · simp only [hnext] at hup ⊢
    unfold MotionHandler.loop at hup ⊢
    rw [if_neg hno] at hup ⊢
    split at hup
    · cases hup
    · rename_i hold
      rw [if_neg hold]
      exact ⟨rfl, hold⟩

theorem Paced.motion_lately (h : s.Paced e start G N) (hs : s.Starts start) (hG : 10000 + G < 2 ^ 32) {n : ℕ}
    (hn : n < N) (hup : (s.sensed e n).motionHandler.motion = true) :
    Lately e (fun k => (e k).pir = .high) (fun k => (e k).time 0) (10000 + G) n := by
  have hmem : ∀ k < N, (e k).time 0 ∈ s.round e start (k + 1) := fun k hk => (h.sensing hk (by simp [Sketch.sensing])).1
  have hadj : ∀ m n, LastVisit (fun _ => True) m n → n = m + 1 := by
    intro m n hlast
    have hlt := hlast.lt
    by_contra hne
    exact hlast.none (m + 1) (by omega) (by omega) trivial
  have hgap : ∀ m n, n < N → LastVisit (fun _ => True) m n → True →
      (e m).time 0 ≤ (e n).time 0 ∧ (e n).time 0 ≤ (e m).time 0 + G := by
    intro m n hn hlast _
    have hn' := hadj m n hlast
    subst hn'
    exact ⟨h.le_next hn (hmem m (by omega)) (hmem (m + 1) hn), h.le_add hn (hmem m (by omega)) (hmem (m + 1) hn)⟩
  have hup' : ((s.before e (n + 1)).motionHandler.hold).up = true := by
    show (s.before e (n + 1)).motionHandler.motion = true
    rw [before_succ]
    exact hup
  have hhold : pirSensorUpTime.toNat = 10000 := rfl
  obtain ⟨k, m, hlast, hkm, -, hak, -, hlt, -⟩ :=
    (motion_raised hs).origin (by rw [hhold]; exact hG) hgap (Nat.succ_le_of_lt hn) hup'
  have hmn : n = m := by
    have := hadj m (n + 1) hlast
    omega
  subst hmn
  have hcheck := h.check_le hn (hmem n hn)
  refine ⟨k, hkm, hak, ?_⟩
  show (e n).time 10 ≤ (e k).time 0 + (10000 + G)
  rw [hhold] at hlt
  omega

end Sketch

/-- **No false alarms.** In every run from `setup()` on in which time does not go back and the readings of
the clock in the same or consecutive rounds are at most `G` ms apart: if a payload that is sent says that
there is a flame, one of the two flame handlers has sampled one at most 20100 and `G` ms before; so it is
for smoke, and for motion within 10000 and `G` ms. -/
theorem alarms_genuine {s : Sketch} {e : ℕ → Iteration} {start G N n : ℕ} {payload : String} (hs : s.Starts start)
    (h : s.Paced e start G N) (hG : 20100 + 2 * G < 2 ^ 32) (hn : n < N) (hsent : s.sent e n = some payload) :
    payload = ((s.sensed e n).reportData (e n)).payload ∧
      (((s.sensed e n).reportData (e n)).flame = true →
        Sketch.Lately e (s.Samples e Sketch.flameHandler1 isFlame 1 Iteration.flame1) (fun k => (e k).time 3) (20100 + G) n ∨
        Sketch.Lately e (s.Samples e Sketch.flameHandler2 isFlame 4 Iteration.flame2) (fun k => (e k).time 6) (20100 + G) n) ∧
      (((s.sensed e n).reportData (e n)).smoke = true →
        Sketch.Lately e (s.Samples e Sketch.smokeHandler isSmoke 7 Iteration.smoke) (fun k => (e k).time 9) (20100 + G) n) ∧
      (((s.sensed e n).reportData (e n)).motion = true →
        Sketch.Lately e (fun k => (e k).pir = .high) (fun k => (e k).time 0) (10000 + G) n) := by
  have hflame : flameSensorUpTime.toNat + 100 = 20100 := rfl
  have hsmoke : smokeSensorUpTime.toNat + 100 = 20100 := rfl
  have hfirst : s.Polls e flameSensorUpTime isFlame Sketch.flameHandler1 1 Iteration.flame1 :=
    ⟨hs.flame1, fun _ => rfl, fun n => by rw [Sketch.before_succ], fun n =>
      ((List.sublist_append_right _ _).trans (List.sublist_append_left _ _)).trans (List.sublist_append_left _ _)⟩
  have hsecond : s.Polls e flameSensorUpTime isFlame Sketch.flameHandler2 4 Iteration.flame2 :=
    ⟨hs.flame2, fun _ => rfl, fun n => by rw [Sketch.before_succ], fun n =>
      (List.sublist_append_right _ _).trans (List.sublist_append_left _ _)⟩
  have hthird : s.Polls e smokeSensorUpTime isSmoke Sketch.smokeHandler 7 Iteration.smoke :=
    ⟨hs.smoke, fun _ => rfl, fun n => by rw [Sketch.before_succ], fun n => List.sublist_append_right _ _⟩
  refine ⟨?_, fun hdata => ?_, fun hdata => ?_, fun hdata => h.motion_lately hs (by omega) hn hdata⟩
  · by_cases hp : (s.before e n).Posts (e n)
    · rw [Sketch.sent_of_posts hp] at hsent
      exact (Option.some.inj hsent).symm
    · -- nothing is sent when no report is due
      have hnone : s.sent e n = none := by
        show ((s.sensed e n).reportDataToServer (e n)).2 = none
        have hposts : ¬ (s.sensed e n).Posts (e n) := hp
        unfold Sketch.reportDataToServer
        rw [if_neg hposts]
      rw [hnone] at hsent
      cases hsent
  · have hup : (s.sensed e n).flameHandler1.detected = true ∨ (s.sensed e n).flameHandler2.detected = true := by
      simpa [Sketch.reportData] using hdata
    rw [← hflame]
    rcases hup with hup | hup
    · exact .inl (hfirst.lately h (by omega) hn hup)
    · exact .inr (hsecond.lately h (by omega) hn hup)
  · rw [← hsmoke]
    exact hthird.lately h (by omega) hn hdata

/-- The second iteration reports the flame of the first. -/
theorem alarms_genuine_oneFlame : ((Sketch.main.sensed oneFlame 1).reportData (oneFlame 1)).flame = true ∧
    (Sketch.Lately oneFlame (Sketch.main.Samples oneFlame Sketch.flameHandler1 isFlame 1 Iteration.flame1)
        (fun k => (oneFlame k).time 3) (20100 + 15000) 1 ∨
      Sketch.Lately oneFlame (Sketch.main.Samples oneFlame Sketch.flameHandler2 isFlame 4 Iteration.flame2)
        (fun k => (oneFlame k).time 6) (20100 + 15000) 1) := by
  have hposts : (Sketch.main.before oneFlame 1).Posts (oneFlame 1) := by decide
  have hflame : ((Sketch.main.sensed oneFlame 1).reportData (oneFlame 1)).flame = true := by decide
  exact ⟨hflame, (alarms_genuine Sketch.main_starts oneFlame_paced (by decide) (by decide)
    (Sketch.sent_of_posts hposts)).2.1 hflame⟩

end ServerRoom
