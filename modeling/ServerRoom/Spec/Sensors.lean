import Mathlib.Data.Int.Notation
import ServerRoom.Spec.Servers

/-!
# The sensors and the report

`src/arduino/library/FlameHandler.cpp`, `SmokeHandler.cpp` and `MotionHandler.cpp`, and from
`src/arduino/main/main.ino` the part of `loop()` that calls them and `report_data_to_server`.
An iteration says what the sensors show and the real time at which control is at each place
where `millis()` is called; `readings` are those of them that are taken. A temperature and a
humidity are what `String` makes of the float.
-/

namespace ServerRoom

/-! ## The handlers -/

/-- What `FlameHandler` and `SmokeHandler` have: the flag, when the sensor was read last, and
when it last showed an alarm. -/
structure SensorHandler where
  detected : Bool
  useTimer : UInt32
  alarmTimer : UInt32

namespace SensorHandler

/-- `FLAME_SENSOR_READ_TIME`, `SMOKE_SENSOR_READ_TIME` -/
def readTime : UInt32 := 100

/-- It is time to read the sensor. -/
def Due (h : SensorHandler) (t : ℕ → ℕ) : Prop := ¬ millis (t 0) - h.useTimer < readTime

instance (h : SensorHandler) (t : ℕ → ℕ) : Decidable (h.Due t) := inferInstanceAs (Decidable (¬ _))

/-- `loop` of a handler that holds an alarm for `upTime`. `millis()` is called at up to three
places. -/
def loop (upTime : UInt32) (isAlarm : ℤ → Bool) (t : ℕ → ℕ) (sensorRead : ℤ) (h : SensorHandler) : SensorHandler :=
  if h.Due t then
    let h := { h with useTimer := millis (t 1) }
    if isAlarm sensorRead then { h with detected := true, alarmTimer := millis (t 2) }
    else if millis (t 2) - h.alarmTimer > upTime then { h with detected := false }
    else h
  else h

/-- The readings of the clock that `loop` takes. -/
def readings (t : ℕ → ℕ) (h : SensorHandler) : List ℕ := if h.Due t then [t 0, t 1, t 2] else [t 0]

end SensorHandler

/-- `FLMAE_SENSOR_UP_TIME` -/
def flameSensorUpTime : UInt32 := 20000

/-- `SMOKE_SENSOR_UP_TIME` -/
def smokeSensorUpTime : UInt32 := 20000

/-- `PIR_SENSOR_UP_TIME` -/
def pirSensorUpTime : UInt32 := 10000

def isFlame (flameSensorRead : ℤ) : Bool := flameSensorRead < 950

def isSmoke (smokeSensorRead : ℤ) : Bool := smokeSensorRead > 330

/-- `FlameHandler::loop` -/
def FlameHandler.loop : (ℕ → ℕ) → ℤ → SensorHandler → SensorHandler := SensorHandler.loop flameSensorUpTime isFlame

/-- `SmokeHandler::loop` -/
def SmokeHandler.loop : (ℕ → ℕ) → ℤ → SensorHandler → SensorHandler := SensorHandler.loop smokeSensorUpTime isSmoke

/-- `class MotionHandler` -/
structure MotionHandler where
  motion : Bool
  timer : UInt32

/-- `MotionHandler::loop` -/
def MotionHandler.loop (t : ℕ) (pin : Level) (h : MotionHandler) : MotionHandler :=
  if pin = .high then { motion := true, timer := millis t }
  else if millis t - h.timer > pirSensorUpTime then { h with motion := false }
  else h

/-! ## The sketch -/

/-- The globals of `main.ino` that the sensors and the report use. -/
structure Sketch where
  motionHandler : MotionHandler
  flameHandler1 : SensorHandler
  flameHandler2 : SensorHandler
  smokeHandler : SensorHandler
  sendingTimer : UInt32

/-- What an iteration of `loop()` meets: the real time at the places where the clock may be
read, in their order, and what the sensors show. -/
structure Iteration where
  time : ℕ → ℕ
  pir : Level
  flame1 : ℤ
  flame2 : ℤ
  smoke : ℤ
  temperature : String
  humidity : String

/-- `POST_TO_SERVER_INTERVAL` -/
def postToServerInterval : UInt32 := 5000

/-- `String` of a `boolean`, which is promoted to `int`. -/
def boolString (b : Bool) : String := if b then "1" else "0"

/-- The data of a report. -/
structure Report where
  temperature : String
  humidity : String
  flame : Bool
  smoke : Bool
  motion : Bool

/-- The payload that `report_data_to_server` composes. -/
def Report.payload (r : Report) : String :=
  "\x7b" ++ "\"temperature\":" ++ r.temperature ++ "," ++ "\"humidity\":" ++ r.humidity ++ "," ++
    "\"flame\":" ++ boolString r.flame ++ "," ++ "\"smoke\":" ++ boolString r.smoke ++ "," ++
    "\"motion\":" ++ boolString r.motion ++ "\x7d"

namespace Sketch

/-- The part of `loop()` before the report. -/
def sense (s : Sketch) (e : Iteration) : Sketch :=
  { s with
    motionHandler := s.motionHandler.loop (e.time 0) e.pir
    flameHandler1 := FlameHandler.loop (fun i => e.time (1 + i)) e.flame1 s.flameHandler1
    flameHandler2 := FlameHandler.loop (fun i => e.time (4 + i)) e.flame2 s.flameHandler2
    smokeHandler := SmokeHandler.loop (fun i => e.time (7 + i)) e.smoke s.smokeHandler }

/-- It is time for a report. -/
def Posts (s : Sketch) (e : Iteration) : Prop := ¬ millis (e.time 10) - s.sendingTimer < postToServerInterval

instance (s : Sketch) (e : Iteration) : Decidable (s.Posts e) := inferInstanceAs (Decidable (¬ _))

/-- The data that a report has. -/
def reportData (s : Sketch) (e : Iteration) : Report where
  temperature := e.temperature
  humidity := e.humidity
  flame := s.flameHandler1.detected || s.flameHandler2.detected
  smoke := s.smokeHandler.detected
  motion := s.motionHandler.motion

/-- `report_data_to_server`, with the payload that it sends, if any. -/
def reportDataToServer (s : Sketch) (e : Iteration) : Sketch × Option String :=
  if s.Posts e then ({ s with sendingTimer := millis (e.time 11) }, some (s.reportData e).payload)
  else (s, none)

/-- **One iteration of `loop()`.** -/
def loop (s : Sketch) (e : Iteration) : Sketch × Option String := (s.sense e).reportDataToServer e

/-- The readings of the clock that the iteration takes, in their order. -/
def readings (s : Sketch) (e : Iteration) : List ℕ :=
  [e.time 0] ++ s.flameHandler1.readings (fun i => e.time (1 + i)) ++
    s.flameHandler2.readings (fun i => e.time (4 + i)) ++ s.smokeHandler.readings (fun i => e.time (7 + i)) ++
    if s.Posts e then [e.time 10, e.time 11] else [e.time 10]

/-! ## Runs -/

/-- The sketch before iteration `n`, from `s` on. -/
def before (s : Sketch) (e : ℕ → Iteration) : ℕ → Sketch
  | 0 => s
  | n + 1 => ((s.before e n).loop (e n)).1

/-- The sketch in iteration `n` when the report is due. -/
def sensed (s : Sketch) (e : ℕ → Iteration) (n : ℕ) : Sketch := (s.before e n).sense (e n)

/-- What iteration `n` sends. -/
def sent (s : Sketch) (e : ℕ → Iteration) (n : ℕ) : Option String := ((s.before e n).loop (e n)).2

/-- The sketch after `setup()`, which read the clock at `start` for the sending timer. The
timers of the handlers are older. -/
structure Starts (s : Sketch) (start : ℕ) : Prop where
  motion : s.motionHandler.motion = false
  flame1 : s.flameHandler1.detected = false
  flame2 : s.flameHandler2.detected = false
  smoke : s.smokeHandler.detected = false
  sendingTimer : s.sendingTimer = millis start

/-- The readings of round `n`: of `setup()`, then of the iterations. -/
def round (s : Sketch) (e : ℕ → Iteration) (start : ℕ) : ℕ → List ℕ
  | 0 => [start]
  | n + 1 => (s.before e n).readings (e n)

/-- **Time does not go back**, and no two readings of the same or consecutive rounds, up to
iteration `N`, are more than `G` apart. -/
structure Paced (s : Sketch) (e : ℕ → Iteration) (start G N : ℕ) : Prop where
  ordered : ∀ n < N, (s.round e start n ++ s.round e start (n + 1)).Pairwise (· ≤ ·)
  gap : ∀ n < N, ∀ t ∈ s.round e start n ++ s.round e start (n + 1),
    ∀ t' ∈ s.round e start n ++ s.round e start (n + 1), t' ≤ t + G

end Sketch

end ServerRoom
