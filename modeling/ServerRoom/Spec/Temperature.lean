import ServerRoom.Spec.Servers

/-!
# Temperature and humidity

`src/arduino/library/TemperatureHumidityHandler.cpp`, and the fields of `cactus_io_DHT22.cpp`
that it uses. `V` are the values of a `float` that are not NaN. What the sensor answers is an
argument of each call: `readHumidity` and `readTemperature` set their field to it.
-/

namespace ServerRoom

variable {V : Type}

/-- A `float`. -/
inductive Reading (V : Type)
  | value (v : V)
  | nan
  deriving DecidableEq

namespace Reading

def isnan : Reading V → Bool
  | value _ => false
  | nan => true

/-- A global is zero before its constructor, which sets none of the fields. -/
def zero [Zero V] : Reading V := .value 0

end Reading

/-- `class DHT22`: what was read last. -/
structure DHT22 (V : Type) where
  humidity : Reading V
  temperatureC : Reading V

namespace DHT22

def readHumidity (dht : DHT22 V) (answer : Reading V) : DHT22 V := { dht with humidity := answer }

def readTemperature (dht : DHT22 V) (answer : Reading V) : DHT22 V := { dht with temperatureC := answer }

end DHT22

/-- `DHT22_SENSOR_INTERVAL_TIME` -/
def dht22SensorIntervalTime : UInt32 := 3000

/-- What a call of `loop` meets: the two times at which the clock is read, and what the sensor
answers if it is asked. -/
structure Measurement (V : Type) where
  now : ℕ
  later : ℕ
  humidity : Reading V
  temperature : Reading V

/-- Both reads succeed. -/
def Measurement.Succeeds (c : Measurement V) : Prop := c.humidity.isnan = false ∧ c.temperature.isnan = false

/-- `class TemperatureHumidityHandler` -/
structure TemperatureHumidityHandler (V : Type) where
  temperature : Reading V
  humidity : Reading V
  timer : UInt32
  dht : DHT22 V

namespace TemperatureHumidityHandler

/-- The handler of `main.ino`, which is a global. -/
def new [Zero V] : TemperatureHumidityHandler V := ⟨.zero, .zero, 0, ⟨.zero, .zero⟩⟩

def setup (h : TemperatureHumidityHandler V) (t : ℕ) : TemperatureHumidityHandler V := { h with timer := millis t }

def getCurrentTemperature (h : TemperatureHumidityHandler V) : Reading V := h.temperature

def getCurrentHumidity (h : TemperatureHumidityHandler V) : Reading V := h.humidity

/-- The interval has elapsed. -/
def Due (h : TemperatureHumidityHandler V) (now : ℕ) : Prop := millis now - h.timer ≥ dht22SensorIntervalTime

instance (h : TemperatureHumidityHandler V) (now : ℕ) : Decidable (h.Due now) :=
  inferInstanceAs (Decidable (_ ≥ dht22SensorIntervalTime))

/-- **`TemperatureHumidityHandler::loop`**, with the error that it reports, if any. -/
def loop (h : TemperatureHumidityHandler V) (c : Measurement V) : TemperatureHumidityHandler V × Option String :=
  if h.Due c.now then
    let h := { h with timer := millis c.later }
    -- the fields of the last reading, not those of the next
    if h.dht.humidity.isnan || h.dht.temperatureC.isnan then (h, some "DHT sensor read failure!")
    else
      let h := { h with dht := h.dht.readHumidity c.humidity }
      let h := { h with humidity := h.dht.humidity }
      let h := { h with dht := h.dht.readTemperature c.temperature }
      ({ h with temperature := h.dht.temperatureC }, none)
  else (h, none)

/-- The handler after some calls of `loop`. -/
def run (h : TemperatureHumidityHandler V) (cs : List (Measurement V)) : TemperatureHumidityHandler V :=
  cs.foldl (fun h c => (h.loop c).1) h

/-- `P` holds at each of some calls, of the handler before it and of what it meets. -/
def AtEach (P : TemperatureHumidityHandler V → Measurement V → Prop) (h : TemperatureHumidityHandler V) :
    List (Measurement V) → Prop
  | [] => True
  | c :: cs => P h c ∧ AtEach P (h.loop c).1 cs

end TemperatureHumidityHandler

end ServerRoom
