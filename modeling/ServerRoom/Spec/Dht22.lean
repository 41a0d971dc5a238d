import ServerRoom.Lib.Pulses
import ServerRoom.Lib.Runs
import ServerRoom.Spec.Temperature

/-!
# The driver of the DHT22 sensor

`read` in `src/arduino/library/cactus_io_DHT22.cpp`, the two functions that call it, and
`TemperatureHumidityHandler` on top of them. The sensor answers on a line that `digitalRead`
polls. `data` is the memory from the array of this name on, so that a write behind its six
bytes would be seen. The values are in tenths: the division by 10 is not made.
-/

namespace ServerRoom

/-- A value in tenths; the sign stands apart. -/
structure Tenths where
  negative : Bool
  tenths : ℕ
  deriving DecidableEq

instance : Zero Tenths := ⟨⟨false, 0⟩⟩

namespace DHT22

/-- `MAXTIMINGS` -/
def maxTimings : ℕ := 85

/-- The private part of `class DHT22`. -/
structure Driver where
  data : ℕ → UInt8
  count : UInt8
  lastreadtime : UInt32
  firstreading : Bool

/-- What a call of `read` meets: the two times at which the clock is read, and the line, from the
first call of `digitalRead` on. -/
structure Transfer where
  now : ℕ
  later : ℕ
  line : ℕ → Level

/-- The local variables of `read`, with the number of calls of `digitalRead`. -/
structure Timings where
  data : ℕ → UInt8
  j : ℕ
  laststate : Level
  polls : ℕ

/-- A bit goes into the storage bytes. -/
def Timings.store (t : Timings) (bit : Bool) : Timings :=
  { t with data := Function.update t.data (t.j / 8) (Pulses.shiftIn (t.data (t.j / 8)) bit), j := t.j + 1 }

/-- The loop that reads in the timings, with `left` of them to come. -/
def timings (count : UInt8) (line : ℕ → Level) : ℕ → Timings → Timings
  | 0, t => t
  | left + 1, t =>
    let i := maxTimings - (left + 1)
    let (counter, polls) := Pulses.count line t.laststate 255 t.polls
    let t := { t with laststate := line polls, polls := polls + 1 }
    if counter = 255 then t
    else timings count line left (if i ≥ 4 ∧ i % 2 = 0 then t.store (counter > count.toNat) else t)

namespace Driver

/-- The constructor, on some memory. -/
def new (memory : ℕ → UInt8) (lastreadtime : UInt32) : Driver := ⟨memory, 6, lastreadtime, true⟩

def begin (d : Driver) : Driver := { d with lastreadtime := 0 }

/-- The first five bytes are cleared. -/
def clear (data : ℕ → UInt8) : ℕ → UInt8 := fun k => if k < 5 then 0 else data k

/-- Where the loop of `read` starts, and where it ends. -/
def transfer (d : Driver) (line : ℕ → Level) : Timings :=
  timings d.count line maxTimings ⟨clear d.data, 0, .high, 0⟩

/-- After a rollover of the clock, the last reading counts as made at its start. -/
def rollover (d : Driver) (now : ℕ) : Driver := if millis now < d.lastreadtime then { d with lastreadtime := 0 } else d

/-- The last reading is to be used again. -/
def Recent (d : Driver) (now : ℕ) : Prop :=
  d.firstreading = false ∧ millis now - (d.rollover now).lastreadtime < 2000

instance (d : Driver) (now : ℕ) : Decidable (d.Recent now) := inferInstanceAs (Decidable (_ ∧ _))

/-- The fifth byte is the sum of the others. -/
def Checked (data : ℕ → UInt8) : Prop := data 4 = data 0 + data 1 + data 2 + data 3

instance (data : ℕ → UInt8) : Decidable (Checked data) := inferInstanceAs (Decidable (_ = _))

/-- **`DHT22::read`** -/
def read (d : Driver) (e : Transfer) : Bool × Driver :=
  if d.Recent e.now then (true, d.rollover e.now)
  else
    let t := d.transfer e.line
    (t.j ≥ 40 ∧ Checked t.data, ⟨t.data, d.count, millis e.later, false⟩)

/-- What `readHumidity` makes of the bytes. -/
def humidity (data : ℕ → UInt8) : Tenths := ⟨false, (data 0).toNat * 256 + (data 1).toNat⟩

/-- What `readTemperature` makes of the bytes: the highest bit is the sign. -/
def temperature (data : ℕ → UInt8) : Tenths :=
  ⟨data 2 &&& 0x80 ≠ 0, (data 2 &&& 0x7F).toNat * 256 + (data 3).toNat⟩

/-- `DHT22::readHumidity`, with the value that it puts into its field. -/
def readHumidity (d : Driver) (e : Transfer) : Reading Tenths × Driver :=
  let (ok, d) := d.read e
  (if ok then .value (humidity d.data) else .nan, d)

/-- `DHT22::readTemperature` -/
def readTemperature (d : Driver) (e : Transfer) : Reading Tenths × Driver :=
  let (ok, d) := d.read e
  (if ok then .value (temperature d.data) else .nan, d)

end Driver

end DHT22

/-! ## The handler and the driver -/

/-- `TemperatureHumidityHandler` with its sensor. -/
structure Thermometer where
  handler : TemperatureHumidityHandler Tenths
  driver : DHT22.Driver

namespace Thermometer

/-- What a call of `loop` meets, and what the two reads meet, if they are made. -/
structure Visit where
  now : ℕ
  later : ℕ
  humidity : DHT22.Transfer
  temperature : DHT22.Transfer

/-- The sensor is read. -/
def Reads (p : Thermometer) (now : ℕ) : Prop :=
  p.handler.Due now ∧ p.handler.dht.humidity.isnan = false ∧ p.handler.dht.temperatureC.isnan = false

instance (p : Thermometer) (now : ℕ) : Decidable (p.Reads now) := inferInstanceAs (Decidable (_ ∧ _))

/-- What the sensor answers. -/
def measurement (p : Thermometer) (e : Visit) : Measurement Tenths :=
  let (humidity, driver) := p.driver.readHumidity e.humidity
  let (temperature, _) := driver.readTemperature e.temperature
  ⟨e.now, e.later, humidity, temperature⟩

/-- **`TemperatureHumidityHandler::loop`**, with the driver. -/
def loop (p : Thermometer) (e : Visit) : Thermometer where
  handler := (p.handler.loop (p.measurement e)).1
  driver := if p.Reads e.now then ((p.driver.readHumidity e.humidity).2.readTemperature e.temperature).2 else p.driver

/-- The thermometer after `setup()`. -/
def Starts (p : Thermometer) : Prop :=
  ∃ memory lastreadtime start, p = ⟨TemperatureHumidityHandler.new.setup start, (DHT22.Driver.new memory lastreadtime).begin⟩

end Thermometer

/-- **The thermometer as a machine.** -/
def thermometer : Runs.Machine Thermometer Thermometer.Visit := ⟨Thermometer.Starts, fun p e => some (p.loop e)⟩

end ServerRoom
