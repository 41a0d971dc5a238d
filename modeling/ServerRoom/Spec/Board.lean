import ServerRoom.Spec.Main
import ServerRoom.Spec.Sending
import ServerRoom.Spec.Sensors
import ServerRoom.Spec.Temperature

/-!
# The whole sketch

`setup()` and `loop()` of `src/arduino/main/main.ino`, over all the objects that they work on:
the temperature handler, the other sensors with the report, the network handler and the
servers' handler. `format` is what `String` makes of a float. `V` are the values of a float
that are not NaN.

An iteration meets what its parts meet (`Board.Env`). A run keeps a log: the frames and the
messages that the network handler read, what it handed to `ethernet_send_message`, and what
each visit read of a button.
-/

namespace ServerRoom

variable {V : Type}

/-- The bytes of a `String`. -/
def stringBytes (s : String) : List UInt8 := s.toList.map fun c => UInt8.ofNat c.toNat

/-- The globals of `main.ino`. -/
structure Board (V : Type) where
  temperatureHumidityHandler : TemperatureHumidityHandler V
  sensors : Sketch
  networkHandler : NetworkHandler
  serverHandler : ServersHandler

/-- What an iteration of `loop()` meets. The clock is read at `orderTime` when an order is
processed, and at `orderLater` when it is accepted; `stack` and `link` are those of a report. -/
structure Board.Env (V : Type) where
  measurement : Measurement V
  sensors : Iteration
  network : LoopEnv
  visits : ℕ → ServersHandler.Visit
  stack : Packed
  link : Link
  orderTime : ℕ
  orderLater : ℕ

/-! ## `setup()` -/

/-- The constructors of `FlameHandler` and `SmokeHandler`. -/
def SensorHandler.new (t₀ t₁ : ℕ) : SensorHandler := ⟨false, millis t₀, millis t₁⟩

/-- The constructor of `MotionHandler`. -/
def MotionHandler.new (t : ℕ) : MotionHandler := ⟨false, millis t⟩

/-- `SERVER_KEY` and `NETWORK_KEY`: sixteen times the letter F. -/
def mainKey : Key := Vector.replicate 16 0x46

/-- `NETWORK_ID` -/
def mainNetworkId : UInt32 := 0

/-- What the board meets up to the end of `setup()`: the readings of the clock, in the order of
their places in the source, and the memory that `malloc` gives for the pins. -/
structure Board.Boot where
  time : ℕ → ℕ
  relayPins : ℕ → UInt8
  buttonPins : ℕ → UInt8

/-- **The globals after `setup()`.** No pin was written before. -/
def Board.setup [Zero V] (e : Board.Boot) : Board V where
  temperatureHumidityHandler := TemperatureHumidityHandler.new.setup (e.time 12)
  sensors :=
    { motionHandler := .new (e.time 0)
      flameHandler1 := .new (e.time 1) (e.time 2)
      flameHandler2 := .new (e.time 3) (e.time 4)
      smokeHandler := .new (e.time 5) (e.time 6)
      sendingTimer := millis (e.time 13) }
  networkHandler := .new (.new mainNetworkId mainKey mainKey (millis (e.time 7)) (millis (e.time 8)))
  serverHandler := (ServersHandler.new 3 e.relayPins e.buttonPins (fun i => e.time (9 + i))
    ⟨fun _ => none, fun _ => []⟩).setup Wiring.main

namespace Board

/-! ## `loop()` -/

/-- `networkHandler.send(0x20, payload.c_str(), payload.length())`: the length is cut to 8 bits. -/
def sendCall (stack : Packed) (link : Link) (payload : String) : SendCall :=
  ⟨stack, link, 0x20, stringBytes payload, UInt8.ofNat (stringBytes payload).length⟩

/-- The temperature and the humidity of a report are the handler's. -/
def reporting (format : Reading V → String) (h : TemperatureHumidityHandler V) (e : Iteration) : Iteration :=
  { e with
    temperature := format h.getCurrentTemperature
    humidity := format h.getCurrentHumidity }

/-- **One iteration of `loop()`**, with the message that it hands to `processing_unit`, if any. -/
def loop (C : Crypto) (format : Reading V → String) (b : Board V) (e : Env V) : Board V × Option Message :=
  let temperatureHumidityHandler := (b.temperatureHumidityHandler.loop e.measurement).1
  let sensors := b.sensors.sense e.sensors
  let networkHandler := (b.networkHandler.loop C e.network).1
  let serverHandler := b.serverHandler.loop e.visits
  let (sensors, payload) := sensors.reportDataToServer (reporting format temperatureHumidityHandler e.sensors)
  let networkHandler := match payload with
    | none => networkHandler
    | some payload => (networkHandler.send C (sendCall e.stack e.link payload)).2
  let (networkHandler, data) := networkHandler.drain
  let serverHandler := match data with
    | none => serverHandler
    | some order => processingUnit serverHandler order e.orderTime e.orderLater
  (⟨temperatureHumidityHandler, sensors, networkHandler, serverHandler⟩, data)

/-- The payload that an iteration reports, if any. -/
def payload (format : Reading V → String) (b : Board V) (e : Env V) : Option String :=
  ((b.sensors.sense e.sensors).reportDataToServer
    (reporting format (b.temperatureHumidityHandler.loop e.measurement).1 e.sensors)).2

/-- What an iteration is for the network handler. -/
def iterEnv (format : Reading V → String) (b : Board V) (e : Env V) : IterEnv :=
  { e.network with report := (b.payload format e).map (sendCall e.stack e.link) }

/-! ## Runs -/

/-- The log of a run. -/
structure Log where
  history : NetworkHandler.History
  transcript : NetworkHandler.Transcript
  buttons : ℕ → List (List Level)

def Log.empty : Log := ⟨.empty, ⟨fun _ => []⟩, fun _ => []⟩

/-- The transcript after an iteration of the network handler. -/
def transcribe (C : Crypto) (T : NetworkHandler.Transcript) (h : NetworkHandler) (e : IterEnv) :
    NetworkHandler.Transcript :=
  let T := T.record C h (.loop e.toLoopEnv)
  match e.report with
  | none => T
  | some c => T.record C (h.loop C e.toLoopEnv).1 (.send c)

/-- The log after an iteration from `b`. -/
def Log.record (C : Crypto) (format : Reading V → String) (L : Log) (b : Board V) (e : Env V) : Log where
  history := L.history.record C b.networkHandler (b.iterEnv format e)
  transcript := transcribe C L.transcript b.networkHandler (b.iterEnv format e)
  buttons i := L.buttons i ++ [(e.visits i).readings]

/-- The board after `setup()`. -/
def Starts [Zero V] (b : Board V) : Prop := ∃ e, b = setup e

end Board

/-- **The sketch as a machine.** -/
def board [Zero V] (C : Crypto) (format : Reading V → String) : Runs.Machine (Board V) (Board.Env V) :=
  ⟨Board.Starts, fun b e => some (b.loop C format e).1⟩

/-- **The sketch with its log.** -/
def logged [Zero V] (C : Crypto) (format : Reading V → String) : Runs.Machine (Board V × Board.Log) (Board.Env V) :=
  (board C format).recording .empty (Board.Log.record C format)

end ServerRoom
