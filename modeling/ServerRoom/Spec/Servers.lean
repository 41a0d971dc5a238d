import Mathlib.Data.List.Basic
import Mathlib.Logic.Function.Basic
import ServerRoom.Lib.Runs

/-!
# `ServersHandler`

`src/arduino/library/ServersHandler.cpp`, and how `setup()` in `src/arduino/main/main.ino`
wires it. The arrays are functions of the server's index. `millis t` is what `millis()`
returns at the real time `t`, in milliseconds.

The handler is a machine whose steps are the calls of its commands and the two halves of a
visit of `loop` to a server: the push button, then the operation.
-/

namespace ServerRoom

/-! ## The board -/

inductive Level
  | low
  | high
  deriving DecidableEq

inductive PinMode
  | output
  | inputPullup
  deriving DecidableEq

/-- The pins: their modes, and what was written to each. -/
structure Pins where
  mode : UInt8 → Option PinMode
  written : UInt8 → List Level

namespace Pins

def pinMode (p : Pins) (pin : UInt8) (m : PinMode) : Pins := { p with mode := Function.update p.mode pin (some m) }

def digitalWrite (p : Pins) (pin : UInt8) (v : Level) : Pins :=
  { p with written := Function.update p.written pin (p.written pin ++ [v]) }

/-- The level that an output pin drives: the last that was written, and LOW before. -/
def drives (p : Pins) (pin : UInt8) : Option Level :=
  if p.mode pin = some .output then some ((p.written pin).getLastD .low) else none

end Pins

/-- `millis()` at the real time `t`. -/
def millis (t : ℕ) : UInt32 := UInt32.ofNat t

/-! ## The handler -/

/-- `NO_OP`, `SERVER_TURN_ON_OP`, .., `SERVER_RESTART_OP2` -/
inductive Operation
  | noOp
  | serverTurnOnOp
  | serverTurnOffOp
  | serverRestartOp
  | serverRestartOp2
  deriving DecidableEq

/-- The orders that a server can be given. -/
inductive Order
  | turnOn
  | turnOff
  | restart
  deriving DecidableEq

/-- `SERVER_PING_TIME` -/
def serverPingTime : UInt32 := 60000

/-- `TURN_ON_DELAY` -/
def turnOnDelay : UInt32 := 2000

/-- `TURN_OFF_DELAY` -/
def turnOffDelay : UInt32 := 5000

/-- `RESTART_OFF_ON_DELAY` -/
def restartOffOnDelay : UInt32 := 5000

/-- `class ServersHandler`, with the pins that it works on. -/
structure ServersHandler where
  serversRelayPins : ℕ → UInt8
  serversPushButtonPins : ℕ → UInt8
  serversOperation : ℕ → Operation
  serversTimers : ℕ → UInt32
  serversLastPing : ℕ → UInt32
  serversCount : UInt8
  pins : Pins

namespace ServersHandler

/-- The constructor. The pin arrays are memory from `malloc`; `start i` is when the clock is
read for server `i`. -/
def new (serversCount : UInt8) (relayPins buttonPins : ℕ → UInt8) (start : ℕ → ℕ) (pins : Pins) :
    ServersHandler where
  serversRelayPins := relayPins
  serversPushButtonPins := buttonPins
  serversOperation _ := .noOp
  serversTimers i := millis (start i)
  serversLastPing i := millis (start i)
  serversCount := serversCount
  pins := pins

def setPushButtonPin (h : ServersHandler) (index pin : UInt8) : Bool × ServersHandler :=
  if index ≥ h.serversCount then (false, h)
  else (true, { h with
    serversPushButtonPins := Function.update h.serversPushButtonPins index.toNat pin
    pins := h.pins.pinMode pin .inputPullup })

def setRelayPin (h : ServersHandler) (index pin : UInt8) : Bool × ServersHandler :=
  if index ≥ h.serversCount then (false, h)
  else (true, { h with
    serversRelayPins := Function.update h.serversRelayPins index.toNat pin
    pins := h.pins.pinMode pin .output })

/-- `connect` closes the relay. -/
def connect (h : ServersHandler) (i : ℕ) : ServersHandler :=
  { h with pins := h.pins.digitalWrite (h.serversRelayPins i) .low }

/-- `disconnect` opens it. -/
def disconnect (h : ServersHandler) (i : ℕ) : ServersHandler :=
  { h with pins := h.pins.digitalWrite (h.serversRelayPins i) .high }

def setOperation (h : ServersHandler) (i : ℕ) (op : Operation) : ServersHandler :=
  { h with serversOperation := Function.update h.serversOperation i op }

def setTimer (h : ServersHandler) (i : ℕ) (t : ℕ) : ServersHandler :=
  { h with serversTimers := Function.update h.serversTimers i (millis t) }

def isServerOn (h : ServersHandler) (i : ℕ) (t : ℕ) : Bool := millis t - h.serversLastPing i < serverPingTime

def isServerOff (h : ServersHandler) (i : ℕ) (t : ℕ) : Bool := !h.isServerOn i t

/-- What `turnOn`, `turnOff` and `restart` do, which differ in the operation and in the test
that refuses it. After the last statement there is no `return`. -/
def begin (h : ServersHandler) (index : UInt8) (op : Operation) (refuses : Bool) (t : ℕ) :
    Option Bool × ServersHandler :=
  if index ≥ h.serversCount then (some false, h)
  else if h.serversOperation index.toNat ≠ .noOp then (some false, h)
  else if refuses then (some false, h)
  else (none, ((h.setOperation index.toNat op).connect index.toNat).setTimer index.toNat t)

/-- `turnOn`; the clock is read at `t₀` and at `t₁`. -/
def turnOn (h : ServersHandler) (index : UInt8) (t₀ t₁ : ℕ) : Option Bool × ServersHandler :=
  h.begin index .serverTurnOnOp (h.isServerOn index.toNat t₀) t₁

def turnOff (h : ServersHandler) (index : UInt8) (t₀ t₁ : ℕ) : Option Bool × ServersHandler :=
  h.begin index .serverTurnOffOp (h.isServerOff index.toNat t₀) t₁

def restart (h : ServersHandler) (index : UInt8) (t₀ t₁ : ℕ) : Option Bool × ServersHandler :=
  h.begin index .serverRestartOp (h.isServerOff index.toNat t₀) t₁

/-- One of the three, by name. -/
def execute (h : ServersHandler) : Order → UInt8 → ℕ → ℕ → Option Bool × ServersHandler
  | .turnOn => h.turnOn
  | .turnOff => h.turnOff
  | .restart => h.restart

def pingFromServer (h : ServersHandler) (index : UInt8) (t : ℕ) : ServersHandler :=
  if index ≥ h.serversCount then h
  else { h with serversLastPing := Function.update h.serversLastPing index.toNat (millis t) }

/-- The push button half of a visit: `readings` are the levels that are read one after the
other; at their end the button is released. -/
def handleButton (h : ServersHandler) (i : ℕ) (buttonFlag : Bool) : List Level → ServersHandler
  | .low :: level :: readings =>
    if level = .low then (h.connect i).handleButton i true readings else h.handleButton i buttonFlag readings
  | _ => if buttonFlag then h.disconnect i else h

/-- The operation half of a visit: the clock is read at `now` for the comparison, and at
`later` for the timer. -/
def handleOperation (h : ServersHandler) (i : ℕ) (now later : ℕ) : ServersHandler :=
  match h.serversOperation i with
  | .serverTurnOnOp =>
    if millis now - h.serversTimers i > turnOnDelay then (h.disconnect i).setOperation i .noOp else h
  | .serverTurnOffOp =>
    if millis now - h.serversTimers i > turnOffDelay then (h.disconnect i).setOperation i .noOp else h
  | .serverRestartOp =>
    if millis now - h.serversTimers i > turnOffDelay then
      ((h.disconnect i).setOperation i .serverRestartOp2).setTimer i later
    else h
  | .serverRestartOp2 =>
    if millis now - h.serversTimers i > restartOffOnDelay then
      ((h.connect i).setTimer i later).setOperation i .serverTurnOnOp
    else h
  | .noOp => h

/-- What a visit of `loop` to one server meets. -/
structure Visit where
  readings : List Level
  now : ℕ
  later : ℕ

def visit (h : ServersHandler) (i : ℕ) (v : Visit) : ServersHandler :=
  (h.handleButton i false v.readings).handleOperation i v.now v.later

/-- **`ServersHandler::loop`** -/
def loop (h : ServersHandler) (v : ℕ → Visit) : ServersHandler :=
  (List.range h.serversCount.toNat).foldl (fun h i => h.visit i (v i)) h

end ServersHandler

/-! ## Setup -/

/-- How the servers are wired: a relay has a pin of its own. -/
structure Wiring where
  serversCount : UInt8
  pushButtonPin : ℕ → UInt8
  relayPin : ℕ → UInt8
  relay_inj : ∀ i < serversCount.toNat, ∀ j < serversCount.toNat, relayPin i = relayPin j → i = j
  relay_ne_button : ∀ i < serversCount.toNat, ∀ j < serversCount.toNat, relayPin i ≠ pushButtonPin j

/-- The wiring in `src/arduino/main/DefinedPins.h`. -/
def Wiring.main : Wiring where
  serversCount := 3
  pushButtonPin i := [35, 36, 37].getD i 0
  relayPin i := [30, 31, 32].getD i 0
  relay_inj := by decide
  relay_ne_button := by decide

/-- The part of `setup()` in `main.ino` that is about the servers. -/
def ServersHandler.setup (w : Wiring) (h : ServersHandler) : ServersHandler :=
  (List.range w.serversCount.toNat).foldl (fun h i =>
    ((h.setPushButtonPin (UInt8.ofNat i) (w.pushButtonPin i)).2.setRelayPin (UInt8.ofNat i) (w.relayPin i)).2) h

/-- The handler of `main.ino` after `setup()`, on a board that was reset. -/
def ServersHandler.main : ServersHandler :=
  (ServersHandler.new 3 (fun _ => 0) (fun _ => 0) (fun _ => 0) ⟨fun _ => none, fun _ => []⟩).setup Wiring.main

/-! ## The machine -/

/-- Where the processor is: outside `ServersHandler`, or in `loop` before one of the halves
of a visit. -/
inductive Place
  | idle
  | button (i : ℕ)
  | operation (i : ℕ)
  deriving DecidableEq

/-- A step: `loop` is called, one of its halves is executed, or an order or a ping comes in. -/
inductive Command
  | loop
  | button (readings : List Level)
  | operation (now later : ℕ)
  | order (o : Order) (index : UInt8) (t₀ t₁ : ℕ)
  | pingFromServer (index : UInt8) (t : ℕ)

namespace ServersHandler

/-- Where `loop` goes for server `i`. -/
def place (h : ServersHandler) (i : ℕ) : Place := if i < h.serversCount.toNat then .button i else .idle

def step : ServersHandler × Place → Command → Option (ServersHandler × Place)
  | (h, .idle), .loop => some (h, h.place 0)
  | (h, .button i), .button readings => some (h.handleButton i false readings, .operation i)
  | (h, .operation i), .operation now later => some (h.handleOperation i now later, h.place (i + 1))
  | (h, .idle), .order o index t₀ t₁ => some ((h.execute o index t₀ t₁).2, .idle)
  | (h, .idle), .pingFromServer index t => some (h.pingFromServer index t, .idle)
  | _, _ => none

/-- After `setup()`: nothing was written to a relay's pin before. -/
def Starts (w : Wiring) (s : ServersHandler × Place) : Prop :=
  ∃ relayPins buttonPins start pins, (∀ i < w.serversCount.toNat, pins.written (w.relayPin i) = []) ∧
    s = ((new w.serversCount relayPins buttonPins start pins).setup w, .idle)

theorem main_starts : Starts Wiring.main (main, .idle) :=
  ⟨fun _ => 0, fun _ => 0, fun _ => 0, ⟨fun _ => none, fun _ => []⟩, fun _ _ => rfl, rfl⟩

end ServersHandler

/-- **The servers' handler as a machine.** -/
def serversHandler (w : Wiring) : Runs.Machine (ServersHandler × Place) Command :=
  ⟨ServersHandler.Starts w, ServersHandler.step⟩

end ServerRoom
