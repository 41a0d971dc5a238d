import Mathlib.Logic.Function.Basic
import ServerRoom.Lib.Runs
import ServerRoom.Spec.Handler

/-!
# What the Arduino writes

`NetworkHandler` under any sequence of calls of its methods, as the sketch may make them,
with a transcript: what was handed to `ethernet_send_message` on each connection, and
whether the client was connected and which writes it took.
-/

namespace ServerRoom

open ByteMem

/-- A call of a method of `NetworkHandler`, and what it meets. -/
inductive Call
  | loop (e : LoopEnv)
  | send (c : SendCall)
  | receive

/-- What `send` hands to `ethernet_send_message`. -/
def NetworkSender.handed (C : Crypto) (info : NetworkInfo) (stack : Packed) (link : Link) (messageType : UInt8)
    (payload : List UInt8) (payloadLength : UInt8) : List (Packed × Link) :=
  if payloadLength.toNat > maxPayloadLength then []
  else [(buildMessage C info stack messageType payload payloadLength, link)]

namespace NetworkConnection

/-- `keep_connected` up to the time for a poke: what it may do before that is to connect
anew. -/
def beforePoke (e : LoopEnv) (info : NetworkInfo) : NetworkInfo :=
  let info := keepConnection e.connected (e.millis 0) (e.millis 1) info
  if e.millis 2 - info.lastPokeFromServer > recievePokeTime then
    closeAndConnect (e.millis 3) (e.millis 4) info
  else info

/-- It is time to poke the server. -/
def Pokes (e : LoopEnv) (info : NetworkInfo) : Prop :=
  e.millis 5 - (beforePoke e info).lastPokeToServer > sendPokeTime

instance (e : LoopEnv) (info : NetworkInfo) : Decidable (Pokes e info) :=
  inferInstanceAs (Decidable (_ > _))

end NetworkConnection

namespace NetworkHandler

/-- What a call hands to `ethernet_send_message`, and on which connection. -/
def hands (C : Crypto) (h : NetworkHandler) : Call → ℕ × List (Packed × Link)
  | .loop e =>
    let info := NetworkConnection.beforePoke e h.info
    (info.client.connection,
      if NetworkConnection.Pokes e h.info then NetworkSender.handed C info e.stack e.link 0x00 [] 0 else [])
  | .send c =>
    (h.info.client.connection,
      NetworkSender.handed C h.info c.stack c.link c.messageType c.payload c.payloadLength)
  | .receive => (h.info.client.connection, [])

/-- What was handed to `ethernet_send_message` on each connection. -/
structure Transcript where
  sent : ℕ → List (Packed × Link)

/-- The transcript after a call. -/
def Transcript.record (C : Crypto) (T : Transcript) (h : NetworkHandler) (a : Call) : Transcript :=
  let (connection, calls) := h.hands C a
  ⟨Function.update T.sent connection (T.sent connection ++ calls)⟩

def step (C : Crypto) (h : NetworkHandler) : Call → Option NetworkHandler
  | .loop e => some (h.loop C e).1
  | .send c => some (h.send C c).2
  | .receive => some h.drain.1

/-- The handler after construction. -/
def Starts (h : NetworkHandler) : Prop :=
  ∃ networkId serverKey networkKey t₀ t₁, h = new (NetworkInfo.new networkId serverKey networkKey t₀ t₁)

end NetworkHandler

/-- **The network handler as a machine.** -/
def networkHandler (C : Crypto) : Runs.Machine NetworkHandler Call := ⟨NetworkHandler.Starts, NetworkHandler.step C⟩

/-- **The network handler with its transcript.** -/
def transcribed (C : Crypto) : Runs.Machine (NetworkHandler × NetworkHandler.Transcript) Call :=
  (networkHandler C).recording ⟨fun _ => []⟩ (NetworkHandler.Transcript.record C)

/-- The calls that one iteration of `loop()` in `main.ino` makes. -/
def IterEnv.calls (e : IterEnv) : List Call :=
  .loop e.toLoopEnv :: (e.report.map Call.send).toList ++ [.receive]

end ServerRoom
