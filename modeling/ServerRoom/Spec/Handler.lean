import ServerRoom.Spec.Receiver

/-!
# `NetworkConnection`, `NetworkHandler` and the main loop's use of them

`src/arduino/library/NetworkConnection.cpp`, `NetworkHandler.cpp`, and the network part
of `loop()` in `src/arduino/main/main.ino`: run the handler, perhaps report, then take
the received message out. A run is a list of iterations, each with what the
environment does in it.
-/

namespace ServerRoom

open ByteMem

/-- `PROTOCOl_RECIEVE_POKE_TIME` -/
def recievePokeTime : UInt32 := 12000

/-- `PROTOCOl_SEND_POKE_TIME` -/
def sendPokeTime : UInt32 := 5000

/-- The constructor of `NetworkInfo`; `t₀` and `t₁` are its two readings of `millis()`. -/
def NetworkInfo.new (networkId : UInt32) (serverKey networkKey : Key) (t₀ t₁ : UInt32) :
    NetworkInfo where
  networkId := networkId
  connectionNumber := 0
  serverKey := serverKey
  networkKey := networkKey
  client := ⟨0, [], []⟩
  lastPokeToServer := t₀
  lastPokeFromServer := t₁

/-- What one call of `NetworkHandler::loop` meets: whether the client is connected, the
Ethernet link and the stack memory for the ping, the readings of `millis()` in the order
of their places in the source, and the bytes that arrive before the receiver reads. -/
structure LoopEnv where
  connected : Bool
  link : Link
  stack : Packed
  millis : ℕ → UInt32
  arrived : List UInt8

namespace NetworkConnection

/-- `NetworkConnection::close_and_connect`; what the old connection still held is lost. -/
def closeAndConnect (t₀ t₁ : UInt32) (info : NetworkInfo) : NetworkInfo :=
  { info with
    client := ⟨info.client.connection + 1, [], []⟩
    lastPokeToServer := t₀
    lastPokeFromServer := t₁
    connectionNumber := info.connectionNumber + 1 }

/-- `NetworkConnection::keep_connection`, whose body is that of `close_and_connect`. -/
def keepConnection (connected : Bool) (t₀ t₁ : UInt32) (info : NetworkInfo) : NetworkInfo :=
  if !connected then closeAndConnect t₀ t₁ info else info

/-- `NetworkConnection::keep_connected` -/
def keepConnected (C : Crypto) (e : LoopEnv) (info : NetworkInfo) : NetworkInfo :=
  let info := keepConnection e.connected (e.millis 0) (e.millis 1) info
  -- heard from the server lately?
  let info :=
    if e.millis 2 - info.lastPokeFromServer > recievePokeTime then
      closeAndConnect (e.millis 3) (e.millis 4) info
    else info
  -- time to poke the server?
  if e.millis 5 - info.lastPokeToServer > sendPokeTime then
    match NetworkSender.send C info e.stack e.link 0x00 [] 0 with
    | (true, info) => { info with lastPokeToServer := e.millis 6 }
    | (false, info) => closeAndConnect (e.millis 6) (e.millis 7) info
  else info

end NetworkConnection

/-- `class NetworkHandler`: the connection data and the receiver. -/
structure NetworkHandler where
  info : NetworkInfo
  receiver : NetworkReceiver

/-- The arguments of a call of `NetworkHandler::send`, with its stack memory and link. -/
structure SendCall where
  stack : Packed
  link : Link
  messageType : UInt8
  payload : List UInt8
  payloadLength : UInt8

/-- What one iteration of the main loop meets. -/
structure IterEnv extends LoopEnv where
  report : Option SendCall

namespace NetworkHandler

/-- The handler after construction. -/
def new (info : NetworkInfo) : NetworkHandler := ⟨info, NetworkReceiver.new info⟩

/-- What the receiver meets in `NetworkHandler::loop`: the connection is kept, and
bytes have arrived on it. -/
def ready (C : Crypto) (e : LoopEnv) (h : NetworkHandler) : NetworkInfo :=
  let info := NetworkConnection.keepConnected C e h.info
  { info with client := { info.client with incoming := info.client.incoming ++ e.arrived } }

/-- `NetworkHandler::loop` -/
def loop (C : Crypto) (e : LoopEnv) (h : NetworkHandler) : NetworkHandler × List String :=
  let r := h.receiver.loop C (e.millis 8) (ready C e h)
  (⟨r.2.1, r.1⟩, r.2.2)

/-- `NetworkHandler::send` -/
def send (C : Crypto) (h : NetworkHandler) (c : SendCall) : Bool × NetworkHandler :=
  let r := NetworkSender.send C h.info c.stack c.link c.messageType c.payload c.payloadLength
  (r.1, { h with info := r.2 })

/-- What `loop()` in `main.ino` does with a received message: it takes it out. -/
def drain (h : NetworkHandler) : NetworkHandler × Option Message :=
  if h.receiver.isReceived then
    let (data, rx) := h.receiver.receive
    ({ h with receiver := rx }, some data)
  else (h, none)

/-- The network part of one iteration of `loop()` in `main.ino`: it returns the message
handed to `processing_unit`, if any. -/
def iterate (C : Crypto) (h : NetworkHandler) (e : IterEnv) : NetworkHandler × Option Message :=
  let h := (h.loop C e.toLoopEnv).1
  let h := match e.report with
    | none => h
    | some c => (h.send C c).2
  h.drain

/-- What a run has done: the bytes read on each connection, the frames processed (with
the connection they were read on) and the messages handed on. -/
structure History where
  read : ℕ → List UInt8
  frames : List (ℕ × List UInt8)
  messages : List Message

def History.empty : History := ⟨fun _ => [], [], []⟩

/-- The history after an iteration from `h`. -/
def History.record (C : Crypto) (H : History) (h : NetworkHandler) (e : IterEnv) : History :=
  let info := ready C e.toLoopEnv h
  let c := info.client.connection
  { read := Function.update H.read c (H.read c ++ h.receiver.consumed info)
    frames := H.frames ++ ((h.receiver.processed info).map (c, ·)).toList
    messages := H.messages ++ (h.iterate C e).2.toList }

/-- The frames processed on one connection. -/
def History.framesOn (H : History) (c : ℕ) : List (List UInt8) :=
  (H.frames.filter (·.1 = c)).map (·.2)

/-- A run of the main loop. -/
def run (C : Crypto) : NetworkHandler × History → List IterEnv → NetworkHandler × History
  | p, [] => p
  | (h, H), e :: es => run C ((h.iterate C e).1, H.record C h e) es

end NetworkHandler

end ServerRoom
