import ServerRoom.Spec.Sender

/-!
# The Arduino's `NetworkReceiver`

`src/arduino/library/NetworkReceiver.cpp`, and `NetworkHandler::receive`. One call of
`loop` fills the buffer from the client's incoming bytes (`fill`) and, when a whole
message is there, processes it (`finish`).
-/

namespace ServerRoom

open ByteMem

/-- `class NetworkReceiver`. The object is global, so it starts zeroed. -/
structure NetworkReceiver where
  receivedMessage : Packed
  isMessageReceived : Bool
  connectionNumber : UInt8
  index : ℕ

/-- `struct Message`: what a received message is to `main.ino`. -/
structure Message where
  senderIdentifier : List UInt8
  messageType : UInt8
  payloadLength : UInt8
  payload : List UInt8
  deriving DecidableEq

namespace NetworkReceiver

/-- The constructor. -/
def new (info : NetworkInfo) : NetworkReceiver where
  receivedMessage := fun _ => 0
  isMessageReceived := false
  connectionNumber := info.connectionNumber
  index := 0

/-- `NetworkReceiver::ntoh_handling` -/
def ntohHandling (m : Packed) : Packed :=
  let m := m.setHmacForServer (ntohl m.hmacForServer)
  let m := m.setNetworkId (ntohl m.networkId)
  m.setUnixTimestamp (ntohll m.unixTimestamp)

/-- `NetworkReceiver::handle_ping_message`: whether the buffer holds a ping that the
relay server signed. The signature is swapped for the comparison and swapped back. -/
def handlePingMessage (C : Crypto) (now : UInt32) (rx : NetworkReceiver) (info : NetworkInfo) :
    Bool × NetworkReceiver × NetworkInfo :=
  let m := rx.receivedMessage
  if m.payloadLength ≠ 0x00 then (false, rx, info)
  else if m.hmacForNetwork ≠ 0xFFFFFFFF then (false, rx, info)
  else if m.aesVectorWord ≠ 0xFFFFFFFFFFFFFFFF then (false, rx, info)
  else
    let m := m.setHmacForServer (ntohl m.hmacForServer)
    let receivedHash := slice m 0 4
    let m := m.setHmacForServer (htonl m.hmacForServer)
    let rx := { rx with receivedMessage := m }
    let hashBuffer :=
      C.hmac info.serverKey (slice m 8 (headerLength + m.payloadLength.toNat - 8)) 4
    if hashBuffer ≠ receivedHash then (false, rx, info)
    else (true, rx, { info with lastPokeFromServer := now })

/-- `NetworkReceiver::decrypt_message` -/
def decryptMessage (C : Crypto) (info : NetworkInfo) (m : Packed) : Packed :=
  let iv := C.hmac info.networkKey m.aesVector 16
  write m 32 (C.ctr info.networkKey iv (slice m 32 (m.payloadLength.toNat + 16)))

/-- `NetworkReceiver::is_valid_message`, with what it reports to the error handler. -/
def isValidMessage (C : Crypto) (rx : NetworkReceiver) (info : NetworkInfo) :
    Bool × NetworkReceiver × List String :=
  let m := rx.receivedMessage
  if rx.index < headerLength then (false, rx, [])
  else if info.networkId ≠ m.networkId then
    (false, rx, ["Error in received message, Not my network id."])
  else
    let m := m.setHmacForNetwork (ntohl m.hmacForNetwork)
    let rx := { rx with receivedMessage := m }
    let hashBuffer :=
      C.hmac info.networkKey (slice m 8 (headerLength + m.payloadLength.toNat - 8)) 4
    if hashBuffer ≠ slice m 4 4 then (false, rx, ["FAILED IN MESSAGE HASH RECEIVED!!"])
    else (true, rx, [])

/-- The first step of `loop`: a new connection empties the buffer. -/
def syncConnection (rx : NetworkReceiver) (info : NetworkInfo) : NetworkReceiver :=
  if rx.connectionNumber ≠ info.connectionNumber then
    { rx with connectionNumber := info.connectionNumber, isMessageReceived := false, index := 0 }
  else rx

/-- A message left in the buffer makes room for a new one. -/
def resetReceived (rx : NetworkReceiver) : NetworkReceiver :=
  if rx.isMessageReceived then { rx with isMessageReceived := false, index := 0 } else rx

/-- `NetworkReceiver::is_received` -/
def isReceived (rx : NetworkReceiver) : Bool := rx.isMessageReceived

/-- Where the reading loop stands: the buffer, `index`, `max_value_to_be_read`, and the
bytes that the client still holds. -/
structure Reading where
  mem : Packed
  index : ℕ
  max : ℕ
  rest : List UInt8

/-- The reading loop of `loop`. -/
def readBytes (m : Packed) (index max : ℕ) : List UInt8 → Reading
  | [] => ⟨m, index, max, []⟩
  | b :: bs =>
    if index < max then
      let m : Packed := put m index b
      let index := index + 1
      let max := if headerLength ≤ index then headerLength + m.payloadLength.toNat else max
      readBytes m index max bs
    else ⟨m, index, max, b :: bs⟩

/-- Where `loop` stands after reading; `complete` when a whole message is there. -/
structure Filled where
  rx : NetworkReceiver
  info : NetworkInfo
  complete : Bool

/-- `loop` up to the test whether all of the message is read. -/
def fill (rx : NetworkReceiver) (info : NetworkInfo) : Filled :=
  let rx := syncConnection rx info
  if info.client.incoming = [] then ⟨rx, info, false⟩
  else
    let rx := resetReceived rx
    let r := readBytes rx.receivedMessage rx.index maxMessageLength info.client.incoming
    ⟨{ rx with receivedMessage := r.mem, index := r.index },
      { info with client := { info.client with incoming := r.rest } }, r.index = r.max⟩

/-- `loop` from there on, when a whole message is in the buffer. -/
def finish (C : Crypto) (now : UInt32) (rx : NetworkReceiver) (info : NetworkInfo) :
    NetworkReceiver × NetworkInfo × List String :=
  match handlePingMessage C now rx info with
  | (true, rx, info) => ({ rx with isMessageReceived := false, index := 0 }, info, [])
  | (false, rx, info) =>
    match isValidMessage C rx info with
    | (true, rx, reports) =>
      let m := ntohHandling rx.receivedMessage
      let m := decryptMessage C info m
      ({ rx with receivedMessage := m, isMessageReceived := true }, info, reports)
    | (false, rx, reports) =>
      ({ rx with isMessageReceived := false, index := 0 }, info, reports ++ ["NOT VALID MESSAGE"])

/-- `NetworkReceiver::loop`, with what it reports. `now` is the reading of `millis()`
when a ping is recognised. -/
def loop (C : Crypto) (now : UInt32) (rx : NetworkReceiver) (info : NetworkInfo) :
    NetworkReceiver × NetworkInfo × List String :=
  let f := fill rx info
  if f.complete then finish C now f.rx f.info else (f.rx, f.info, [])

/-- The frame that this call of `loop` processes, if any: the bytes of the buffer when
`handle_ping_message` is called. -/
def processed (rx : NetworkReceiver) (info : NetworkInfo) : Option (List UInt8) :=
  let f := fill rx info
  if f.complete then some (slice f.rx.receivedMessage 0 f.rx.index) else none

/-- The bytes that this call of `loop` takes from the client. -/
def consumed (rx : NetworkReceiver) (info : NetworkInfo) : List UInt8 :=
  info.client.incoming.take
    (info.client.incoming.length - (fill rx info).info.client.incoming.length)

/-- Successive calls of `loop` on one connection. Before each, more bytes arrive; with
them comes the reading of `millis()`. -/
def feed (C : Crypto) : NetworkReceiver × NetworkInfo → List (UInt32 × List UInt8) →
    NetworkReceiver × NetworkInfo
  | p, [] => p
  | (rx, info), (now, bytes) :: rest =>
    let info :=
      { info with client := { info.client with incoming := info.client.incoming ++ bytes } }
    let r := loop C now rx info
    feed C (r.1, r.2.1) rest

/-- `NetworkReceiver::get_received_message` -/
def getReceivedMessage (rx : NetworkReceiver) : Packed × NetworkReceiver :=
  (rx.receivedMessage, { rx with isMessageReceived := false, index := 0 })

/-- `NetworkHandler::receive`. `payload` has 256 bytes, so a zero byte always follows. -/
def receive (rx : NetworkReceiver) : Message × NetworkReceiver :=
  if !rx.isReceived then
    (⟨List.replicate 9 0, 0, 0, List.replicate (maxPayloadLength + 1) 0⟩, rx)
  else
    let (m, rx) := rx.getReceivedMessage
    (⟨m.senderIdentifier ++ [0], m.messageType, m.payloadLength,
      m.payload ++ List.replicate (maxPayloadLength + 1 - m.payload.length) 0⟩, rx)

end NetworkReceiver

end ServerRoom
