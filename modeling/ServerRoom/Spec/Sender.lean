import ServerRoom.Spec.Message

/-!
# The Arduino's connection data and `NetworkSender`

`src/arduino/library/NetworkHandler.h`, `NetworkSender.cpp`. The Ethernet client is
the bytes that have arrived and not been read, and the bytes written so far, both
of the current connection. Every reading of the environment is an argument: whether
the client is connected, and what each `client.write` returns.
-/

namespace ServerRoom

open ByteMem

/-- `EthernetClient`: which connection it is, counted from the first; what that
connection has delivered and is not read yet; and what was written to it. -/
structure EthernetClient where
  connection : ℕ
  incoming : List UInt8
  outgoing : List UInt8

/-- `class NetworkInfo` -/
structure NetworkInfo where
  networkId : UInt32
  connectionNumber : UInt8
  serverKey : Key
  networkKey : Key
  client : EthernetClient
  lastPokeToServer : UInt32
  lastPokeFromServer : UInt32

/-- What a call of `send` reads from the Ethernet client: `client.connected()`, and
for each try whether `client.write` takes the byte. -/
structure Link where
  connected : Bool
  write : ℕ → Bool

/-- `PROTOCOL_SEND_TRIES` -/
def sendTries : ℕ := 3

/-- `"ARDUINO"` with its terminating zero. -/
def arduinoIdentifier : List UInt8 := [0x41, 0x52, 0x44, 0x55, 0x49, 0x4E, 0x4F, 0x00]

namespace NetworkSender

/-- `NetworkSender::hton_handling` -/
def htonHandling (m : Packed) : Packed :=
  let m := m.setNetworkId (htonl m.networkId)
  m.setUnixTimestamp (htonll m.unixTimestamp)

/-- `NetworkSender::encrypt_message`: the last 16 header bytes and the payload. -/
def encryptMessage (C : Crypto) (info : NetworkInfo) (m : Packed) : Packed :=
  let iv := C.hmac info.networkKey m.aesVector 16
  write m 32 (C.ctr info.networkKey iv (slice m 32 (m.payloadLength.toNat + 16)))

/-- `NetworkSender::sign_message`: both signatures cover everything from byte 8 on, and
are stored with their four bytes reversed. -/
def signMessage (C : Crypto) (info : NetworkInfo) (m : Packed) : Packed :=
  let m : Packed := write m 0 (C.hmac info.serverKey (slice m 8 (headerLength + m.payloadLength.toNat - 8)) 4)
  let m := m.setHmacForServer (htonl m.hmacForServer)
  let m : Packed := write m 4 (C.hmac info.networkKey (slice m 8 (headerLength + m.payloadLength.toNat - 8)) 4)
  m.setHmacForNetwork (htonl m.hmacForNetwork)

/-- The loop of `ethernet_send_message`: `left` more tries, `tries` made, `sent` bytes
taken. It returns the final `sent` and the bytes written. -/
def writeLoop (m : Packed) (messageLength : ℕ) (write : ℕ → Bool) : ℕ → ℕ → ℕ → ℕ × List UInt8
  | 0, _, sent => (sent, [])
  | left + 1, tries, sent =>
    if sent < messageLength then
      if write tries then
        let r := writeLoop m messageLength write left (tries + 1) (sent + 1)
        (r.1, m sent :: r.2)
      else writeLoop m messageLength write left (tries + 1) sent
    else (sent, [])

/-- `NetworkSender::ethernet_send_message` -/
def ethernetSendMessage (info : NetworkInfo) (link : Link) (m : Packed) : Bool × NetworkInfo :=
  let messageLength := m.payloadLength.toNat + headerLength
  if !link.connected then (false, info)
  else
    let r := writeLoop m messageLength link.write (sendTries * messageLength) 0 0
    (r.1 = messageLength,
      { info with client := { info.client with outgoing := info.client.outgoing ++ r.2 } })

/-- The header and payload that `send` generates in `message_send`, a local variable
whose memory is `stack` before. -/
def generateMessage (info : NetworkInfo) (stack : Packed) (messageType : UInt8)
    (payload : List UInt8) (payloadLength : UInt8) : Packed :=
  let m := stack.setPayloadLength payloadLength
  let m := m.setNetworkId info.networkId
  let m := m.setMessageType messageType
  let m := m.setUnixTimestamp 0xFFFFFFFFFFFFFFFF
  let m := m.setSenderIdentifier arduinoIdentifier
  let m := m.setFutureUse1 (List.replicate 3 0xFF)
  let m := m.setAesVector (List.replicate 8 0xFF)
  let m := m.setFutureUse2 (List.replicate 7 0xFF)
  m.setPayload (payload.take payloadLength.toNat)

/-- The message that `send` hands to `ethernet_send_message`. -/
def buildMessage (C : Crypto) (info : NetworkInfo) (stack : Packed) (messageType : UInt8)
    (payload : List UInt8) (payloadLength : UInt8) : Packed :=
  let m := generateMessage info stack messageType payload payloadLength
  let m := htonHandling m
  let m := encryptMessage C info m
  let m := signMessage C info m
  -- ping messages carry no network signature
  if messageType = 0 then m.setHmacForNetwork 0xFFFFFFFF else m

/-- `NetworkSender::send` -/
def send (C : Crypto) (info : NetworkInfo) (stack : Packed) (link : Link) (messageType : UInt8)
    (payload : List UInt8) (payloadLength : UInt8) : Bool × NetworkInfo :=
  if payloadLength.toNat > maxPayloadLength then (false, info)
  else ethernetSendMessage info link (buildMessage C info stack messageType payload payloadLength)

end NetworkSender

end ServerRoom
