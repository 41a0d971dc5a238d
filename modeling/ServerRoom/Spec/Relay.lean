import ServerRoom.Spec.Message

/-!
# What the relay server does with one message

`src/server/message.h`, the message side of `device.cpp`, and `send_message` in
`utility.cpp`. `handle_recvd_message` gets its argument by value and changes it in
place; the parts of it are functions of the message here, and of the digest in the static
buffer of `HMAC`. `verdict` is how they decide when they are not disturbed. The threads that
call them are in `Spec/Server.lean`.
-/

namespace ServerRoom.Relay

open ByteMem

/-- `struct NetworkMessage` of the server. -/
structure NetworkMessage where
  bytes : Packed
  messageLength : ℕ

/-- The key compiled into the relay server. -/
def key : Key := Vector.replicate 16 0x46

namespace NetworkMessage

/-- The first `message_length` bytes: what goes over the wire. -/
def wire (m : NetworkMessage) : List UInt8 := slice m.bytes 0 m.messageLength

end NetworkMessage

/-- The local variable `message` of `handle_device_receiver` once both reads into it
have succeeded, with `message_length` set. -/
def recvd (bytes : Packed) : NetworkMessage := ⟨bytes, headerLength + bytes.payloadLength.toNat⟩

/-- The ntoh conversions. -/
def ntohConversions (m : NetworkMessage) : NetworkMessage :=
  let b := m.bytes.setNetworkId (ntohl m.bytes.networkId)
  { m with bytes := b.setHmacForServer (ntohl b.hmacForServer) }

/-- The hton conversions. -/
def htonConversions (m : NetworkMessage) : NetworkMessage :=
  let b := m.bytes.setNetworkId (htonl m.bytes.networkId)
  { m with bytes := b.setHmacForServer (htonl b.hmacForServer) }

/-! ## Signatures

Both callers of `HMAC` pass `md == NULL`: the digest is stored in a static buffer of the library,
which all threads share, and the caller gets a pointer to it. What `HMAC` stores and what is then
made of the contents of the buffer are two functions here. -/

/-- The digest that `HMAC` stores for a message: that of everything from byte 8 on. -/
def digestOf (C : Crypto) (m : NetworkMessage) : List UInt8 :=
  (C.hmacSha256 key.toList (slice m.bytes 8 (m.messageLength - 8))).toList

/-- `memcmp(server_sign, &message.message_header.HMAC_for_server, 4) == 0`, where `server_sign`
points to `digest`. -/
def isSignedBy (digest : List UInt8) (m : NetworkMessage) : Bool := digest.take 4 = slice m.bytes 0 4

/-- Whether `handle_recvd_message` goes on with a converted message when no other thread calls
`HMAC` meanwhile: it is for network 0 and properly signed. -/
def isVerified (C : Crypto) (m : NetworkMessage) : Bool :=
  if m.bytes.networkId ≠ 0 then false else isSignedBy (digestOf C m) m

/-- The test for a ping message. -/
def isPing (m : NetworkMessage) : Bool :=
  m.bytes.payloadLength = 0x0 ∧ m.bytes.hmacForNetwork = 0xFFFFFFFF ∧
    m.bytes.aesVectorWord = 0xFFFFFFFFFFFFFFFF

/-- What `handle_recvd_message` makes of a message. -/
inductive Verdict
  | rejected
  | ping
  | broadcast (m : NetworkMessage) (networkId : UInt32)

/-- **`handle_recvd_message`, without the device**, when no other thread calls `HMAC` meanwhile. -/
def verdict (C : Crypto) (m : NetworkMessage) : Verdict :=
  let m := ntohConversions m
  if !isVerified C m then .rejected
  else
    let m := htonConversions m
    if isPing m then .ping else .broadcast m (ntohl m.bytes.networkId)

/-- `create_ping_message` up to its call of `HMAC`; the local variable is `stack` before. -/
def unsignedPing (stack : NetworkMessage) : NetworkMessage :=
  let b := stack.bytes.setPayloadLength 0x0
  let b := b.setNetworkId 0x0
  let b := b.setUnixTimestamp 0xFFFFFFFFFFFFFFFF
  let b := b.setMessageType 0xFF
  let b := b.setHmacForNetwork 0xFFFFFFFF
  let b := b.setFutureUse1 (List.replicate 3 0xFF)
  let b := b.setFutureUse2 (List.replicate 7 0xFF)
  let b := b.setAesVector (List.replicate 8 0xFF)
  ⟨b.setSenderIdentifier (List.replicate 8 0xFF), headerLength⟩

/-- `HMAC_for_server = htonl(*(uint32_t *) server_sign)`, where `server_sign` points to `digest`. -/
def signPing (digest : List UInt8) (m : NetworkMessage) : NetworkMessage :=
  { m with bytes := m.bytes.setHmacForServer (htonl (word32 (digest.take 4))) }

/-- `create_ping_message`, when no other thread calls `HMAC` meanwhile. -/
def createPingMessage (C : Crypto) (stack : NetworkMessage) : NetworkMessage :=
  signPing (digestOf C (unsignedPing stack)) (unsignedPing stack)

/-- The loop of `send_message`: `sent` bytes are taken so far. `results` are the results
of its calls of `send`, `none` for -1; at their end the time is up. -/
def sendLoop (messageLength : ℕ) : ℕ → List (Option ℕ) → ℕ
  | sent, [] => sent
  | sent, r :: results =>
    if sent < messageLength then
      match r with
      | none => sendLoop messageLength sent results
      -- `send` takes at most what it is given
      | some n => sendLoop messageLength (sent + min n (messageLength - sent)) results
    else sent

/-- `send_message`: whether everything was sent, and the bytes that were. -/
def sendMessage (m : NetworkMessage) (results : List (Option ℕ)) : Bool × List UInt8 :=
  let sent := sendLoop m.messageLength 0 results
  (sent = m.messageLength, slice m.bytes 0 sent)

end ServerRoom.Relay
