import ServerRoom.Spec.Sender
import ServerRoom.Spec.Receiver
import ServerRoom.Spec.Relay

/-!
# What a frame means

The abstract side of the receiver: for the bytes `f` of one complete frame, whether it
is a ping that the relay server signed (`isPing`), whether it is a message of this
network (`isValid`), the message it carries (`message`), and what an Arduino delivers
of it (`deliver`); and whether the relay server takes it (`isAuthentic`). Nothing here
mentions a buffer.
-/

namespace ServerRoom.Frame

open ByteMem

variable (C : Crypto) (info : NetworkInfo)

/-- The bytes `off`, .., `off + len - 1` of a frame. -/
def region (f : List UInt8) (off len : ℕ) : List UInt8 := (f.drop off).take len

/-- The four bytes that a signature with `key` puts into the header: they cover the
frame from byte 8 on and are stored in the reverse order. -/
def signature (key : Key) (f : List UInt8) : List UInt8 := (C.hmac key (f.drop 8) 4).reverse

/-- What marks a ping: no payload, and neither a network signature nor an AES vector. -/
def hasPingMarks (f : List UInt8) : Bool :=
  f.getD 8 0 = 0 ∧ region f 4 4 = List.replicate 4 0xFF ∧ region f 16 8 = List.replicate 8 0xFF

/-- An authenticated ping: the marks, and the relay's signature. -/
def isPing (f : List UInt8) : Bool :=
  hasPingMarks f ∧ region f 0 4 = signature C info.serverKey f

/-- What the relay server checks: network 0, and a signature with its key. -/
def isAuthentic (f : List UInt8) : Bool :=
  region f 9 4 = List.replicate 4 0 ∧ region f 0 4 = signature C Relay.key f

/-- A message of this network. The identifier is compared as it was sent. -/
def isValid (f : List UInt8) : Bool :=
  region f 9 4 = bytes32 info.networkId ∧ region f 4 4 = signature C info.networkKey f

/-- The decrypted bytes, from byte 32 of the frame on. -/
def plain (f : List UInt8) : List UInt8 :=
  C.ctr info.networkKey (C.hmac info.networkKey (region f 16 8) 16) (f.drop 32)

/-- The message that a frame carries. -/
def message (f : List UInt8) : Message where
  senderIdentifier := region (plain C info f) 0 8 ++ [0]
  messageType := (plain C info f).getD 8 0
  payloadLength := f.getD 8 0
  payload := (plain C info f).drop 16 ++
    List.replicate (maxPayloadLength + 1 - ((plain C info f).drop 16).length) 0

/-- **What an Arduino delivers of a frame.** -/
def deliver (f : List UInt8) : Option Message :=
  if isPing C info f then none
  else if isValid C info f then some (message C info f)
  else none

end ServerRoom.Frame
