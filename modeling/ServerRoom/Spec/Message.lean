import ServerRoom.Lib.ByteMem
import ServerRoom.Lib.Framing

/-!
# The message on the wire

Both source trees declare the same packed `struct NetworkMessageHeader` (48 bytes)
followed by up to 255 payload bytes, and use it both through its fields and as raw
bytes. `Packed` is that object as memory; the fields are words at their offsets:

| offset | bytes | field |
| --- | --- | --- |
| 0 | 4 | `HMAC_for_server` |
| 4 | 4 | `HMAC_for_network` |
| 8 | 1 | `payload_length` |
| 9 | 4 | `network_id` |
| 13 | 3 | `future_use1` |
| 16 | 8 | `aes_vector` |
| 24 | 8 | `unix_timestamp` |
| 32 | 8 | `sender_identifier` |
| 40 | 1 | `message_type` |
| 41 | 7 | `future_use2` |
| 48 | 255 | `payload` |

All hosts are little-endian.
-/

namespace ServerRoom

open ByteMem

/-- The cryptographic primitives that the programs call: HMAC-SHA256 of a key and a
message, and the keystream that AES-128-CTR derives from a key and an IV. -/
structure Crypto where
  hmacSha256 : List UInt8 → List UInt8 → Vector UInt8 32
  keystream : List UInt8 → List UInt8 → ℕ → UInt8

/-- The trivial primitives: every signature is zero and nothing is encrypted. -/
def Crypto.zero : Crypto := ⟨fun _ _ => Vector.replicate 32 0, fun _ _ _ => 0⟩

/-- A 16-byte key (`PROTOCOL_KEY_LENGTH`). -/
abbrev Key := Vector UInt8 16

/-- The first `n` bytes of the HMAC of `data`. -/
def Crypto.hmac (C : Crypto) (key : Key) (data : List UInt8) (n : ℕ) : List UInt8 :=
  (C.hmacSha256 key.toList data).toList.take n

/-- AES-CTR, which encrypts and decrypts alike: XOR with the keystream. -/
def Crypto.ctr (C : Crypto) (key : Key) (iv data : List UInt8) : List UInt8 :=
  data.mapIdx fun i b => b ^^^ C.keystream key.toList iv i

theorem Crypto.hmac_length (C : Crypto) (key : Key) (data : List UInt8) {n : ℕ} (h : n ≤ 32) :
    (C.hmac key data n).length = n := by
  simp [Crypto.hmac, h]

@[simp] theorem Crypto.ctr_length (C : Crypto) (key : Key) (iv data : List UInt8) :
    (C.ctr key iv data).length = data.length := by
  simp [Crypto.ctr]

/-- Decrypting undoes encrypting. -/
theorem Crypto.ctr_ctr (C : Crypto) (key : Key) (iv data : List UInt8) :
    C.ctr key iv (C.ctr key iv data) = data := by
  apply List.ext_getElem (by simp)
  intro i h1 h2
  simp only [Crypto.ctr, List.getElem_mapIdx]
  rw [UInt8.xor_assoc, UInt8.xor_self, UInt8.xor_zero]

/-- `PROTOCOl_MESSAGE_HEADER_LENGTH` -/
def headerLength : ℕ := 48

/-- `PROTOCOl_MAX_PAYLOAD_LENGTH` -/
def maxPayloadLength : ℕ := 255

/-- `PROTOCOL_MAX_MESSAGE_LENGTH` -/
def maxMessageLength : ℕ := maxPayloadLength + headerLength

/-- The bytes of a `struct NetworkMessage`. -/
abbrev Packed := Mem

namespace Packed

def hmacForServer (m : Packed) : UInt32 := load32 m 0

def setHmacForServer (m : Packed) (w : UInt32) : Packed := store32 m 0 w

def hmacForNetwork (m : Packed) : UInt32 := load32 m 4

def setHmacForNetwork (m : Packed) (w : UInt32) : Packed := store32 m 4 w

def payloadLength (m : Packed) : UInt8 := m 8

def setPayloadLength (m : Packed) (n : UInt8) : Packed := put m 8 n

def networkId (m : Packed) : UInt32 := load32 m 9

def setNetworkId (m : Packed) (w : UInt32) : Packed := store32 m 9 w

def setFutureUse1 (m : Packed) (bs : List UInt8) : Packed := write m 13 bs

def aesVector (m : Packed) : List UInt8 := slice m 16 8

/-- `*(uint64_t *) aes_vector` -/
def aesVectorWord (m : Packed) : UInt64 := load64 m 16

def setAesVector (m : Packed) (bs : List UInt8) : Packed := write m 16 bs

def unixTimestamp (m : Packed) : UInt64 := load64 m 24

def setUnixTimestamp (m : Packed) (w : UInt64) : Packed := store64 m 24 w

def senderIdentifier (m : Packed) : List UInt8 := slice m 32 8

def setSenderIdentifier (m : Packed) (bs : List UInt8) : Packed := write m 32 bs

def messageType (m : Packed) : UInt8 := m 40

def setMessageType (m : Packed) (t : UInt8) : Packed := put m 40 t

def setFutureUse2 (m : Packed) (bs : List UInt8) : Packed := write m 41 bs

def payload (m : Packed) : List UInt8 := slice m 48 m.payloadLength.toNat

def setPayload (m : Packed) (bs : List UInt8) : Packed := write m 48 bs

theorem payloadLength_eq (m : Packed) : m.payloadLength = m 8 := rfl

theorem aesVector_eq (m : Packed) : m.aesVector = slice m 16 8 := rfl

end Packed

/-- `htonl`: on a little-endian host it reverses the four bytes. -/
def htonl (w : UInt32) : UInt32 := swap32 w

/-- `ntohl` -/
def ntohl (w : UInt32) : UInt32 := swap32 w

/-- The macro `htonll`. -/
def htonll (x : UInt64) : UInt64 :=
  ((x <<< (56 : UInt64)) &&& 0xFF00000000000000) |||
  ((x <<< (40 : UInt64)) &&& 0x00FF000000000000) |||
  ((x <<< (24 : UInt64)) &&& 0x0000FF0000000000) |||
  ((x <<< (8 : UInt64)) &&& 0x000000FF00000000) |||
  ((x >>> (8 : UInt64)) &&& 0x00000000FF000000) |||
  ((x >>> (24 : UInt64)) &&& 0x0000000000FF0000) |||
  ((x >>> (40 : UInt64)) &&& 0x000000000000FF00) |||
  ((x >>> (56 : UInt64)) &&& 0x00000000000000FF)

/-- The macro `ntohll`. -/
def ntohll (x : UInt64) : UInt64 := htonll x

/-- **The frames of a byte stream**: a 48-byte header, then as many payload bytes as
byte 8 of the header says. -/
def wireFormat : Framing.Format UInt8 where
  hdr := headerLength
  body h := (h.getD 8 0).toNat
  hdr_pos := by decide

end ServerRoom
