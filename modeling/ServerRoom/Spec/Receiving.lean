import Mathlib.Algebra.Group.Int.Defs
import Mathlib.Data.Int.Notation
import ServerRoom.Spec.Relay

/-!
# How the relay server reads a connection

`receive_message` in `src/server/utility.cpp`, and the reading loop of
`handle_device_receiver` in `device.cpp`. `incoming` is what the client sends on the
connection and has not been read; at its end the connection is closed. What a call of `recv`
finds there, and whether the time is up before it, is an argument for each call; when the
arguments are used up the thread is still in `recv`.
-/

namespace ServerRoom.Relay

open ByteMem

/-! ## `receive_message` -/

/-- What one round of the loop in `receive_message` meets: 13 seconds have passed, or `recv`
returns -1, or it finds at most `k + 1` bytes. -/
inductive Poll
  | late
  | fails
  | finds (k : ℕ)

/-- `recv` with a request of `n` bytes: the bytes that it stores, `none` for -1. It returns 0
at the end of the stream and for a request of 0 bytes. -/
def recv (incoming : List UInt8) (n : ℤ) : Poll → Option (List UInt8)
  | .late | .fails => none
  | .finds k => some (incoming.take (min (k + 1) n.toNat))

/-- Where a call of `receive_message` stands: the memory, what is left of the stream, and what
it returned, if it did. -/
structure Reception where
  mem : Packed
  incoming : List UInt8
  result : Option Int16

/-- The loop of `receive_message`. The result of `recv` is added to `recv_counter`, also when it
is -1; the loop ends when it is not positive. -/
def receiveLoop (buffer : ℕ) (recvLength : UInt16) (m : Packed) (incoming : List UInt8) (recvCounter : UInt16) :
    List Poll → Reception
  | [] => ⟨m, incoming, none⟩
  | .late :: _ => ⟨m, incoming, some (-1)⟩
  | poll :: polls =>
    match recv incoming (recvLength.toNat - recvCounter.toNat) poll with
    | none =>
      let recvCounter := recvCounter + UInt16.ofInt (-1)
      ⟨m, incoming, some (if recvCounter = recvLength then recvLength.toInt16 else -1)⟩
    | some bytes =>
      let m := write m (buffer + recvCounter.toNat) bytes
      let incoming := incoming.drop bytes.length
      let recvCounter := recvCounter + UInt16.ofNat bytes.length
      if recvCounter = recvLength then ⟨m, incoming, some recvLength.toInt16⟩
      else if bytes = [] then ⟨m, incoming, some (-1)⟩
      else receiveLoop buffer recvLength m incoming recvCounter polls

/-- **`receive_message`** into the memory from `buffer` on. -/
def receiveMessage (buffer : ℕ) (recvLength : UInt16) (m : Packed) (incoming : List UInt8) (polls : List Poll) :
    Reception :=
  receiveLoop buffer recvLength m incoming 0 polls

/-! ## The calls of `recv` -/

/-- What a round of the loop meets, whatever is on the connection: the 13 seconds have passed,
or `recv` returns; it has stored bytes, or `none` for -1. -/
inductive Turn
  | late
  | returns (stored : Option (List UInt8))

/-- A call of `recv`: where it stores, counted from `buffer`, how many bytes it requests, and
which it stored. -/
structure RecvCall where
  offset : ℕ
  request : ℤ
  stored : Option (List UInt8)

namespace RecvCall

def bytes (c : RecvCall) : List UInt8 := c.stored.getD []

/-- `recv_temp` -/
def recvTemp (c : RecvCall) : Int16 :=
  match c.stored with
  | none => -1
  | some bytes => .ofNat bytes.length

/-- `recv` stores no more than was requested; the request is a `size_t`. -/
def Legal (c : RecvCall) : Prop := (c.bytes.length : ℤ) ≤ c.request % 2 ^ 64

end RecvCall

/-- A call of `receive_message`: the memory, its calls of `recv`, and what it returned, if it did. -/
structure ReceiveRun where
  mem : Packed
  calls : List RecvCall
  result : Option Int16

/-- What was stored, in the order of the calls. -/
def ReceiveRun.delivered (r : ReceiveRun) : List UInt8 := r.calls.flatMap RecvCall.bytes

/-- **The loop of `receive_message`**, with its calls of `recv`. -/
def receiveCalls (buffer : ℕ) (recvLength : UInt16) (m : Packed) (recvCounter : UInt16) : List Turn → ReceiveRun
  | [] => ⟨m, [], none⟩
  | .late :: _ => ⟨m, [], some (-1)⟩
  | .returns stored :: turns =>
    let call : RecvCall := ⟨recvCounter.toNat, (recvLength.toNat : ℤ) - recvCounter.toNat, stored⟩
    let m := write m (buffer + recvCounter.toNat) call.bytes
    let recvCounter := recvCounter + call.recvTemp.toUInt16
    if recvCounter = recvLength then ⟨m, [call], some recvLength.toInt16⟩
    else if call.recvTemp > 0 then
      let r := receiveCalls buffer recvLength m recvCounter turns
      { r with calls := call :: r.calls }
    else ⟨m, [call], some (-1)⟩

/-! ## The reading loop -/

/-- One round of the loop in `handle_device_receiver`: whether 30 seconds have not passed since
the last message, and what its two calls of `receive_message` meet. -/
structure Round where
  inTime : Bool
  header : List Poll
  payload : List Poll

/-- Where the loop stands: the variable `message`, what is left of the stream, the messages
passed to `handle_recvd_message`, and whether the loop was left. -/
structure Reading where
  message : Packed
  incoming : List UInt8
  passed : List NetworkMessage
  left : Bool

/-- **The reading loop of `handle_device_receiver`.** -/
def readMessages (message : Packed) (incoming : List UInt8) : List Round → Reading
  | [] => ⟨message, incoming, [], false⟩
  | round :: rounds =>
    if !round.inTime then ⟨message, incoming, [], true⟩
    else
      let header := receiveMessage 0 48 message incoming round.header
      match header.result with
      | none => ⟨header.mem, header.incoming, [], false⟩
      | some headerLen =>
        if headerLen = -1 then ⟨header.mem, header.incoming, [], true⟩
        else
          let payload := receiveMessage headerLength header.mem.payloadLength.toUInt16 header.mem header.incoming
            round.payload
          match payload.result with
          | none => ⟨payload.mem, payload.incoming, [], false⟩
          | some payloadLen =>
            if payloadLen = -1 then ⟨payload.mem, payload.incoming, [], true⟩
            else
              let r := readMessages payload.mem payload.incoming rounds
              -- `recvd` sets `message_length`
              { r with passed := recvd payload.mem :: r.passed }

end ServerRoom.Relay
