import ServerRoom.Spec.Receiver
import ServerRoom.Spec.Servers

/-!
# `main.ino`

`processing_unit` in `src/arduino/main/main.ino`, with the `atoi` that it calls. The `int` of
the board has 16 bits. What is printed to the serial line is left out.
-/

namespace ServerRoom

/-- `isspace` -/
def isSpace (b : UInt8) : Bool := b = 32 || (9 ≤ b && b ≤ 13)

/-- `isdigit` -/
def isDigit (b : UInt8) : Bool := 48 ≤ b && b ≤ 57

/-- The value of the digits that a string starts with, after the value `n`. -/
def leadingDigits (n : ℕ) : List UInt8 → ℕ
  | [] => n
  | b :: s => if isDigit b then leadingDigits (10 * n + (b.toNat - 48)) s else n

/-- `atoi` of the C library: white space, a sign, and digits up to the first byte that is none. C leaves
a number that does not fit into an `int` undefined; that it is cut to 16 bits is an assumption here. -/
def atoi (s : List UInt8) : Int16 :=
  match s.dropWhile isSpace with
  | 45 :: s => .ofInt (-leadingDigits 0 s)
  | 43 :: s => .ofInt (leadingDigits 0 s)
  | s => .ofInt (leadingDigits 0 s)

/-- **`processing_unit`**: what it does to the servers. The clock is read at `t₀`, and at `t₁`
by an order that is accepted. -/
def processingUnit (serverHandler : ServersHandler) (order : Message) (t₀ t₁ : ℕ) : ServersHandler :=
  let serverNumber := UInt8.ofInt (atoi order.payload).toInt
  match order.messageType with
  | 0x50 => (serverHandler.turnOn serverNumber t₀ t₁).2 -- start server
  | 0x51 => (serverHandler.turnOff serverNumber t₀ t₁).2 -- restart server
  | 0x52 => (serverHandler.restart serverNumber t₀ t₁).2 -- shutdown server
  | 0x30 => serverHandler.pingFromServer serverNumber t₀
  | _ => serverHandler

/-- What `src/protocol/protocol-specifications.md` says that a message of a type does to
server `k`. -/
def prescribed (serverHandler : ServersHandler) (messageType k : UInt8) (t₀ t₁ : ℕ) : ServersHandler :=
  match messageType with
  | 0x50 => (serverHandler.turnOn k t₀ t₁).2
  | 0x51 => (serverHandler.restart k t₀ t₁).2
  | 0x52 => (serverHandler.turnOff k t₀ t₁).2
  | 0x30 => serverHandler.pingFromServer k t₀
  | _ => serverHandler

end ServerRoom
