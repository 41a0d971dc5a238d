import ServerRoom.Spec.Server

/-!
# What can be seen of a run of the relay server

The events of a run, and the history that they add up to: the frames received on each
connection and those that passed the check, the messages accepted from it and broadcast,
the copies of the registry that the broadcasts work on, what was appended to each sending
buffer, and what was passed to `send_message` for each socket.
-/

namespace ServerRoom.Relay

/-- What a step does that the history records. -/
inductive Event
  | received (d : ℕ) (frame : List UInt8)
  | verified (d : ℕ) (frame : List UInt8)
  | accepted (d : ℕ) (m : NetworkMessage)
  | copied (d : ℕ) (set : Finset ℕ)
  | appended (r : ℕ) (m : NetworkMessage) (sender : Option ℕ)
  | returned (d : ℕ)
  | passed (d : ℕ) (m : NetworkMessage) (results : List (Option ℕ))

def HandlerPc.event (d : ℕ) : HandlerPc → Option Event
  | .push m => some (.appended d m none)
  | _ => none

def SenderPc.event (d : ℕ) (data : DeviceData) (e : Env) : SenderPc → Option Event
  | .drain i => (data.sendingBuffer[i]?).map fun m => .passed d m e.results
  | _ => none

def ReceiverPc.event (d : ℕ) (network : UInt32 → Finset ℕ) (digest : List UInt8) (e : Env) :
    ReceiverPc → Option Event
  | .read => e.read.map fun bytes => .received d (recvd bytes).wire
  | .compare m => if isSignedBy digest m then some (.verified d (htonConversions m).wire) else none
  | .dispatch m => if isPing (htonConversions m) then none else some (.accepted d (htonConversions m))
  | .castLock m => some (.copied d (network (ntohl m.bytes.networkId)))
  | .castNext _ [] => some (.returned d)
  | .castPush m r _ => some (.appended r m (some d))
  | _ => none

def Server.event (s : Server) : Action → Option Event
  | .handler d _ => (s.handler d).event d
  | .sender d e => (s.sender d).event d (s.device d) e
  | .receiver d e => (s.receiver d).event d s.networkDevices s.digest e
  | _ => none

/-- A message appended to a sending buffer: a ping, or the `k`-th message that was accepted
from a device. -/
structure Entry where
  message : NetworkMessage
  origin : Option (ℕ × ℕ)

/-- The history of a run, for each device. -/
structure History where
  received : ℕ → List (List UInt8)
  verified : ℕ → List (List UInt8)
  accepted : ℕ → List NetworkMessage
  snapshots : ℕ → List (Finset ℕ)
  returned : ℕ → ℕ
  appended : ℕ → List Entry
  passed : ℕ → List (NetworkMessage × List (Option ℕ))

namespace History

def empty : History :=
  ⟨fun _ => [], fun _ => [], fun _ => [], fun _ => [], fun _ => 0, fun _ => [], fun _ => []⟩

/-- The list of one device with an element added. -/
def push {α : Type} (f : ℕ → List α) (d : ℕ) (x : α) : ℕ → List α := Function.update f d (f d ++ [x])

/-- The history after an event. The broadcast that a receiver is in has as its number the
number of those that have returned. -/
def add (H : History) : Event → History
  | .received d f => { H with received := push H.received d f }
  | .verified d f => { H with verified := push H.verified d f }
  | .accepted d m => { H with accepted := push H.accepted d m }
  | .copied d set => { H with snapshots := push H.snapshots d set }
  | .appended r m sender =>
    { H with appended := push H.appended r ⟨m, sender.map fun d => (d, H.returned d)⟩ }
  | .returned d => { H with returned := Function.update H.returned d (H.returned d + 1) }
  | .passed d m results => { H with passed := push H.passed d (m, results) }

/-- The history after a step that records `ev`. -/
def after (H : History) : Option Event → History
  | none => H
  | some e => H.add e

def record (H : History) (s : Server) (a : Action) : History := H.after (s.event a)

/-- What a call of `send_message` wrote. -/
def written (call : NetworkMessage × List (Option ℕ)) : List UInt8 := (sendMessage call.1 call.2).2

/-- The bytes written to the socket of `d`. -/
def outgoing (H : History) (d : ℕ) : List UInt8 := (H.passed d).flatMap written

end History

/-- **The relay server with its history.** -/
def observed (C : Crypto) : Runs.Machine (Server × History) Action :=
  (relay C).recording .empty History.record

end ServerRoom.Relay
