import ServerRoom.Lib.Races
import ServerRoom.Spec.Locking

/-!
# What the threads of the relay server access

The data members of a device (`device.h`), the list of `ServerData`, `network_devices` and the static
buffer of `HMAC` are the locations. A thread accesses some of them at its program counter, to decide where to go on, and
some in the statement that it executes there. `release` disposes of a record when it takes its last
reference. The mutexes and the condition variables are no locations: they are made to be shared.
-/

namespace ServerRoom.Relay

open Races

/-- Shared data. -/
inductive Location
  | connectedDevices
  | networkDevices
  | digest
  | sockfd (d : ℕ)
  | networkId (d : ℕ)
  | connectionState (d : ℕ)
  | memoryPointers (d : ℕ)
  | sendingBuffer (d : ℕ)
  | lastMessageFromClient (d : ℕ)
  deriving DecidableEq

/-- The device whose record a location is in. -/
def Location.device : Location → Option ℕ
  | .connectedDevices | .networkDevices | .digest => none
  | .sockfd d | .networkId d | .connectionState d | .memoryPointers d | .sendingBuffer d
  | .lastMessageFromClient d => some d

/-- A location has the same contents in two states. -/
def Location.Same (s s' : Server) : Location → Prop
  | .connectedDevices => s'.connected = s.connected
  | .networkDevices => s'.networkDevices = s.networkDevices
  | .digest => s'.digest = s.digest
  | .sockfd d => (s'.device d).sockfd = (s.device d).sockfd
  | .networkId d => (s'.device d).networkId = (s.device d).networkId
  | .connectionState d => (s'.device d).connectionState = (s.device d).connectionState
  | .memoryPointers d => (s'.device d).memoryPointers = (s.device d).memoryPointers
  | .sendingBuffer d => (s'.device d).sendingBuffer = (s.device d).sendingBuffer
  | .lastMessageFromClient d => (s'.device d).lastMessageFromClient = (s.device d).lastMessageFromClient

/-! ## Accesses -/

/-- What `handle_device` reads at a program counter. -/
def HandlerPc.Reads (d : ℕ) (l : Location) : HandlerPc → Prop
  | .sign _ => l = .digest
  | .state => l = .connectionState d
  | _ => False

def SenderPc.Reads (d : ℕ) (l : Location) : SenderPc → Prop
  | .drain _ => l = .sendingBuffer d
  | .state => l = .connectionState d
  | _ => False

/-- `broadcast_to_network` reads the set that it runs through, from its lock on. -/
def ReceiverPc.Reads (d : ℕ) (l : Location) : ReceiverPc → Prop
  | .read => l = .sockfd d
  | .compare _ => l = .digest
  | .stamp _ | .leave => l = .connectionState d
  | .castLock _ | .castCopy _ _ _ => l = .networkDevices
  | .last => l = .lastMessageFromClient d
  | _ => False

def Server.Reads (s : Server) (l : Location) : Thread → Prop
  | .handler d => (s.handler d).Reads d l
  | .sender d => (s.sender d).Reads d l
  | .receiver d => (s.receiver d).Reads d l

/-- What a statement accesses. The set of a network finds its elements by their descriptors. -/
inductive Stmt.Accesses (s : Server) : Stmt → Location → Mode → Prop
  | hmac (digest : List UInt8) : Accesses s (.hmac digest) .digest .write
  | acquire (d : ℕ) : Accesses s (.acquire d) (.memoryPointers d) .write
  | release (d : ℕ) : Accesses s (.release d) (.memoryPointers d) .write
  | close (d : ℕ) : Accesses s (.release d) (.sockfd d) .read
  | insert (d : ℕ) : Accesses s (.insert d) .networkDevices .write
  | insertId (d : ℕ) : Accesses s (.insert d) (.networkId d) .read
  | insertFd (d : ℕ) : Accesses s (.insert d) (.sockfd d) .read
  | insertFds (d x : ℕ) : x ∈ s.networkDevices (s.device d).networkId → Accesses s (.insert d) (.sockfd x) .read
  | erase (d : ℕ) : Accesses s (.erase d) .networkDevices .write
  | eraseId (d : ℕ) : Accesses s (.erase d) (.networkId d) .read
  | eraseFd (d : ℕ) : Accesses s (.erase d) (.sockfd d) .read
  | eraseFds (d x : ℕ) : x ∈ s.networkDevices (s.device d).networkId → Accesses s (.erase d) (.sockfd x) .read
  | pushBack (d : ℕ) (m : NetworkMessage) : Accesses s (.pushBack d m) (.sendingBuffer d) .write
  | clear (d : ℕ) : Accesses s (.clear d) (.sendingBuffer d) .write
  | sendMessage (d : ℕ) (m : NetworkMessage) : Accesses s (.sendMessage d m) (.sockfd d) .read
  | setLast (d now : ℕ) : Accesses s (.setLast d now) (.lastMessageFromClient d) .write
  | setId (d : ℕ) (n : UInt32) : Accesses s (.setWorking d n) (.networkId d) .write
  | setWorking (d : ℕ) (n : UInt32) : Accesses s (.setWorking d n) (.connectionState d) .write
  | setEnded (d : ℕ) : Accesses s (.setEnded d) (.connectionState d) .write

/-- What a thread of a connection accesses in its next step. -/
def Server.Accesses (C : Crypto) (s : Server) (e : Env) (t : Thread) (l : Location) (i : Mode) : Prop :=
  (s.step C (t.action e)).isSome ∧ (s.Reads l t ∧ i = .read ∨ ∃ σ, s.statement C e t = some σ ∧ σ.Accesses s l i)

namespace Locking

/-- The next step of a thread is its statement, and reads `e`. -/
def At (s : Locking) (t : Thread) (e : Env) : Prop :=
  match s.phase t with
  | .outside => s.server.itmes e t = none
  | .inside _ e' => e' = e
  | .leaving _ => False

/-- **A party is about to access a location.** `main` constructs the record of the next device. -/
def Accesses (C : Crypto) (s : Locking) : Party → Location → Mode → Prop
  | .acceptor, l, i => (∃ fd, s.acceptor = .pushFront fd) ∧ l = .connectedDevices ∧ i = .write
  | .main, l, i =>
    s.main = .test ∧ l = .connectedDevices ∧ i = .read ∨
      s.main = .create ∧ (l = .connectedDevices ∨ l.device = some s.server.created)
  | .thread t, l, i => ∃ e, s.At t e ∧ s.server.Accesses C e t l i

/-- A party is about to take the last reference to the device of a location, which deletes it. -/
def Disposes (C : Crypto) (s : Locking) (p : Party) (l : Location) : Prop :=
  ∃ t e d, p = .thread t ∧ s.At t e ∧ s.server.statement C e t = some (.release d) ∧
    (s.server.device d).memoryPointers = 1 ∧ l.device = some d

end Locking

/-! ## The discipline -/

/-- How the members of a device that exists are protected. The identifier of its network is used by
its receiver only, and the descriptor does not change. The buffer of `HMAC` is not protected. -/
def Location.guard : Location → Guard Party Mutex
  | .connectedDevices => .mutex .vector
  | .networkDevices => .mutex .network
  | .digest => .nothing
  | .sockfd _ => .frozen
  | .networkId d => .owner (.thread (.receiver d))
  | .connectionState d | .memoryPointers d | .lastMessageFromClient d => .mutex (.itmes d)
  | .sendingBuffer d => .mutex (.newMessage d)

/-- **How a location is protected.** The records of the devices to come belong to `main`. -/
def Locking.guard (s : Locking) (l : Location) : Guard Party Mutex :=
  match l.device with
  | some d => if d < s.server.created then l.guard else .owner .main
  | none => l.guard

end ServerRoom.Relay
