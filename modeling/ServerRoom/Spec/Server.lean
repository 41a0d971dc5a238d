import Mathlib.Data.Finset.Basic
import Mathlib.Data.Finset.Image
import ServerRoom.Lib.Runs
import ServerRoom.Spec.Relay

/-!
# The threads of the relay server

`src/server/main.cpp`, `server.cpp`, `device.cpp`, `network.cpp` and `memory.cpp` as a
step relation. A connection has three threads, `handle_device`, `handle_device_receiver`
and `handle_device_sender`; each has a program counter, and `next` says which statement on
shared data (`Stmt`) it executes there and where it goes on. `exec` is what a statement
does; it blocks at a mutex that is taken.

`acquire`, `release` and each section under `itmes_mutex` are one statement, and so is a call
of `HMAC`. `network_devices_mutex` and `new_message_mutex` are locked and unlocked by statements
of their own. A deleted device keeps its record, so a step on it shows what the code would
do to the freed memory; `deletes` counts how often it was closed and deleted.
-/

namespace ServerRoom.Relay

open ByteMem

/-- `CONNECTION_INTIALIZATION`, `CONNECTION_WORKING`, `CONNECTION_ENDED` -/
inductive ConnectionState
  | intialization
  | working
  | ended
  deriving DecidableEq

/-- The threads of connection `d`. -/
inductive Thread
  | handler (d : ℕ)
  | sender (d : ℕ)
  | receiver (d : ℕ)
  deriving DecidableEq

/-- `struct DeviceData`, with the holder of `new_message_mutex`. `memory_pointers` is an
integer, so that it could go below zero. -/
structure DeviceData where
  sockfd : ℕ
  networkId : UInt32
  connectionState : ConnectionState
  memoryPointers : ℤ
  sendingBuffer : List NetworkMessage
  lastMessageFromClient : ℕ
  newMessageMutex : Option Thread
  deletes : ℕ

/-- A statement on shared data. `hmac` stores a digest in the static buffer of `HMAC`. -/
inductive Stmt
  | skip
  | hmac (digest : List UInt8)
  | acquire (d : ℕ)
  | release (d : ℕ)
  | lockNetwork
  | unlockNetwork
  | insert (d : ℕ)
  | erase (d : ℕ)
  | lockBuffer (d : ℕ)
  | unlockBuffer (d : ℕ)
  | pushBack (d : ℕ) (m : NetworkMessage)
  | signal (d : ℕ)
  | wait (d : ℕ)
  | clear (d : ℕ)
  | sendMessage (d : ℕ) (m : NetworkMessage)
  | setLast (d now : ℕ)
  | setWorking (d : ℕ) (networkId : UInt32)
  | setEnded (d : ℕ)
  | createSender (d : ℕ)
  | createReceiver (d : ℕ)

/-- What a step reads from outside: `time(NULL)`, what was received (`none` when a read
fails), whether a thread could be created, which element of the set comes next, the
memory of an uninitialised local variable, and the results of `send`. -/
structure Env where
  now : ℕ := 0
  read : Option Packed := none
  launched : Bool := true
  pick : ℕ := 0
  stack : NetworkMessage := ⟨fun _ => 0, 0⟩
  results : List (Option ℕ) := []

/-! ## `handle_device` -/

/-- Where `handle_device` stands. `failed` is its return after `pthread_create` failed. From `hmac`
on it is in `create_ping_message`, whose message `m` it completes at `sign`. -/
inductive HandlerPc
  | absent
  | acquire
  | createSender
  | createReceiver
  | failed
  | hmac
  | sign (m : NetworkMessage)
  | lock (m : NetworkMessage)
  | push (m : NetworkMessage)
  | signal
  | unlock
  | state
  | release
  | done

instance : (p : HandlerPc) → Decidable (p = .signal)
  | .signal => .isTrue rfl
  | .absent | .acquire | .createSender | .createReceiver | .failed | .hmac | .sign _ | .lock _ | .push _
  | .unlock | .state | .release | .done => .isFalse nofun

instance : (p : HandlerPc) → Decidable (p = .release)
  | .release => .isTrue rfl
  | .absent | .acquire | .createSender | .createReceiver | .failed | .hmac | .sign _ | .lock _ | .push _
  | .signal | .unlock | .state | .done => .isFalse nofun

/-- `digest` is what the static buffer of `HMAC` holds. -/
def HandlerPc.next (C : Crypto) (d : ℕ) (data : DeviceData) (digest : List UInt8) (e : Env) :
    HandlerPc → Option (Stmt × HandlerPc)
  | .absent | .failed | .done => none
  | .acquire => some (.acquire d, .createSender)
  | .createSender => if e.launched then some (.createSender d, .createReceiver) else some (.skip, .failed)
  | .createReceiver => if e.launched then some (.createReceiver d, .hmac) else some (.skip, .failed)
  | .hmac => some (.hmac (digestOf C (unsignedPing e.stack)), .sign (unsignedPing e.stack))
  | .sign m => some (.skip, .lock (signPing digest m))
  | .lock m => some (.lockBuffer d, .push m)
  | .push m => some (.pushBack d m, .signal)
  | .signal => some (.signal d, .unlock)
  | .unlock => some (.unlockBuffer d, .state)
  | .state => if data.connectionState = .ended then some (.skip, .release) else some (.skip, .hmac)
  | .release => some (.release d, .done)

/-! ## `handle_device_sender` -/

/-- Where `handle_device_sender` stands: `waiting` in `pthread_cond_wait`, `woken` when
signalled there and not yet in possession of the mutex, `drain i` before the `i`-th
message of the buffer. -/
inductive SenderPc
  | absent
  | acquire
  | lock
  | wait
  | waiting
  | woken
  | drain (i : ℕ)
  | unlock
  | state
  | release
  | done
  deriving DecidableEq

def SenderPc.next (d : ℕ) (data : DeviceData) : SenderPc → Option (Stmt × SenderPc)
  | .absent | .waiting | .done => none
  | .acquire => some (.acquire d, .lock)
  | .lock => some (.lockBuffer d, .wait)
  | .wait => some (.wait d, .waiting)
  | .woken => some (.lockBuffer d, .drain 0)
  | .drain i =>
    match data.sendingBuffer[i]? with
    | some m => some (.sendMessage d m, .drain (i + 1))
    | none => some (.clear d, .unlock)
  | .unlock => some (.unlockBuffer d, .state)
  | .state => if data.connectionState = .ended then some (.skip, .release) else some (.skip, .lock)
  | .release => some (.release d, .done)

/-! ## `handle_device_receiver` -/

/-- Where `handle_device_receiver` stands. From `check` to `dispatch` it is in
`handle_recvd_message`, whose message is `m`: it calls `HMAC` at `check` and looks at the digest at
`compare`; `add..` is `add_device_to_network`, `cast..`
`broadcast_to_network`, `remove..` `remove_device_from_network`. -/
inductive ReceiverPc
  | absent
  | acquire
  | start
  | test (lastRecv : ℕ)
  | read
  | check (m : NetworkMessage)
  | compare (m : NetworkMessage)
  | stamp (m : NetworkMessage)
  | setWorking (m : NetworkMessage)
  | addAcquire (m : NetworkMessage)
  | addLock (m : NetworkMessage)
  | addInsert (m : NetworkMessage)
  | addUnlock (m : NetworkMessage)
  | dispatch (m : NetworkMessage)
  | castLock (m : NetworkMessage)
  | castCopy (m : NetworkMessage) (todo : Finset ℕ) (current : List ℕ)
  | castNext (m : NetworkMessage) (rest : List ℕ)
  | castPush (m : NetworkMessage) (r : ℕ) (rest : List ℕ)
  | castRelease (m : NetworkMessage) (r : ℕ) (rest : List ℕ)
  | castSignal (m : NetworkMessage) (r : ℕ) (rest : List ℕ)
  | castUnlock (m : NetworkMessage) (r : ℕ) (rest : List ℕ)
  | last
  | leave
  | removeLock
  | removeErase
  | removeUnlock
  | removeRelease
  | setEnded
  | finalLock
  | finalSignal
  | finalUnlock
  | release
  | done

/-- `network` is `network_devices`, and `digest` what the static buffer of `HMAC` holds. -/
def ReceiverPc.next (C : Crypto) (d : ℕ) (data : DeviceData) (network : UInt32 → Finset ℕ) (digest : List UInt8)
    (e : Env) : ReceiverPc → Option (Stmt × ReceiverPc)
  | .absent | .done => none
  | .acquire => some (.acquire d, .start)
  | .start => some (.setLast d e.now, .test e.now)
  | .test lastRecv => if e.now - lastRecv < 30 then some (.skip, .read) else some (.skip, .leave)
  | .read =>
    match e.read with
    | some bytes => some (.skip, .check (recvd bytes))
    | none => some (.skip, .leave)
  | .check m =>
    let m := ntohConversions m
    -- only network 0 is supported
    if m.bytes.networkId ≠ 0 then some (.skip, .last) else some (.hmac (digestOf C m), .compare m)
  | .compare m => if isSignedBy digest m then some (.skip, .stamp m) else some (.skip, .last)
  | .stamp m =>
    if data.connectionState = .intialization then some (.setLast d e.now, .setWorking m)
    else some (.setLast d e.now, .dispatch m)
  | .setWorking m => some (.setWorking d m.bytes.networkId, .addAcquire m)
  | .addAcquire m => some (.acquire d, .addLock m)
  | .addLock m => some (.lockNetwork, .addInsert m)
  | .addInsert m => some (.insert d, .addUnlock m)
  | .addUnlock m => some (.unlockNetwork, .dispatch m)
  | .dispatch m =>
    let m := htonConversions m
    if isPing m then some (.skip, .last) else some (.skip, .castLock m)
  | .castLock m => some (.lockNetwork, .castCopy m (network (ntohl m.bytes.networkId)) [])
  | .castCopy m todo current =>
    if todo = ∅ then some (.unlockNetwork, .castNext m current)
    -- the iteration order of the set is not specified
    else if e.pick ∈ todo then some (.acquire e.pick, .castCopy m (todo.erase e.pick) (current ++ [e.pick]))
    else none
  | .castNext _ [] => some (.skip, .last)
  | .castNext m (r :: rest) => some (.lockBuffer r, .castPush m r rest)
  | .castPush m r rest => some (.pushBack r m, .castRelease m r rest)
  | .castRelease m r rest => some (.release r, .castSignal m r rest)
  | .castSignal m r rest => some (.signal r, .castUnlock m r rest)
  | .castUnlock m r rest => some (.unlockBuffer r, .castNext m rest)
  | .last => some (.skip, .test data.lastMessageFromClient)
  | .leave => if data.connectionState = .working then some (.skip, .removeLock) else some (.skip, .setEnded)
  | .removeLock => some (.lockNetwork, .removeErase)
  | .removeErase => some (.erase d, .removeUnlock)
  | .removeUnlock => some (.unlockNetwork, .removeRelease)
  | .removeRelease => some (.release d, .setEnded)
  | .setEnded => some (.setEnded d, .finalLock)
  | .finalLock => some (.lockBuffer d, .finalSignal)
  | .finalSignal => some (.signal d, .finalUnlock)
  | .finalUnlock => some (.unlockBuffer d, .release)
  | .release => some (.release d, .done)

/-! ## The server -/

/-- The state of the server: the descriptors that are open and those that `main` has not
taken yet, the devices, of which the first `created` exist, the registry with its mutex, what
the static buffer of `HMAC` holds, and the threads. -/
structure Server where
  openFds : Finset ℕ
  connected : List ℕ
  created : ℕ
  device : ℕ → DeviceData
  networkDevices : UInt32 → Finset ℕ
  networkMutex : Option Thread
  digest : List UInt8
  handler : ℕ → HandlerPc
  sender : ℕ → SenderPc
  receiver : ℕ → ReceiverPc

/-- Who moves: `accept` returning a descriptor, `main` taking one (and whether it could
create the thread, and what the new record's memory held), a thread of a connection, or a
wake-up of a sender that nobody signalled. -/
inductive Action
  | accept (fd : ℕ)
  | create (launched : Bool) (networkId : UInt32) (last : ℕ)
  | handler (d : ℕ) (e : Env)
  | sender (d : ℕ) (e : Env)
  | receiver (d : ℕ) (e : Env)
  | wake (d : ℕ)

namespace Server

/-- The server with one device changed. -/
def modify (s : Server) (d : ℕ) (f : DeviceData → DeviceData) : Server :=
  { s with device := Function.update s.device d (f (s.device d)) }

/-- `unordered_set::insert`, where devices with the same descriptor are equal. -/
def insertDevice (s : Server) (d : ℕ) (set : Finset ℕ) : Finset ℕ :=
  if ∃ x ∈ set, (s.device x).sockfd = (s.device d).sockfd then set else insert d set

/-- `unordered_set::erase` -/
def eraseDevice (s : Server) (d : ℕ) (set : Finset ℕ) : Finset ℕ :=
  set.filter fun x => (s.device x).sockfd ≠ (s.device d).sockfd

/-- `release`: the last reference closes the socket and deletes the device. -/
def release (s : Server) (d : ℕ) : Server :=
  let data := { s.device d with memoryPointers := (s.device d).memoryPointers - 1 }
  if data.memoryPointers = 0 then
    { s with
      openFds := s.openFds.erase data.sockfd
      device := Function.update s.device d { data with deletes := data.deletes + 1 } }
  else { s with device := Function.update s.device d data }

/-- What a statement of thread `t` does, if it does not block. -/
def exec (s : Server) (t : Thread) : Stmt → Option Server
  | .skip => some s
  | .hmac digest => some { s with digest := digest }
  | .acquire d => some (s.modify d fun x => { x with memoryPointers := x.memoryPointers + 1 })
  | .release d => some (s.release d)
  | .lockNetwork => if s.networkMutex = none then some { s with networkMutex := some t } else none
  | .unlockNetwork => some { s with networkMutex := none }
  | .insert d =>
    let n := (s.device d).networkId
    some { s with
      networkDevices := Function.update s.networkDevices n (s.insertDevice d (s.networkDevices n)) }
  | .erase d =>
    let n := (s.device d).networkId
    some { s with
      networkDevices := Function.update s.networkDevices n (s.eraseDevice d (s.networkDevices n)) }
  | .lockBuffer d =>
    if (s.device d).newMessageMutex = none then
      some (s.modify d fun x => { x with newMessageMutex := some t })
    else none
  | .unlockBuffer d => some (s.modify d fun x => { x with newMessageMutex := none })
  | .pushBack d m => some (s.modify d fun x => { x with sendingBuffer := x.sendingBuffer ++ [m] })
  | .signal d =>
    -- without a waiting thread a signal has no effect
    some (if s.sender d = .waiting then { s with sender := Function.update s.sender d .woken } else s)
  | .wait d => some (s.modify d fun x => { x with newMessageMutex := none })
  | .clear d => some (s.modify d fun x => { x with sendingBuffer := [] })
  | .sendMessage _ _ => some s
  | .setLast d now => some (s.modify d fun x => { x with lastMessageFromClient := now })
  | .setWorking d n => some (s.modify d fun x => { x with networkId := n, connectionState := .working })
  | .setEnded d => some (s.modify d fun x => { x with connectionState := .ended })
  | .createSender d => some { s with sender := Function.update s.sender d .acquire }
  | .createReceiver d => some { s with receiver := Function.update s.receiver d .acquire }

/-- `new DeviceData(fd)`, and the thread `handle_device` for it. -/
def create (s : Server) (fd : ℕ) (rest : List ℕ) (launched : Bool) (networkId : UInt32) (last : ℕ) : Server :=
  { s with
    connected := rest
    created := s.created + 1
    device := Function.update s.device s.created ⟨fd, networkId, .intialization, 0, [], last, none, 0⟩
    handler := Function.update s.handler s.created (if launched then .acquire else .absent) }

/-- One step. -/
def step (C : Crypto) (s : Server) : Action → Option Server
  | .accept fd =>
    if fd ∈ s.openFds then none
    else some { s with openFds := insert fd s.openFds, connected := fd :: s.connected }
  | .create launched networkId last =>
    match s.connected with
    | [] => none
    | fd :: rest => some (s.create fd rest launched networkId last)
  | .handler d e =>
    ((s.handler d).next C d (s.device d) s.digest e).bind fun (σ, p) =>
      (s.exec (.handler d) σ).map fun s => { s with handler := Function.update s.handler d p }
  | .sender d _ =>
    ((s.sender d).next d (s.device d)).bind fun (σ, p) =>
      (s.exec (.sender d) σ).map fun s => { s with sender := Function.update s.sender d p }
  | .receiver d e =>
    ((s.receiver d).next C d (s.device d) s.networkDevices s.digest e).bind fun (σ, p) =>
      (s.exec (.receiver d) σ).map fun s => { s with receiver := Function.update s.receiver d p }
  | .wake d =>
    if s.sender d = .waiting then some { s with sender := Function.update s.sender d .woken } else none

/-- The server when it starts. The listening socket and the standard streams are open. -/
structure Starts (s : Server) : Prop where
  connected : s.connected = []
  created : s.created = 0
  networkDevices : s.networkDevices = fun _ => ∅
  networkMutex : s.networkMutex = none
  handler : s.handler = fun _ => .absent
  sender : s.sender = fun _ => .absent
  receiver : s.receiver = fun _ => .absent
  device : ∀ d, (s.device d).connectionState = .intialization ∧ (s.device d).memoryPointers = 0 ∧
    (s.device d).sendingBuffer = [] ∧ (s.device d).newMessageMutex = none ∧ (s.device d).deletes = 0

end Server

/-- **The relay server as a machine.** -/
def relay (C : Crypto) : Runs.Machine Server Action := ⟨Server.Starts, Server.step C⟩

end ServerRoom.Relay
