import ServerRoom.Lib.LockOrder
import ServerRoom.Spec.Server

/-!
# The relay server, one lock or unlock at a time

The same threads as in `Spec/Server.lean`, with their sections under `itmes_mutex` taken
apart: `acquire`, `release` and the sections in `device.cpp` lock the mutex, execute the
statement, and unlock the mutex, in three steps between which other threads run. Beside them
stand the two threads that share `vector_mutex`: `start_server` in `server.cpp` and `main` in
`main.cpp`.

A device that does not exist yet has a free `itmes_mutex`; that of a deleted device stays as
it is.
-/

namespace ServerRoom.Relay

/-- The threads of the process: `start_server`, `main`, and those of the connections. -/
inductive Party
  | acceptor
  | main
  | thread (t : Thread)
  deriving DecidableEq

/-- `vector_mutex`, `network_devices_mutex`, and the two mutexes of device `d`. -/
inductive Mutex
  | vector
  | network
  | newMessage (d : ℕ)
  | itmes (d : ℕ)
  deriving DecidableEq

/-- Where the loop of `start_server` stands. -/
inductive AcceptorPc
  | accept
  | lock (newFd : ℕ)
  | pushFront (newFd : ℕ)
  | signal
  | unlock
  deriving DecidableEq

/-- Where the loop of `main` stands: `waiting` in `pthread_cond_wait`, `woken` when signalled
there and not yet in possession of the mutex, `create` before the next of the connected
devices. -/
inductive MainPc
  | lock
  | test
  | waiting
  | woken
  | create
  | unlock
  deriving DecidableEq

/-! ## What a thread of a connection locks -/

/-- The device whose `itmes_mutex` protects the statement at a program counter. -/
def HandlerPc.itmes (d : ℕ) : HandlerPc → Option ℕ
  | .acquire | .state | .release => some d
  | _ => none

def SenderPc.itmes (d : ℕ) : SenderPc → Option ℕ
  | .acquire | .state | .release => some d
  | _ => none

def ReceiverPc.itmes (d : ℕ) (e : Env) : ReceiverPc → Option ℕ
  | .acquire | .start | .stamp _ | .setWorking _ | .addAcquire _ => some d
  | .castCopy _ todo _ => if e.pick ∈ todo then some e.pick else none
  | .castRelease _ r _ => some r
  | .last | .leave | .removeRelease | .setEnded | .release => some d
  | _ => none

def Server.itmes (s : Server) (e : Env) : Thread → Option ℕ
  | .handler d => (s.handler d).itmes d
  | .sender d => (s.sender d).itmes d
  | .receiver d => (s.receiver d).itmes d e

/-- The next statement of a thread. -/
def Server.statement (C : Crypto) (s : Server) (e : Env) : Thread → Option Stmt
  | .handler d => ((s.handler d).next C d (s.device d) s.digest e).map Prod.fst
  | .sender d => ((s.sender d).next d (s.device d)).map Prod.fst
  | .receiver d => ((s.receiver d).next C d (s.device d) s.networkDevices s.digest e).map Prod.fst

/-- The mutex that a statement locks. -/
def Stmt.locks : Stmt → Option Mutex
  | .lockNetwork => some .network
  | .lockBuffer d => some (.newMessage d)
  | _ => none

def Thread.action (e : Env) : Thread → Action
  | .handler d => .handler d e
  | .sender d => .sender d e
  | .receiver d => .receiver d e

/-! ## The process -/

/-- How far a thread is with a section: outside, inside with the mutex of `d` locked and the
statement to come, which will read `e`, or with only the unlock left. -/
inductive Phase
  | outside
  | inside (d : ℕ) (e : Env)
  | leaving (d : ℕ)

/-- The server with the mutexes that `Spec/Server.lean` does not have. -/
structure Locking where
  server : Server
  vectorMutex : Option Party
  itmesMutex : ℕ → Option Party
  acceptor : AcceptorPc
  main : MainPc
  phase : Thread → Phase

/-- What a step reads from outside: beside what the threads of a connection read, the
descriptor from `accept`, and what the memory of a new record held. -/
structure Given extends Env where
  newFd : ℕ := 0
  networkId : UInt32 := 0
  last : ℕ := 0

/-- Who moves: a thread, or a wake-up that nobody signalled. -/
inductive Move
  | run (p : Party) (g : Given)
  | wakeMain
  | wakeSender (d : ℕ)

namespace Locking

/-- One iteration of the loop in `start_server`. -/
def acceptorStep (C : Crypto) (s : Locking) (newFd : ℕ) : Option Locking :=
  match s.acceptor with
  | .accept => if newFd ∈ s.server.openFds then none else some { s with acceptor := .lock newFd }
  | .lock fd =>
    if s.vectorMutex = none then some { s with vectorMutex := some .acceptor, acceptor := .pushFront fd }
    else none
  | .pushFront fd =>
    (s.server.step C (.accept fd)).map fun x => { s with server := x, acceptor := .signal }
  | .signal =>
    some { s with acceptor := .unlock, main := if s.main = .waiting then .woken else s.main }
  | .unlock => some { s with vectorMutex := none, acceptor := .accept }

/-- One iteration of the loop in `main`. -/
def mainStep (C : Crypto) (s : Locking) (g : Given) : Option Locking :=
  match s.main with
  | .lock | .woken =>
    if s.vectorMutex = none then some { s with vectorMutex := some .main, main := .test } else none
  | .test =>
    -- `pthread_cond_wait` gives the mutex back
    if s.server.connected = [] then some { s with vectorMutex := none, main := .waiting }
    else some { s with main := .create }
  | .waiting => none
  | .create =>
    if s.server.connected = [] then some { s with main := .unlock }
    else (s.server.step C (.create g.launched g.networkId g.last)).map fun x => { s with server := x }
  | .unlock => some { s with vectorMutex := none, main := .lock }

/-- A thread of a connection. -/
def threadStep (C : Crypto) (s : Locking) (t : Thread) (e : Env) : Option Locking :=
  match s.phase t with
  | .outside =>
    match s.server.itmes e t with
    | some d =>
      if s.itmesMutex d = none then
        some { s with
          itmesMutex := Function.update s.itmesMutex d (some (.thread t))
          phase := Function.update s.phase t (.inside d e) }
      else none
    | none => (s.server.step C (t.action e)).map fun x => { s with server := x }
  | .inside d e =>
    (s.server.step C (t.action e)).map fun x =>
      { s with server := x, phase := Function.update s.phase t (.leaving d) }
  | .leaving d =>
    some { s with
      itmesMutex := Function.update s.itmesMutex d none
      phase := Function.update s.phase t .outside }

def step (C : Crypto) (s : Locking) : Move → Option Locking
  | .run .acceptor g => s.acceptorStep C g.newFd
  | .run .main g => s.mainStep C g
  | .run (.thread t) g => s.threadStep C t g.toEnv
  | .wakeMain => if s.main = .waiting then some { s with main := .woken } else none
  | .wakeSender d => (s.server.step C (.wake d)).map fun x => { s with server := x }

/-- The process when it starts. -/
structure Starts (s : Locking) : Prop where
  server : s.server.Starts
  vectorMutex : s.vectorMutex = none
  itmesMutex : s.itmesMutex = fun _ => none
  acceptor : s.acceptor = .accept
  main : s.main = .lock
  phase : s.phase = fun _ => .outside

/-! ## Blocked threads -/

/-- Who has locked a mutex. -/
def owner (s : Locking) : Mutex → Option Party
  | .vector => s.vectorMutex
  | .network => s.server.networkMutex.map .thread
  | .newMessage d => (s.server.device d).newMessageMutex.map .thread
  | .itmes d => s.itmesMutex d

/-- The mutex that a party is about to lock, or to get back in `pthread_cond_wait`. -/
def locks (C : Crypto) (s : Locking) (e : Env) : Party → Option Mutex
  | .acceptor =>
    match s.acceptor with
    | .lock _ => some .vector
    | _ => none
  | .main =>
    match s.main with
    | .lock | .woken => some .vector
    | _ => none
  | .thread t =>
    match s.phase t with
    | .outside =>
      match s.server.itmes e t with
      | some d => some (.itmes d)
      | none => (s.server.statement C e t).bind Stmt.locks
    | .inside _ e => (s.server.statement C e t).bind Stmt.locks
    | .leaving _ => none

/-- A party stands at the lock of a mutex. A broadcast does so for any device that it may
acquire next. -/
def Wants (C : Crypto) (s : Locking) (p : Party) (m : Mutex) : Prop := ∃ e, s.locks C e p = some m

def Holds (s : Locking) (p : Party) (m : Mutex) : Prop := s.owner m = some p

/-- The parties of `S` are blocked on mutexes that parties of `S` hold. -/
def Deadlock (C : Crypto) (s : Locking) (S : Set Party) : Prop :=
  LockOrder.Deadlock (s.Wants C) s.Holds S

end Locking

/-- **The process as a machine.** -/
def locking (C : Crypto) : Runs.Machine Locking Move := ⟨Locking.Starts, Locking.step C⟩

end ServerRoom.Relay
