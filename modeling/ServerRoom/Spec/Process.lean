import ServerRoom.Spec.History

/-!
# The server process and the other ends of its connections

`send_message` of `src/server/utility.cpp` one call of `send` at a time, with the peer of
each connection, which may close or reset it at any moment, and with what
`initialize_server` in `server.cpp` arranges for signals. A `send` to a peer that has reset
raises `SIGPIPE`, which ends the process unless the program has arranged otherwise.

The rest of the process is the relay server of `Spec/Server.lean`: a read that fails, for
whatever reason, is one of its steps.
-/

namespace ServerRoom.Relay

/-- The other end of a connection. One that has closed it may still reset it. -/
inductive Peer
  | nobody
  | connected
  | closed
  | reset
  deriving DecidableEq

inductive Signal
  | sigchld
  | sigpipe
  deriving DecidableEq

/-- The signals for which `initialize_server` calls `sigaction`. -/
def handledSignals : List Signal := [.sigchld]

/-- The process: the relay server, the peer at each descriptor, what `send` has returned in
the call of `send_message` that a sender is in, and whether the process is running. -/
structure Process where
  server : Server
  peer : ℕ → Peer
  results : ℕ → List (Option ℕ)
  running : Bool

/-- What happens next: a step of the server, a call of `send` by the sender of `d`, with its
result if the peer has not reset the connection, or a peer that closes or resets. -/
inductive Happening
  | step (a : Action)
  | send (d : ℕ) (result : Option ℕ)
  | close (fd : ℕ)
  | reset (fd : ℕ)

/-- The message that the sender of `d` is sending. -/
def Server.sending (s : Server) (d : ℕ) : Option NetworkMessage :=
  match s.sender d with
  | .drain i => (s.device d).sendingBuffer[i]?
  | _ => none

namespace Process

/-- The socket of `d` is open, and its peer has reset the connection. -/
def IsReset (p : Process) (d : ℕ) : Prop :=
  (p.server.device d).sockfd ∈ p.server.openFds ∧ p.peer (p.server.device d).sockfd = .reset

instance (p : Process) (d : ℕ) : Decidable (p.IsReset d) := inferInstanceAs (Decidable (_ ∧ _))

/-- One call of `send` with flags 0, in the loop of `send_message`. -/
def send (p : Process) (d : ℕ) (result : Option ℕ) : Option Process :=
  match p.server.sending d with
  | none => none
  | some m =>
    if sendLoop m.messageLength 0 (p.results d) < m.messageLength then
      if p.IsReset d then
        if .sigpipe ∈ handledSignals then
          -- EPIPE
          some { p with results := Function.update p.results d (p.results d ++ [none]) }
        else some { p with running := false }
      else some { p with results := Function.update p.results d (p.results d ++ [result]) }
    else none

/-- A step of the server. When `send_message` returns, its results are those of its calls
of `send`; a new connection has a new peer. -/
def serverStep (C : Crypto) (p : Process) : Action → Option Process
  | .accept fd =>
    (p.server.step C (.accept fd)).map fun s =>
      { p with server := s, peer := Function.update p.peer fd .connected }
  | .sender d e =>
    (p.server.step C (.sender d { e with results := p.results d })).map fun s =>
      { p with server := s, results := Function.update p.results d [] }
  | a => (p.server.step C a).map fun s => { p with server := s }

def step (C : Crypto) (p : Process) (a : Happening) : Option Process :=
  if p.running then
    match a with
    | .step a => p.serverStep C a
    | .send d result => p.send d result
    | .close fd =>
      if p.peer fd = .connected then some { p with peer := Function.update p.peer fd .closed } else none
    | .reset fd =>
      if p.peer fd = .connected ∨ p.peer fd = .closed then
        some { p with peer := Function.update p.peer fd .reset }
      else none
  else none

/-- The process when it starts. -/
structure Starts (p : Process) : Prop where
  server : p.server.Starts
  peer : p.peer = fun _ => .nobody
  results : p.results = fun _ => []
  running : p.running = true

end Process

/-- **The server process as a machine.** -/
def process (C : Crypto) : Runs.Machine Process Happening := ⟨Process.Starts, Process.step C⟩

end ServerRoom.Relay
