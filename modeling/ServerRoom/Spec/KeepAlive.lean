import ServerRoom.Lib.Runs
import ServerRoom.Spec.Frame
import ServerRoom.Spec.Handler
import ServerRoom.Spec.Servers

/-!
# Keeping the connection alive

What `NetworkConnection::keep_connected` and the ping of `NetworkReceiver` are for, on a clock
that does not wrap. `KeepAlive` is the life of the connections: when each was opened, when a
ping was heard on it and when a poke was sent on it. `KeepAlive.round` is one call of
`NetworkHandler::loop` as this abstract component sees it; `Signs` is all that it is told.

`keepingAlive` runs the component beside the code, whose clock is 32 bits of the same time.
-/

namespace ServerRoom

/-- `NetworkConnection::is_connected`, when the clock shows `now`. -/
def NetworkConnection.isConnected (now : UInt32) (info : NetworkInfo) : Bool :=
  now - info.lastPokeFromServer ≤ recievePokeTime

/-! ## The abstract component -/

/-- The lives of the connections: on each, when it was opened and a ping was heard, and when it
was opened and a poke was sent, in ms of real time, the last first. -/
structure KeepAlive where
  connection : ℕ
  heard : ℕ → List ℕ
  poked : ℕ → List ℕ

/-- What a round is told: whether the client is connected, whether a poke would be sent, whether
a ping is heard, and the readings of the clock. -/
structure Signs where
  connected : Bool
  sends : Bool
  hears : Bool
  time : ℕ → ℕ

namespace KeepAlive

/-- After that time without a ping the connection is given up. -/
def patience : ℕ := 12000

/-- After that time the server is poked again. -/
def period : ℕ := 5000

/-- Before the first connection is opened, the timers run from the construction. -/
def new (t₀ t₁ : ℕ) : KeepAlive where
  connection := 0
  heard c := if c = 0 then [t₁] else []
  poked c := if c = 0 then [t₀] else []

def lastHeard (k : KeepAlive) : ℕ := (k.heard k.connection).headD 0

def lastPoked (k : KeepAlive) : ℕ := (k.poked k.connection).headD 0

/-- A new connection, on which both timers start. -/
def connect (t₀ t₁ : ℕ) (k : KeepAlive) : KeepAlive where
  connection := k.connection + 1
  heard := Function.update k.heard (k.connection + 1) [t₁]
  poked := Function.update k.poked (k.connection + 1) [t₀]

def hear (t : ℕ) (k : KeepAlive) : KeepAlive :=
  { k with heard := Function.update k.heard k.connection (t :: k.heard k.connection) }

def poke (t : ℕ) (k : KeepAlive) : KeepAlive :=
  { k with poked := Function.update k.poked k.connection (t :: k.poked k.connection) }

/-- The connection was lost. -/
def reopen (e : Signs) (k : KeepAlive) : KeepAlive := if e.connected then k else k.connect (e.time 0) (e.time 1)

/-- The server was silent for too long. -/
def watch (e : Signs) (k : KeepAlive) : KeepAlive :=
  if k.lastHeard + patience < e.time 2 then k.connect (e.time 3) (e.time 4) else k

/-- It is time to poke the server; if that fails there is a new connection. -/
def remind (e : Signs) (k : KeepAlive) : KeepAlive :=
  if k.lastPoked + period < e.time 5 then
    if e.sends then k.poke (e.time 6) else k.connect (e.time 6) (e.time 7)
  else k

def listen (e : Signs) (k : KeepAlive) : KeepAlive := if e.hears then k.hear (e.time 8) else k

/-- **One round**, in real time. -/
def round (e : Signs) (k : KeepAlive) : KeepAlive := (((k.reopen e).watch e).remind e).listen e

/-- A connection on which `heard` and `poked` are as they should be, when the rounds come within `G`
ms: pings and pokes do not stay away for longer, and pokes do not come more often. -/
structure Regular (G : ℕ) (heard poked : List ℕ) : Prop where
  heard : heard.IsChain fun later earlier => earlier ≤ later ∧ later ≤ earlier + patience + G
  poked : poked.IsChain fun later earlier => earlier + period < later ∧ later ≤ earlier + period + G

end KeepAlive

/-! ## Beside the code -/

/-- The tries of `ethernet_send_message` in which the link takes a byte, for a message of `n` bytes. -/
def Link.takes (link : Link) (n : ℕ) : ℕ := ((List.range (sendTries * n)).filter link.write).length

/-- A message of `n` bytes is sent: the client is connected, and the link takes all bytes. -/
def Link.Sends (link : Link) (n : ℕ) : Prop := link.connected = true ∧ n ≤ link.takes n

instance (link : Link) (n : ℕ) : Decidable (link.Sends n) := inferInstanceAs (Decidable (_ ∧ _))

/-- An iteration of `loop()`, with the readings of the clock in real time. -/
structure TimedIteration where
  connected : Bool
  link : Link
  stack : Packed
  arrived : List UInt8
  report : Option SendCall
  time : ℕ → ℕ

/-- What the network handler meets in it. -/
def TimedIteration.env (e : TimedIteration) : IterEnv :=
  { connected := e.connected
    link := e.link
    stack := e.stack
    millis := fun i => millis (e.time i)
    arrived := e.arrived
    report := e.report }

/-- What the abstract component is told of an iteration. A poke has `headerLength` bytes; a ping is
heard when the frame that is processed is one. -/
def TimedIteration.signs (C : Crypto) (h : NetworkHandler) (e : TimedIteration) : Signs where
  connected := e.connected
  sends := e.link.Sends headerLength
  hears := (h.receiver.processed (NetworkHandler.ready C e.env.toLoopEnv h)).any
    (Frame.isPing C (NetworkHandler.ready C e.env.toLoopEnv h))
  time := e.time

/-- The handler, the lives of its connections, and the first and the last reading of the clock in the
last iteration. -/
structure KeptAlive where
  handler : NetworkHandler
  life : KeepAlive
  first : ℕ
  now : ℕ

namespace KeptAlive

/-- The handler after construction; its two timers are set one after the other. -/
def Starts (s : KeptAlive) : Prop :=
  ∃ networkId serverKey networkKey t₀ t₁, t₀ ≤ t₁ ∧
    s = ⟨.new (.new networkId serverKey networkKey (millis t₀) (millis t₁)), KeepAlive.new t₀ t₁, t₀, t₁⟩

def step (C : Crypto) (s : KeptAlive) (e : TimedIteration) : KeptAlive where
  handler := (s.handler.iterate C e.env).1
  life := s.life.round (e.signs C s.handler)
  first := e.time 0
  now := e.time 8

/-- Time does not go back, and the readings of an iteration and the next are within `G` ms. -/
def Steady (G : ℕ) (s : KeptAlive) (e : TimedIteration) : Prop :=
  s.now ≤ e.time 0 ∧ (∀ i < 8, e.time i ≤ e.time (i + 1)) ∧ e.time 8 ≤ s.first + G

instance (G : ℕ) (s : KeptAlive) (e : TimedIteration) : Decidable (Steady G s e) :=
  inferInstanceAs (Decidable (_ ∧ _ ∧ _))

end KeptAlive

/-- **The network handler with the lives of its connections.** -/
def keepingAlive (C : Crypto) : Runs.Machine KeptAlive TimedIteration :=
  ⟨KeptAlive.Starts, fun s e => some (s.step C e)⟩

end ServerRoom
