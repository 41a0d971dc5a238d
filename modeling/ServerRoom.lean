import ServerRoom.Lib.ByteMem
import ServerRoom.Lib.Framing
import ServerRoom.Lib.Runs
import ServerRoom.Spec.Message
import ServerRoom.Spec.Sender
import ServerRoom.Spec.Receiver
import ServerRoom.Spec.Handler
import ServerRoom.Spec.Relay
import ServerRoom.Spec.Server
import ServerRoom.Spec.History
import ServerRoom.Spec.Frame
import ServerRoom.Proof.Receive
import ServerRoom.Proof.Reassembly
import ServerRoom.Proof.Stream
import ServerRoom.Proof.Sealed
import ServerRoom.Proof.Verdict
import ServerRoom.Proof.Delivery
import ServerRoom.Proof.Threads
import ServerRoom.Proof.Ownership
import ServerRoom.Lib.Sharing
import ServerRoom.Proof.Lifetime
import ServerRoom.Proof.Wakeup
import ServerRoom.Proof.Observed
import ServerRoom.Proof.Digest
import ServerRoom.Proof.Provenance
import ServerRoom.Lib.Rounds
import ServerRoom.Proof.Membership
import ServerRoom.Proof.Broadcast
import ServerRoom.Proof.Outgoing
import ServerRoom.Spec.Servers
import ServerRoom.Proof.Servers
import ServerRoom.Proof.Relays
import ServerRoom.Lib.Clock
import ServerRoom.Proof.Waveform
import ServerRoom.Proof.Orders
import ServerRoom.Proof.Pings
import ServerRoom.Spec.Receiving
import ServerRoom.Proof.Receiving
import ServerRoom.Proof.Registry
import ServerRoom.Spec.Process
import ServerRoom.Proof.Disconnection
import ServerRoom.Proof.Sending
import ServerRoom.Lib.Periodic
import ServerRoom.Spec.Sensors
import ServerRoom.Proof.Alarms
import ServerRoom.Lib.LockOrder
import ServerRoom.Spec.Locking
import ServerRoom.Proof.Deadlock
import ServerRoom.Proof.Calls
import ServerRoom.Proof.Liveness
import ServerRoom.Proof.Temperature
import ServerRoom.Proof.Counting
import ServerRoom.Spec.Board
import ServerRoom.Proof.Board
import ServerRoom.Lib.Fields
import ServerRoom.Proof.Reports
import ServerRoom.System.Installation
import ServerRoom.System.Delivery
import ServerRoom.Lib.Pulses
import ServerRoom.Spec.Dht22
import ServerRoom.Proof.Dht22
import ServerRoom.Lib.Races
import ServerRoom.Spec.Accesses
import ServerRoom.Proof.Races
import ServerRoom.Lib.Progress
import ServerRoom.Proof.Handover
import ServerRoom.Proof.Reclaim
import ServerRoom.Spec.KeepAlive
import ServerRoom.Proof.KeepAlive
import ServerRoom.Proof.Genuine
import ServerRoom.Proof.Promptness
import ServerRoom.Proof.Controllers
import ServerRoom.Proof.Teardown
import ServerRoom.Lib.Agreement
import ServerRoom.System.Uninitialised
