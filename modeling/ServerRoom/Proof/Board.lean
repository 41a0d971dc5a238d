import Mathlib.Algebra.GroupWithZero.Nat
import ServerRoom.Proof.Orders
import ServerRoom.Proof.Sending
import ServerRoom.Spec.Board

/-!
# Why the whole sketch writes to a relay

Each part of the sketch does what it does alone: `loop_networkHandler`, and `loop_server` for
one server. A write to a relay has a cause, and the causes are counted: `Within n v v'` says
that the server went from `v` to `v'` for the price of `n` closings, those that its operation
still has to do included.

* `Moves.within`: the price of a step; a press costs one closing, an order one or two, and
  nothing else costs any.
* `loop_within`: the price of an iteration of `loop()`.
* `relay_writes_accounted`: in every run of the sketch, a relay is written at most as often as
  its button was pressed and as the frames read from the network order.
-/

namespace ServerRoom

variable {V : Type} {C : Crypto} {format : Reading V → String}

/-! ## The price of a step -/

/-- The closings that an operation still has to do. -/
def Operation.closings : Operation → ℕ
  | .serverRestartOp | .serverRestartOp2 => 1
  | _ => 0

/-- The openings that it still has to do. -/
def Operation.openings : Operation → ℕ
  | .noOp => 0
  | .serverTurnOnOp | .serverTurnOffOp | .serverRestartOp2 => 1
  | .serverRestartOp => 2

/-- How often an order closes the relay. -/
def Order.closings : Order → ℕ
  | .restart => 2
  | _ => 1

/-- How often a command closes the relay of server `i` at most. -/
def Command.closings (i : ℕ) : Place → Command → ℕ
  | .button j, .button readings => if j = i then presses readings else 0
  | .idle, .order o index _ _ => if index.toNat = i then o.closings else 0
  | _, _ => 0

namespace ServerState

variable {v v' v'' : ServerState} {i m n : ℕ} {p : Place} {cmd : Command}

/-- From `v` to `v'` at most `n` closings were caused, and no more openings. -/
structure Within (n : ℕ) (v v' : ServerState) : Prop where
  low : v'.written.count .low + v'.operation.closings ≤ v.written.count .low + v.operation.closings + n
  high : v'.written.count .high + v'.operation.openings ≤ v.written.count .high + v.operation.openings + n

theorem Within.refl (v : ServerState) : Within 0 v v := ⟨Nat.le_refl _, Nat.le_refl _⟩

theorem Within.trans (h : Within m v v') (h' : Within n v' v'') : Within (m + n) v v'' := by
  have h1 := h.low
  have h2 := h'.low
  have h3 := h.high
  have h4 := h'.high
  exact ⟨by omega, by omega⟩

theorem Within.mono (h : Within m v v') (hle : m ≤ n) : Within n v v' := by
  have h1 := h.low
  have h2 := h.high
  exact ⟨by omega, by omega⟩

/-- **The price of a step.** -/
theorem Moves.within (h : v.Moves i p cmd v') : Within (cmd.closings i p) v v' := by
  cases h with
  | elsewhere hno => exact (Within.refl v).mono (Nat.zero_le _)
  | released readings h0 => exact (Within.refl v).mono (Nat.zero_le _)
  | pressed readings hpos =>
    have hlow : (List.replicate (presses readings) Level.low ++ [Level.high]).count .low = presses readings := by simp
    have hhigh : (List.replicate (presses readings) Level.low ++ [Level.high]).count .high = 1 := by
      simp [List.count_replicate]
    constructor <;> simp only [List.count_append, Command.closings, if_true] at hlow hhigh ⊢ <;> omega
  | waits now later hw => exact Within.refl v
  | ends now later hph ht =>
    -- the level that ends a phase was already counted
    cases hop : v.operation <;> rw [hop] at hph <;> cases hph <;>
      constructor <;> simp [Command.closings, Operation.closings, Operation.openings, hop]
  | refused o index t₀ t₁ he hno => exact (Within.refl v).mono (Nat.zero_le _)
  | accepted o index t₀ t₁ he ha =>
    have hop := ha.1
    cases o <;> constructor <;>
      simp [Command.closings, Operation.closings, Operation.openings, Order.operation, Order.closings, he, hop]
  | pinged index t he => exact ⟨Nat.le_refl _, Nat.le_refl _⟩

end ServerState

/-! ## The price of an iteration -/

/-- How often a message closes the relay of server `i` at most. -/
def Message.closings (i : ℕ) (m : Message) : ℕ :=
  if m.serverNumber = i then
    match m.messageType with
    | 0x50 | 0x51 => 1
    | 0x52 => 2
    | _ => 0
  else 0

theorem Message.toNat_serverNumber (m : Message) : (UInt8.ofNat m.serverNumber).toNat = m.serverNumber := by
  refine UInt8.toNat_ofNat_of_lt' ?_
  unfold Message.serverNumber
  simp only [UInt8.size]
  omega

namespace ServersHandler

open ServerState

variable {w : Wiring} {h : ServersHandler} {i j : ℕ}

theorem Wired.visit (hw : Wired w h) (j : ℕ) (v : Visit) : Wired w (h.visit j v) :=
  (hw.handleButton v.readings).handleOperation v.now v.later

theorem visit_within (hw : Wired w h) (hi : i < w.serversCount.toNat) (hj : j < w.serversCount.toNat) (v : Visit) :
    Within (if j = i then presses v.readings else 0) (h.server w i) ((h.visit j v).server w i) := by
  have hbutton := (handleButton_moves hw hi hj v.readings).within
  have hop := (handleOperation_moves (hw.handleButton (j := j) v.readings) hi hj v.now v.later).within
  exact hbutton.trans hop

/-- **The price of `loop`** is that of the presses that it sees. -/
theorem loop_within (hw : Wired w h) (hi : i < w.serversCount.toNat) (v : ℕ → Visit) :
    Wired w (h.loop v) ∧ Within (presses (v i).readings) (h.server w i) ((h.loop v).server w i) := by
  have hfold : ∀ k ≤ w.serversCount.toNat,
      Wired w ((List.range k).foldl (fun h i => h.visit i (v i)) h) ∧
        Within (if i < k then presses (v i).readings else 0) (h.server w i)
          (((List.range k).foldl (fun h i => h.visit i (v i)) h).server w i) := by
    intro k
    induction k with
    | zero => exact fun _ => ⟨hw, Within.refl _⟩
    | succ k ih =>
      intro hk
      obtain ⟨hw', hpaid⟩ := ih (by omega)
      rw [List.range_succ, List.foldl_append, List.foldl_cons, List.foldl_nil]
      refine ⟨hw'.visit k (v k), (hpaid.trans (visit_within hw' hi hk (v k))).mono ?_⟩
      -- a server is visited once
      rcases Nat.lt_trichotomy i k with hlt | rfl | hgt
      · rw [if_pos hlt, if_neg (by omega), if_pos (by omega)]
        exact Nat.le_refl _
      · rw [if_neg (Nat.lt_irrefl i), if_pos rfl, if_pos (Nat.lt_succ_self i), Nat.zero_add]
      · rw [if_neg (by omega), if_neg (by omega)]
        exact Nat.zero_le _
  have hall := hfold h.serversCount.toNat (by rw [hw.count])
  rw [hw.count, if_pos hi, ← hw.count] at hall
  exact hall

open NetworkReceiver in
/-- **The price of a message.** -/
theorem processingUnit_within (hw : Wired w h) (hi : i < w.serversCount.toNat) (rx : NetworkReceiver) (t₀ t₁ : ℕ) :
    Wired w (processingUnit h (receive rx).1 t₀ t₁) ∧
      Within ((receive rx).1.closings i) (h.server w i) ((processingUnit h (receive rx).1 t₀ t₁).server w i) := by
  have hexec : ∀ o, Within (if (receive rx).1.serverNumber = i then Order.closings o else 0) (h.server w i)
      ((h.execute o (UInt8.ofNat (receive rx).1.serverNumber) t₀ t₁).2.server w i) := by
    intro o
    have hm := (execute_moves hw hi o (UInt8.ofNat (receive rx).1.serverNumber) t₀ t₁).within
    simp only [Command.closings, Message.toNat_serverNumber] at hm
    exact hm
  have hwired := fun o => hw.execute o (UInt8.ofNat (receive rx).1.serverNumber) t₀ t₁
  unfold processingUnit Message.closings
  rw [serverNumber_eq]
  generalize (receive rx).1.messageType = type
  dsimp only
  split
  · exact ⟨hwired .turnOn, hexec .turnOn⟩
  · exact ⟨hwired .turnOff, hexec .turnOff⟩
  · exact ⟨hwired .restart, hexec .restart⟩
  · refine ⟨hw.pingFromServer _ t₀, ?_⟩
    exact (pingFromServer_moves hw hi _ t₀).within.mono (Nat.zero_le _)
  · exact ⟨hw, (Within.refl _).mono (Nat.zero_le _)⟩

end ServersHandler

/-! ## The parts of an iteration -/

namespace Board

open NetworkHandler

variable {b : Board V} {L : Log} {e : Env V} {i : ℕ}

/-- **The network handler of the sketch runs as it does alone.** -/
theorem loop_networkHandler (C : Crypto) (format : Reading V → String) (b : Board V) (e : Env V) :
    (b.loop C format e).1.networkHandler = (b.networkHandler.iterate C (b.iterEnv format e)).1 ∧
      (b.loop C format e).2 = (b.networkHandler.iterate C (b.iterEnv format e)).2 := by
  have hpayload : (b.iterEnv format e).report = (b.payload format e).map (sendCall e.stack e.link) := rfl
  rw [iterate_eq, beforeDrain, hpayload]
  unfold Board.loop
  dsimp only
  rw [show ((b.sensors.sense e.sensors).reportDataToServer
    (reporting format (b.temperatureHumidityHandler.loop e.measurement).1 e.sensors)).2 = b.payload format e from rfl]
  cases b.payload format e with
  | none => exact ⟨rfl, rfl⟩
  | some payload => exact ⟨rfl, rfl⟩

/-- A message that is handed on is one that `receive` returned. -/
theorem drain_receive {h : NetworkHandler} {m : Message} (hm : h.drain.2 = some m) :
    ∃ rx : NetworkReceiver, m = rx.receive.1 := by
  unfold NetworkHandler.drain at hm
  split at hm
  · exact ⟨h.receiver, (Option.some.inj hm).symm⟩
  · cases hm

/-- **The servers in an iteration**: `loop`, then what the message orders. -/
theorem loop_serverHandler (C : Crypto) (format : Reading V → String) (b : Board V) (e : Env V) :
    (b.loop C format e).1.serverHandler =
      match (b.loop C format e).2 with
      | none => b.serverHandler.loop e.visits
      | some order => processingUnit (b.serverHandler.loop e.visits) order e.orderTime e.orderLater := rfl

/-- **The price of an iteration**: that of the presses, and that of the message. -/
theorem loop_within {w : Wiring} (hw : ServersHandler.Wired w b.serverHandler) (hi : i < w.serversCount.toNat) :
    ServersHandler.Wired w (b.loop C format e).1.serverHandler ∧
      ServerState.Within (presses (e.visits i).readings + ((b.loop C format e).2.map (Message.closings i)).getD 0)
        (b.serverHandler.server w i) ((b.loop C format e).1.serverHandler.server w i) := by
  obtain ⟨hw', hvisits⟩ := ServersHandler.loop_within hw hi e.visits
  have hmessage : ∀ m, (b.loop C format e).2 = some m → ∃ rx : NetworkReceiver, m = rx.receive.1 := by
    intro m hm
    rw [(loop_networkHandler C format b e).2, iterate_eq] at hm
    exact drain_receive hm
  rw [loop_serverHandler]
  cases hdata : (b.loop C format e).2 with
  | none => exact ⟨hw', hvisits⟩
  | some order =>
    obtain ⟨rx, rfl⟩ := hmessage order hdata
    obtain ⟨hw'', horder⟩ := ServersHandler.processingUnit_within hw' hi rx e.orderTime e.orderLater
    exact ⟨hw'', hvisits.trans horder⟩

/-! ## Runs -/

/-- The network of the board: what its identifier and its keys are. -/
def network : NetworkInfo := .new mainNetworkId mainKey mainKey 0 0

/-- How often the button of server `i` was pressed. -/
def Log.pressed (L : Log) (i : ℕ) : ℕ := ((L.buttons i).map presses).sum

/-- How often a frame orders the relay of server `i` to close: not at all, unless the board takes
it for a message of its network, which names the server. -/
def orderedBy (C : Crypto) (i : ℕ) (f : List UInt8) : ℕ :=
  ((Frame.deliver C network f).map (Message.closings i)).getD 0

/-- How often the frames that were read order it. -/
def Log.ordered (C : Crypto) (L : Log) (i : ℕ) : ℕ := (L.history.frames.map fun f => orderedBy C i f.2).sum

/-- Messages cost what their frames order. -/
theorem sum_closings (C : Crypto) (i : ℕ) (frames : List (ℕ × List UInt8)) :
    ((frames.filterMap fun f => Frame.deliver C network f.2).map (Message.closings i)).sum =
      (frames.map fun f => orderedBy C i f.2).sum := by
  induction frames with
  | nil => rfl
  | cons f frames ih =>
    rw [List.filterMap_cons, List.map_cons, List.sum_cons, ← ih]
    unfold orderedBy
    cases Frame.deliver C network f.2 with
    | none => exact (Nat.zero_add _).symm
    | some m => rfl

/-- **What the log accounts for.** -/
structure Accounted (C : Crypto) (b : Board V) (L : Log) : Prop where
  stream : StreamOk C network b.networkHandler L.history
  wired : ServersHandler.Wired Wiring.main b.serverHandler
  paid : ∀ i < 3, ServerState.Within (L.pressed i + (L.history.messages.map (Message.closings i)).sum)
    ⟨.noOp, 0, 0, []⟩ (b.serverHandler.server Wiring.main i)

/-- `setup()` leaves the servers' handler as it starts. -/
theorem setup_starts [Zero V] (e : Boot) :
    ServersHandler.Starts Wiring.main ((Board.setup e : Board V).serverHandler, .idle) :=
  ⟨e.relayPins, e.buttonPins, fun i => e.time (9 + i), ⟨fun _ => none, fun _ => []⟩, fun _ _ => rfl, rfl⟩

theorem Accounted.setup [Zero V] (C : Crypto) (e : Boot) : Accounted C (Board.setup e : Board V) .empty where
  stream := by
    have hnew := StreamOk.new C mainNetworkId mainKey mainKey (millis (e.time 7)) (millis (e.time 8))
    exact ⟨⟨rfl, rfl, rfl⟩, hnew.idle, hnew.synced, hnew.tail, hnew.past, hnew.future, rfl⟩
  wired := (ServersHandler.Ready.init (setup_starts (V := V) e)).wired
  paid i hi := by
    obtain ⟨hop, hwritten⟩ := (setup_starts (V := V) e).server hi
    constructor
    · rw [hwritten, hop]
      exact Nat.zero_le _
    · rw [hwritten, hop]
      exact Nat.zero_le _

theorem Accounted.step (h : Accounted C b L) (e : Env V) :
    Accounted C (b.loop C format e).1 (L.record C format b e) := by
  obtain ⟨hnext, hdata⟩ := loop_networkHandler C format b e
  have hloop : ∀ i < 3, ServersHandler.Wired Wiring.main (b.loop C format e).1.serverHandler ∧ _ :=
    fun i hi => loop_within (w := Wiring.main) h.wired hi
  refine ⟨?_, ?_, fun i hi => ?_⟩
  · rw [hnext]
    exact h.stream.iterate C _
  · exact (hloop 0 (by decide)).1
  · have hpaid := (h.paid i hi).trans (hloop i hi).2
    refine hpaid.mono (Nat.le_of_eq ?_)
    have hmessages : (L.record C format b e).history.messages = L.history.messages ++ (b.loop C format e).2.toList := by
      rw [hdata]
      rfl
    have hpressed : (L.record C format b e).pressed i = L.pressed i + presses (e.visits i).readings := by
      simp [Log.pressed, Log.record]
    rw [hmessages, hpressed, List.map_append, List.sum_append]
    cases (b.loop C format e).2 <;> simp <;> omega

theorem logged_init [Zero V] (C : Crypto) (format : Reading V → String) (e : Boot) :
    (logged C format).init (Board.setup e, .empty) := ⟨⟨e, rfl⟩, rfl⟩

theorem Accounted.reach [Zero V] (h : (logged C format).Reach (b, L)) : Accounted C b L := by
  have hall : ∀ p, (logged C format).Reach p → Accounted C p.1 p.2 := by
    intro p hp
    refine hp.induct (I := fun p => Accounted C p.1 p.2) ?_ fun p e p' _ hi _ hs => ?_
    · rintro ⟨b, L⟩ ⟨⟨boot, rfl⟩, rfl⟩
      exact .setup C boot
    · obtain ⟨hstep, hrecord⟩ := Runs.Machine.recording_step hs
      rw [hrecord, ← Option.some.inj hstep]
      exact hi.step e
  exact hall (b, L) h

/-- **The price is paid** by the presses and by the orders that were read. -/
theorem Accounted.bounds (h : Accounted C b L) (hi : i < 3) :
    (b.serverHandler.pins.written (Wiring.main.relayPin i)).count .low ≤ L.pressed i + L.ordered C i ∧
      (b.serverHandler.pins.written (Wiring.main.relayPin i)).count .high ≤ L.pressed i + L.ordered C i := by
  have hpaid := h.paid i hi
  rw [h.stream.messages, sum_closings] at hpaid
  have hlow := hpaid.low
  have hhigh := hpaid.high
  have hwritten : (b.serverHandler.server Wiring.main i).written =
      b.serverHandler.pins.written (Wiring.main.relayPin i) := rfl
  rw [hwritten] at hlow hhigh
  simp only [List.count_nil, Operation.closings, Operation.openings] at hlow hhigh
  unfold Log.ordered
  exact ⟨by omega, by omega⟩

theorem ordered_eq_zero (h : ∀ p ∈ L.history.frames, orderedBy C i p.2 = 0) : L.ordered C i = 0 := by
  unfold Log.ordered
  refine List.sum_eq_zero_iff_forall_eq_nat.2 fun n hn => ?_
  obtain ⟨f, hf, rfl⟩ := List.mem_map.1 hn
  exact h f hf

/-- **Every write to a relay is accounted for.** In every run of the sketch, and for each of
its servers: the relay was closed, and opened, at most as often as its button was pressed and
the frames that were read order it; each of these frames is a contiguous part of the bytes
that were read on a connection. Without a press and such a frame nothing was written to it. -/
theorem relay_writes_accounted [Zero V] (C : Crypto) (format : Reading V → String) {b : Board V} {L : Log}
    (h : (logged C format).Reach (b, L)) {i : ℕ} (hi : i < 3) :
    let writes := b.serverHandler.pins.written (Wiring.main.relayPin i)
    (writes.count .low ≤ L.pressed i + L.ordered C i ∧ writes.count .high ≤ L.pressed i + L.ordered C i) ∧
      (∀ c f, (c, f) ∈ L.history.frames → f <:+: L.history.read c) ∧
      (L.pressed i = 0 → (∀ p ∈ L.history.frames, orderedBy C i p.2 = 0) → writes = []) := by
  intro writes
  have hacc := Accounted.reach h
  have hbounds : writes.count .low ≤ _ ∧ writes.count .high ≤ _ := hacc.bounds hi
  refine ⟨hbounds, fun c f hf => hacc.stream.frame_infix C hf, fun hno hframes => ?_⟩
  rw [hno, ordered_eq_zero hframes] at hbounds
  obtain ⟨hlow, hhigh⟩ := hbounds
  refine List.eq_nil_iff_forall_not_mem.2 fun l hl => ?_
  have hpos := List.count_pos_iff.2 hl
  cases l <;> omega

/-- The clock of a board that is ready after 1001 ms. -/
def boot : Boot := ⟨fun i => if i = 13 then 1001 else 0, fun _ => 0, fun _ => 0⟩

/-- An iteration at the time `t`, in which the button of server 0 is read as `readings`. -/
def Env.at (t : ℕ) (readings : List Level) : Env ℕ where
  measurement := ⟨t, t, .value 0, .value 0⟩
  sensors := ⟨fun _ => t, .low, 1000, 1000, 100, "", ""⟩
  network := .at true (millis t) fun _ => true
  visits i := ⟨if i = 0 then readings else [], t, t⟩
  stack _ := 0
  link := ⟨true, fun _ => true⟩
  orderTime := t
  orderLater := t

/-- The button of server 0 is pressed once, and no frame is read. -/
theorem relay_writes_accounted_pressed : ∃ b L, (logged Crypto.zero fun (_ : Reading ℕ) => "0").Reach (b, L) ∧
    L.pressed 0 = 1 ∧ L.history.frames = [] ∧ (b.serverHandler.pins.written 30).count .low ≤ 1 := by
  have hrun : ((logged Crypto.zero fun (_ : Reading ℕ) => "0").run (Board.setup boot, .empty)
      [.at 2000 [.low, .low], .at 2500 []]).any
      (fun p => p.2.pressed 0 = 1 ∧ p.2.history.frames = []) = true := by decide +kernel
  obtain ⟨⟨b, L⟩, hr, hs⟩ := Runs.Machine.exists_reach (logged_init _ _ boot) hrun
  obtain ⟨hpressed, hframes⟩ := of_decide_eq_true hs
  have hlow := (relay_writes_accounted Crypto.zero _ hr (i := 0) (by decide)).1.1
  have hnone : L.ordered Crypto.zero 0 = 0 := by
    unfold Log.ordered
    rw [hframes]
    rfl
  rw [hpressed, hnone] at hlow
  exact ⟨b, L, hr, hpressed, hframes, hlow⟩

end Board

end ServerRoom
