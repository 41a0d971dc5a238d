import ServerRoom.Proof.Board

/-!
# A controller for each server

The sketch keeps its servers in arrays and visits them in one loop. `ServerState.handle` is a controller of
one server alone, and `Board.events i` is what an iteration of `loop()` brings for server `i`: its button,
the clock at its visit, and the order or ping that names it.

* `Moves.handle_eq`: a step of the servers' handler is a step of the controller, or none.
* `loop_handle`, `processingUnit_handle`: the parts of an iteration, for one server.
* `one_controller`: in every run of the sketch, each server is where its own controller is.
-/

namespace ServerRoom

/-- What can happen to a server. -/
inductive ServerEvent
  | button (readings : List Level)
  | operation (now later : ℕ)
  | order (o : Order) (t₀ t₁ : ℕ)
  | ping (t : ℕ)

/-- What a message can ask of a server. -/
inductive Request
  | order (o : Order)
  | ping

def Request.event (t₀ t₁ : ℕ) : Request → ServerEvent
  | .order o => .order o t₀ t₁
  | .ping => .ping t₀

namespace ServerEvent

def request : ServerEvent → Option Request
  | .order o _ _ => some (.order o)
  | .ping _ => some .ping
  | _ => none

def readings : ServerEvent → Option (List Level)
  | .button readings => some readings
  | _ => none

end ServerEvent

namespace ServerState

variable {v v' : ServerState} {i : ℕ} {p : Place} {cmd : Command}

/-- **A controller of one server.** -/
def handle (v : ServerState) : ServerEvent → ServerState
  | .button readings =>
    if presses readings = 0 then v
    else { v with written := v.written ++ (List.replicate (presses readings) .low ++ [.high]) }
  | .operation now later =>
    match v.operation.phase with
    | none => v
    | some (delay, level, next) =>
      if millis now - v.timer > delay then
        { v with
          operation := next
          timer := if next = .noOp then v.timer else millis later
          written := v.written ++ [level] }
      else v
  | .order o t₀ t₁ =>
    if v.operation = .noOp ∧ v.Admits o t₀ then
      { v with operation := o.operation, timer := millis t₁, written := v.written ++ [.low] }
    else v
  | .ping t => { v with lastPing := millis t }

/-- A controller that was constructed at `t`. -/
def fresh (t : ℕ) : ServerState := ⟨.noOp, millis t, millis t, []⟩

/-- What a step brings for server `i`. -/
def eventOf (i : ℕ) : Place → Command → Option ServerEvent
  | .button j, .button readings => if j = i then some (.button readings) else none
  | .operation j, .operation now later => if j = i then some (.operation now later) else none
  | .idle, .order o index t₀ t₁ => if index.toNat = i then some (.order o t₀ t₁) else none
  | .idle, .pingFromServer index t => if index.toNat = i then some (.ping t) else none
  | _, _ => none

theorem eventOf_eq_none (h : ¬ Concerns i p cmd) : eventOf i p cmd = none := by
  cases p <;> cases cmd <;> first | exact if_neg h | rfl

/-- **A step of the servers' handler is a step of the controller**, if it is about the server. -/
theorem Moves.handle_eq (h : v.Moves i p cmd v') : v' = (eventOf i p cmd).toList.foldl handle v := by
  cases h with
  | elsewhere hno =>
    rw [eventOf_eq_none hno]
    rfl
  | released readings h0 =>
    have he : eventOf i (.button i) (.button readings) = some (.button readings) := if_pos rfl
    rw [he]
    exact (if_pos h0).symm
  | pressed readings hpos =>
    have he : eventOf i (.button i) (.button readings) = some (.button readings) := if_pos rfl
    rw [he]
    exact (if_neg (by omega)).symm
  | waits now later hw =>
    have he : eventOf i (.operation i) (.operation now later) = some (.operation now later) := if_pos rfl
    rw [he]
    simp only [Option.toList_some, List.foldl_cons, List.foldl_nil, handle]
    split
    · rfl
    · rename_i hph
      exact (if_neg (hw _ _ _ hph)).symm
  | ends now later hph ht =>
    have he : eventOf i (.operation i) (.operation now later) = some (.operation now later) := if_pos rfl
    rw [he]
    simp only [Option.toList_some, List.foldl_cons, List.foldl_nil, handle, hph]
    exact (if_pos ht).symm
  | refused o index t₀ t₁ hi hno =>
    have he : eventOf i .idle (.order o index t₀ t₁) = some (.order o t₀ t₁) := if_pos hi
    rw [he]
    exact (if_neg hno).symm
  | accepted o index t₀ t₁ hi ha =>
    have he : eventOf i .idle (.order o index t₀ t₁) = some (.order o t₀ t₁) := if_pos hi
    rw [he]
    exact (if_pos ha).symm
  | pinged index t hi =>
    have he : eventOf i .idle (.pingFromServer index t) = some (.ping t) := if_pos hi
    rw [he]
    rfl

end ServerState

/-- What a message asks of server `i`, as `processing_unit` takes it. -/
def Message.request (i : ℕ) (m : Message) : Option Request :=
  if m.serverNumber = i then
    match m.messageType with
    | 0x50 => some (.order .turnOn)
    | 0x51 => some (.order .turnOff)
    | 0x52 => some (.order .restart)
    | 0x30 => some .ping
    | _ => none
  else none

/-- What a message brings for server `i`. -/
def Message.event (i t₀ t₁ : ℕ) (m : Message) : Option ServerEvent := (m.request i).map (Request.event t₀ t₁)

theorem Message.event_request (i t₀ t₁ : ℕ) (m : Message) :
    (m.event i t₀ t₁).toList.filterMap ServerEvent.request = (m.request i).toList := by
  unfold Message.event
  cases m.request i with
  | none => rfl
  | some q => cases q <;> rfl

theorem Message.event_readings (i t₀ t₁ : ℕ) (m : Message) :
    (m.event i t₀ t₁).toList.filterMap ServerEvent.readings = [] := by
  unfold Message.event
  cases m.request i with
  | none => rfl
  | some q => cases q <;> rfl

namespace ServersHandler

open ServerState

variable {w : Wiring} {h : ServersHandler} {i j : ℕ}

/-- What a visit brings for its server. -/
def Visit.events (v : Visit) : List ServerEvent := [.button v.readings, .operation v.now v.later]

theorem visit_handle (hw : Wired w h) (hi : i < w.serversCount.toNat) (hj : j < w.serversCount.toNat) (v : Visit) :
    (h.visit j v).server w i =
      if j = i then v.events.foldl handle (h.server w i) else h.server w i := by
  have hbutton := (handleButton_moves hw hi hj v.readings).handle_eq
  have hop := (handleOperation_moves (hw.handleButton (j := j) v.readings) hi hj v.now v.later).handle_eq
  have hvisit : (h.visit j v).server w i = _ := hop
  rw [hvisit, hbutton]
  by_cases hij : j = i
  · have he : ∀ e : Option ServerEvent, (if j = i then e else none) = e := fun e => if_pos hij
    simp only [eventOf, he, if_pos hij]
    rfl
  · have he : ∀ e : Option ServerEvent, (if j = i then e else none) = none := fun e => if_neg hij
    simp only [eventOf, he, if_neg hij]
    rfl

/-- **The loop over the servers**, for one of them. -/
theorem loop_handle (hw : Wired w h) (hi : i < w.serversCount.toNat) (v : ℕ → Visit) :
    (h.loop v).server w i = (v i).events.foldl handle (h.server w i) := by
  -- by induction on the number of servers that were visited
  have hfold : ∀ k ≤ w.serversCount.toNat,
      Wired w ((List.range k).foldl (fun h i => h.visit i (v i)) h) ∧
        ((List.range k).foldl (fun h i => h.visit i (v i)) h).server w i =
          if i < k then (v i).events.foldl handle (h.server w i) else h.server w i := by
    intro k
    induction k with
    | zero => exact fun _ => ⟨hw, rfl⟩
    | succ k ih =>
      intro hk
      obtain ⟨hw', hstate⟩ := ih (by omega)
      rw [List.range_succ, List.foldl_append, List.foldl_cons, List.foldl_nil]
      refine ⟨hw'.visit k (v k), ?_⟩
      rw [visit_handle hw' hi hk, hstate]
      rcases Nat.lt_trichotomy i k with hlt | rfl | hgt
      · rw [if_neg (Nat.ne_of_gt hlt), if_pos hlt, if_pos (by omega)]
      · rw [if_pos rfl, if_neg (Nat.lt_irrefl i), if_pos (Nat.lt_succ_self i)]
      · rw [if_neg (Nat.ne_of_lt hgt), if_neg (by omega), if_neg (by omega)]
  have hall := (hfold h.serversCount.toNat (by rw [hw.count])).2
  rw [hw.count, if_pos hi, ← hw.count] at hall
  exact hall

open NetworkReceiver in
/-- **What `processing_unit` does with a message**, for one server. -/
theorem processingUnit_handle (hw : Wired w h) (hi : i < w.serversCount.toNat) (rx : NetworkReceiver) (t₀ t₁ : ℕ) :
    (processingUnit h (receive rx).1 t₀ t₁).server w i =
      ((receive rx).1.event i t₀ t₁).toList.foldl handle (h.server w i) := by
  have hto := Message.toNat_serverNumber (receive rx).1
  have horder : ∀ o, (h.execute o (UInt8.ofNat (receive rx).1.serverNumber) t₀ t₁).2.server w i =
      ((if (receive rx).1.serverNumber = i then some (Request.order o) else none).map
        (Request.event t₀ t₁)).toList.foldl handle (h.server w i) := by
    intro o
    have hm := (execute_moves hw hi o (UInt8.ofNat (receive rx).1.serverNumber) t₀ t₁).handle_eq
    simp only [eventOf, hto] at hm
    rw [hm]
    split <;> rfl
  have hping : (h.pingFromServer (UInt8.ofNat (receive rx).1.serverNumber) t₀).server w i =
      ((if (receive rx).1.serverNumber = i then some Request.ping else none).map
        (Request.event t₀ t₁)).toList.foldl handle (h.server w i) := by
    have hm := (pingFromServer_moves hw hi (UInt8.ofNat (receive rx).1.serverNumber) t₀).handle_eq
    simp only [eventOf, hto] at hm
    rw [hm]
    split <;> rfl
  unfold processingUnit Message.event Message.request
  rw [serverNumber_eq]
  generalize (receive rx).1.messageType = type
  dsimp only
  split
  · exact horder .turnOn
  · exact horder .turnOff
  · exact horder .restart
  · exact hping
  · -- a type that is neither an order nor a ping
    have hnone : (if (receive rx).1.serverNumber = i then (none : Option Request) else none) = none := ite_self _
    simp only [hnone]
    rfl

end ServersHandler

/-! ## The sketch -/

namespace Board

open ServerState

variable {V : Type} {C : Crypto} {format : Reading V → String} {b b' : Board V} {L : Log} {E : ℕ → List ServerEvent}
  {i : ℕ}

/-- **What an iteration of `loop()` brings for server `i`**: its visit, and the message if it names it. -/
def events (C : Crypto) (format : Reading V → String) (i : ℕ) (b : Board V) (e : Env V) : List ServerEvent :=
  (e.visits i).events ++ ((b.loop C format e).2.bind (Message.event i e.orderTime e.orderLater)).toList

/-- The sketch with its log, and with what happened to each of its servers. -/
def controlled [Zero V] (C : Crypto) (format : Reading V → String) :
    Runs.Machine ((Board V × Log) × (ℕ → List ServerEvent)) (Env V) :=
  (logged C format).recording (fun _ => []) fun E p e i => E i ++ p.1.events C format i e

/-- **An iteration, for one server.** -/
theorem loop_handle {w : Wiring} (hw : ServersHandler.Wired w b.serverHandler) (hi : i < w.serversCount.toNat)
    (e : Env V) : (b.loop C format e).1.serverHandler.server w i =
      (b.events C format i e).foldl handle (b.serverHandler.server w i) := by
  have hvisits := ServersHandler.loop_handle hw hi e.visits
  have hw' := (ServersHandler.loop_within hw hi e.visits).1
  have hmessage : ∀ m, (b.loop C format e).2 = some m → ∃ rx : NetworkReceiver, m = rx.receive.1 := by
    intro m hm
    rw [(loop_networkHandler C format b e).2, iterate_eq] at hm
    exact drain_receive hm
  unfold events
  rw [loop_serverHandler, List.foldl_append, ← hvisits]
  cases hdata : (b.loop C format e).2 with
  | none => rfl
  | some order =>
    obtain ⟨rx, rfl⟩ := hmessage order hdata
    exact ServersHandler.processingUnit_handle hw' hi rx e.orderTime e.orderLater

/-- **What an iteration brings, by kind**: the readings of the button, and what the message asks. -/
theorem events_kinds (C : Crypto) (format : Reading V → String) (i : ℕ) (b : Board V) (e : Env V) :
    (b.events C format i e).filterMap ServerEvent.readings = [(e.visits i).readings] ∧
      (b.events C format i e).filterMap ServerEvent.request =
        (b.loop C format e).2.toList.filterMap (Message.request i) := by
  have hvisit : (e.visits i).events.filterMap ServerEvent.readings = [(e.visits i).readings] ∧
      (e.visits i).events.filterMap ServerEvent.request = [] := ⟨rfl, rfl⟩
  unfold events
  rw [List.filterMap_append, List.filterMap_append, hvisit.1, hvisit.2]
  cases (b.loop C format e).2 with
  | none => exact ⟨rfl, rfl⟩
  | some m =>
    refine ⟨?_, ?_⟩
    · rw [Option.bind_some, Message.event_readings, List.append_nil]
    · rw [Option.bind_some, Message.event_request, List.nil_append, Option.toList_some]
      cases hq : m.request i <;> simp [hq]

/-- Each server is where its controller is, and nothing else happened to it than what the log says. -/
structure Controlled (b : Board V) (L : Log) (E : ℕ → List ServerEvent) (start : ℕ → ℕ) : Prop where
  wired : ServersHandler.Wired Wiring.main b.serverHandler
  state : ∀ i < 3, b.serverHandler.server Wiring.main i = (E i).foldl handle (fresh (start i))
  readings : ∀ i, (E i).filterMap ServerEvent.readings = L.buttons i
  requests : ∀ i, (E i).filterMap ServerEvent.request = L.history.messages.filterMap (Message.request i)

theorem Controlled.setup [Zero V] (boot : Boot) :
    Controlled (Board.setup boot : Board V) .empty (fun _ => []) fun i => boot.time (9 + i) := by
  have hset := ServersHandler.setUp_foldl (w := Wiring.main)
    (h := .new 3 boot.relayPins boot.buttonPins (fun i => boot.time (9 + i)) ⟨fun _ => none, fun _ => []⟩) rfl
    (Nat.le_refl _)
  exact ⟨⟨hset.count, hset.relay, hset.output⟩, fun i _ => hset.server i, fun _ => rfl, fun _ => rfl⟩

theorem Controlled.step {start : ℕ → ℕ} (h : Controlled b L E start) (e : Env V) :
    Controlled (b.loop C format e).1 (L.record C format b e) (fun i => E i ++ b.events C format i e) start where
  wired := (Board.loop_within (w := Wiring.main) (i := 0) h.wired (by decide)).1
  state i hi := by
    rw [List.foldl_append, ← h.state i hi]
    exact loop_handle (w := Wiring.main) h.wired hi e
  readings i := by
    rw [List.filterMap_append, h.readings i, (events_kinds C format i b e).1]
    rfl
  requests i := by
    have hmessages : (L.record C format b e).history.messages = L.history.messages ++ (b.loop C format e).2.toList := by
      rw [(loop_networkHandler C format b e).2]
      rfl
    rw [hmessages, List.filterMap_append, List.filterMap_append, h.requests i, (events_kinds C format i b e).2]

theorem Controlled.run {start : ℕ → ℕ} {es : List (Env V)} {p : (Board V × Log) × (ℕ → List ServerEvent)}
    [Zero V] (h : Controlled b L E start) (hr : (controlled C format).run ((b, L), E) es = some p) :
    Controlled p.1.1 p.1.2 p.2 start := by
  induction es generalizing b L E with
  | nil => cases hr; exact h
  | cons e es ih =>
    obtain ⟨⟨⟨b', L'⟩, E'⟩, hs, hr⟩ := Option.bind_eq_some_iff.1 hr
    obtain ⟨hstep, hrec⟩ := Runs.Machine.recording_step hs
    obtain ⟨hloop, hlog⟩ := Runs.Machine.recording_step hstep
    dsimp only at hrec hloop hlog
    obtain rfl : (b.loop C format e).1 = b' := Option.some.inj hloop
    refine ih ?_ hr
    rw [hrec, hlog]
    exact h.step e

/-- **Each server has a controller of its own.** In every run of the sketch, the operation, the timer and
the last ping of a server and the writes to its relay are those of a controller of this server alone, which
was constructed at the reading of the clock at which the server was. What happened to the controller are its
visits, with the button as it was read at each, and, once each and in their order, the orders and pings for
this server in the frames that were read from the network; what happened to the other servers plays no part. -/
theorem one_controller [Zero V] (C : Crypto) (format : Reading V → String) (boot : Boot) {es : List (Env V)}
    {b : Board V} {L : Log} {E : ℕ → List ServerEvent}
    (h : (controlled C format).run ((setup boot, .empty), fun _ => []) es = some ((b, L), E)) :
    ∀ i < 3, b.serverHandler.server Wiring.main i = (E i).foldl handle (fresh (boot.time (9 + i))) ∧
      (E i).filterMap ServerEvent.readings = L.buttons i ∧
      (E i).filterMap ServerEvent.request =
        (L.history.frames.filterMap fun f => Frame.deliver C network f.2).filterMap (Message.request i) := by
  have hstart : (controlled C format).init ((setup boot, .empty), fun _ => []) := ⟨logged_init _ _ boot, rfl⟩
  have hctl : Controlled b L E fun i => boot.time (9 + i) := (Controlled.setup boot).run h
  have hreach : (controlled C format).Reach ((b, L), E) := Runs.Machine.Reach.run (.init hstart) h
  have hlogged : (logged C format).Reach (b, L) := Runs.Machine.ReachWhen.unrecorded hreach fun _ _ _ => trivial
  have hmessages := (Accounted.reach hlogged).stream.messages
  refine fun i hi => ⟨hctl.state i hi, hctl.readings i, ?_⟩
  rw [hctl.requests i, hmessages]

/-- The button of server 0 is pressed once; each server is visited twice. -/
theorem one_controller_pressed : ∃ (b : Board ℕ) (L : Log) (E : ℕ → List ServerEvent),
    (controlled Crypto.zero fun (_ : Reading ℕ) => "0").run ((setup boot, .empty), fun _ => [])
      [.at 2000 [.low, .low], .at 2500 []] = some ((b, L), E) ∧ (E 0).length = 4 ∧
    b.serverHandler.server Wiring.main 0 = (E 0).foldl handle (fresh (boot.time 9)) ∧
    (E 0).filterMap ServerEvent.readings = L.buttons 0 := by
  have hrun : ((controlled Crypto.zero fun (_ : Reading ℕ) => "0").run ((setup boot, .empty), fun _ => [])
      [.at 2000 [.low, .low], .at 2500 []]).any (fun p => (p.2 0).length = 4) = true := by
    decide +kernel
  obtain ⟨⟨⟨b, L⟩, E⟩, hr, hlen⟩ := (Option.any_eq_true _ _).1 hrun
  obtain ⟨hstate, hreadings, -⟩ := one_controller Crypto.zero _ boot hr 0 (by decide)
  exact ⟨b, L, E, hr, of_decide_eq_true hlen, hstate, hreadings⟩

end Board

end ServerRoom
