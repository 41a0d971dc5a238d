import ServerRoom.Spec.Servers

/-!
# What a step does to one server

`h.server w i` is what the handler holds for server `i`: its operation, its timer, its last
ping, and the writes to its relay. `ServerState.Moves` lists what a step can do to it
(`step_moves`), so that the invariants are proved by cases on it and the functions of the
handler are unfolded here only. A phase of an operation ends in one way (`Operation.phase`).
-/

namespace ServerRoom

/-- What ends a phase of an operation: the delay to exceed, the level that is then written to
the relay, and the operation after it. -/
def Operation.phase : Operation → Option (UInt32 × Level × Operation)
  | .noOp => none
  | .serverTurnOnOp => some (turnOnDelay, .high, .noOp)
  | .serverTurnOffOp => some (turnOffDelay, .high, .noOp)
  | .serverRestartOp => some (turnOffDelay, .high, .serverRestartOp2)
  | .serverRestartOp2 => some (restartOffOnDelay, .low, .serverTurnOnOp)

/-- The operation that an order starts. -/
def Order.operation : Order → Operation
  | .turnOn => .serverTurnOnOp
  | .turnOff => .serverTurnOffOp
  | .restart => .serverRestartOp

/-- How many times the button is read as pressed, and again 50 ms later. -/
def presses : List Level → ℕ
  | .low :: level :: readings => (if level = .low then 1 else 0) + presses readings
  | _ => 0

/-- One server: its operation, its timer, its last ping, and what was written to its relay. -/
@[ext] structure ServerState where
  operation : Operation
  timer : UInt32
  lastPing : UInt32
  written : List Level

/-- Whether a step is about server `i`. -/
def Concerns (i : ℕ) : Place → Command → Prop
  | .button j, .button _ => j = i
  | .operation j, .operation _ _ => j = i
  | .idle, .order _ index _ _ => index.toNat = i
  | .idle, .pingFromServer index _ => index.toNat = i
  | _, _ => False

namespace ServerState

/-- Whether the server is off for `turnOn`, or on for the other orders, when the clock is read
at `t`. -/
def Admits (v : ServerState) (o : Order) (t : ℕ) : Prop :=
  millis t - v.lastPing < serverPingTime ↔ o ≠ .turnOn

instance (v : ServerState) (o : Order) (t : ℕ) : Decidable (v.Admits o t) := by unfold Admits; infer_instance

def Accepts (v : ServerState) (o : Order) (t : ℕ) : Prop := v.operation = .noOp ∧ v.Admits o t

/-- **What a step can do to server `i`.** -/
inductive Moves (i : ℕ) (v : ServerState) : Place → Command → ServerState → Prop
  | elsewhere {p : Place} {cmd : Command} : ¬ Concerns i p cmd → Moves i v p cmd v
  | released (readings : List Level) : presses readings = 0 → Moves i v (.button i) (.button readings) v
  | pressed (readings : List Level) : 0 < presses readings → Moves i v (.button i) (.button readings)
      { v with written := v.written ++ (List.replicate (presses readings) .low ++ [.high]) }
  | waits (now later : ℕ) :
      (∀ delay level next, v.operation.phase = some (delay, level, next) → ¬ millis now - v.timer > delay) →
      Moves i v (.operation i) (.operation now later) v
  | ends (now later : ℕ) {delay : UInt32} {level : Level} {next : Operation} :
      v.operation.phase = some (delay, level, next) → millis now - v.timer > delay →
      Moves i v (.operation i) (.operation now later)
        { v with
          operation := next
          timer := if next = .noOp then v.timer else millis later
          written := v.written ++ [level] }
  | refused (o : Order) (index : UInt8) (t₀ t₁ : ℕ) : index.toNat = i → ¬ v.Accepts o t₀ →
      Moves i v .idle (.order o index t₀ t₁) v
  | accepted (o : Order) (index : UInt8) (t₀ t₁ : ℕ) : index.toNat = i → v.Accepts o t₀ →
      Moves i v .idle (.order o index t₀ t₁)
        { v with operation := o.operation, timer := millis t₁, written := v.written ++ [.low] }
  | pinged (index : UInt8) (t : ℕ) : index.toNat = i →
      Moves i v .idle (.pingFromServer index t) { v with lastPing := millis t }

end ServerState

namespace ServersHandler

variable {w : Wiring} {h h' : ServersHandler} {p p' : Place} {cmd : Command} {i j : ℕ}

def server (w : Wiring) (h : ServersHandler) (i : ℕ) : ServerState :=
  ⟨h.serversOperation i, h.serversTimers i, h.serversLastPing i, h.pins.written (w.relayPin i)⟩

/-- Whether an order to server `i` is accepted when the clock is read at `t`. -/
def Accepts (h : ServersHandler) (o : Order) (i t : ℕ) : Prop :=
  i < h.serversCount.toNat ∧ h.serversOperation i = .noOp ∧ (h.isServerOn i t = true ↔ o ≠ .turnOn)

instance (o : Order) (i t : ℕ) : Decidable (h.Accepts o i t) := by unfold Accepts; infer_instance

/-- The handler is set up: the relay pins are the wired ones, and outputs. -/
structure Wired (w : Wiring) (h : ServersHandler) : Prop where
  count : h.serversCount = w.serversCount
  relay : ∀ i < w.serversCount.toNat, h.serversRelayPins i = w.relayPin i
  output : ∀ i < w.serversCount.toNat, h.pins.mode (w.relayPin i) = some .output

/-- Levels are written to the relay of server `j`. -/
def write (h : ServersHandler) (j : ℕ) (ls : List Level) : ServersHandler :=
  { h with pins := { h.pins with
    written := Function.update h.pins.written (h.serversRelayPins j)
      (h.pins.written (h.serversRelayPins j) ++ ls) } }

theorem connect_eq : h.connect j = h.write j [.low] := rfl

theorem disconnect_eq : h.disconnect j = h.write j [.high] := rfl

theorem write_write (ls ls' : List Level) : (h.write j ls).write j ls' = h.write j (ls ++ ls') := by
  simp [write]

theorem write_nil : h.write j [] = h := by
  simp [write]

theorem setOperation_write (op : Operation) (ls : List Level) :
    (h.write j ls).setOperation j op = (h.setOperation j op).write j ls := rfl

/-- **The button half of a visit**: a LOW for each press, and a HIGH if there was one. -/
theorem handleButton_eq (b : Bool) (readings : List Level) :
    h.handleButton j b readings =
      h.write j (List.replicate (presses readings) .low ++ if b ∨ 0 < presses readings then [.high] else []) := by
  -- by the pairs of readings: a press is a second LOW
  induction readings using presses.induct generalizing h b with
  | case1 level readings ih =>
    unfold handleButton presses
    by_cases hl : level = .low
    · rw [if_pos hl, if_pos hl, ih, connect_eq, write_write, ← List.append_assoc, Nat.add_comm,
        List.replicate_succ, if_pos (.inl rfl), if_pos (.inr (Nat.succ_pos _))]
      rfl
    · rw [if_neg hl, if_neg hl, ih, Nat.zero_add]
  | case2 readings hne =>
    have h0 : presses readings = 0 := by
      unfold presses; split
      · exact absurd rfl (hne _ _)
      · rfl
    rw [h0]
    cases b <;> unfold handleButton <;> split
    · exact absurd rfl (hne _ _)
    · exact write_nil.symm
    · exact absurd rfl (hne _ _)
    · exact disconnect_eq

/-- **The operation half of a visit**: nothing, or the phase ends. -/
theorem handleOperation_eq (now later : ℕ) :
    h.handleOperation j now later =
      match (h.serversOperation j).phase with
      | none => h
      | some (delay, level, next) =>
        if millis now - h.serversTimers j > delay then
          if next = .noOp then (h.write j [level]).setOperation j next
          else ((h.write j [level]).setOperation j next).setTimer j later
        else h := by
  unfold handleOperation
  cases h.serversOperation j <;> rfl

/-- **An order**: it begins an operation, or changes nothing. -/
theorem execute_eq (o : Order) (index : UInt8) (t₀ t₁ : ℕ) :
    h.execute o index t₀ t₁ =
      if h.Accepts o index.toNat t₀ then
        (none, ((h.write index.toNat [.low]).setOperation index.toNat o.operation).setTimer index.toNat t₁)
      else (some false, h) := by
  -- the three functions differ in the operation and in the test that refuses
  have hb : ∀ (op : Operation) (b : Bool), h.begin index op b t₁ =
      if index.toNat < h.serversCount.toNat ∧ h.serversOperation index.toNat = .noOp ∧ b = false then
        (none, ((h.write index.toNat [.low]).setOperation index.toNat op).setTimer index.toNat t₁)
      else (some false, h) := by
    intro op b
    unfold begin
    by_cases hi : index ≥ h.serversCount
    · rw [if_pos hi, if_neg fun hc => absurd hc.1 (by simpa [UInt8.le_iff_toNat_le] using hi)]
    · have hlt : index.toNat < h.serversCount.toNat := by simpa [UInt8.le_iff_toNat_le] using hi
      by_cases ho : h.serversOperation index.toNat = .noOp <;> cases b <;>
        simp [hi, hlt, ho, connect_eq, setOperation_write]
  have hacc : h.Accepts o index.toNat t₀ ↔ index.toNat < h.serversCount.toNat ∧
      h.serversOperation index.toNat = .noOp ∧
      (match o with | .turnOn => h.isServerOn index.toNat t₀ | _ => h.isServerOff index.toNat t₀) = false := by
    unfold Accepts isServerOff
    cases o <;> simp
  rw [if_congr hacc rfl rfl]
  cases o <;> exact hb _ _

/-! ## One server under the handler's writes -/

section

variable (hw : Wired w h) (hi : i < w.serversCount.toNat)
include hw hi

theorem server_write (hj : j < w.serversCount.toNat) (ls : List Level) :
    (h.write j ls).server w i =
      if i = j then { h.server w i with written := (h.server w i).written ++ ls } else h.server w i := by
  simp only [server, write, hw.relay j hj]
  split
  · subst i; simp
  · -- another server has another relay pin
    rename_i hne
    rw [Function.update_of_ne fun he => hne (w.relay_inj i hi j hj he)]

theorem accepts_iff (o : Order) (t : ℕ) : h.Accepts o i t ↔ (h.server w i).Accepts o t := by
  simp [Accepts, ServerState.Accepts, ServerState.Admits, isServerOn, server, hw.count, hi]

end

theorem server_setOperation (op : Operation) :
    (h.setOperation j op).server w i = if i = j then { h.server w i with operation := op } else h.server w i := by
  simp only [server, setOperation, Function.update_apply]
  split <;> simp [*]

theorem server_setTimer (t : ℕ) :
    (h.setTimer j t).server w i = if i = j then { h.server w i with timer := millis t } else h.server w i := by
  simp only [server, setTimer, Function.update_apply]
  split <;> simp [*]

theorem server_pingFromServer (hi : i < h.serversCount.toNat) (index : UInt8) (t : ℕ) :
    (h.pingFromServer index t).server w i =
      if i = index.toNat then { h.server w i with lastPing := millis t } else h.server w i := by
  unfold pingFromServer
  by_cases hx : index ≥ h.serversCount
  · have hne : i ≠ index.toNat := by
      have := UInt8.le_iff_toNat_le.1 hx
      omega
    rw [if_pos hx, if_neg hne]
  · rw [if_neg hx]
    simp only [server, Function.update_apply]
    split <;> simp [*]

/-! ## The wiring stays -/

theorem Wired.write (hw : Wired w h) (ls : List Level) : Wired w (h.write j ls) := ⟨hw.count, hw.relay, hw.output⟩

theorem Wired.handleButton (hw : Wired w h) (readings : List Level) : Wired w (h.handleButton j false readings) := by
  rw [handleButton_eq]
  exact hw.write _

theorem Wired.handleOperation (hw : Wired w h) (now later : ℕ) : Wired w (h.handleOperation j now later) := by
  rw [handleOperation_eq]
  split
  · exact hw
  · split
    · split <;> exact ⟨hw.count, hw.relay, hw.output⟩
    · exact hw

theorem Wired.execute (hw : Wired w h) (o : Order) (index : UInt8) (t₀ t₁ : ℕ) :
    Wired w (h.execute o index t₀ t₁).2 := by
  rw [execute_eq]
  split
  · exact ⟨hw.count, hw.relay, hw.output⟩
  · exact hw

theorem Wired.pingFromServer (hw : Wired w h) (index : UInt8) (t : ℕ) : Wired w (h.pingFromServer index t) := by
  unfold ServersHandler.pingFromServer
  split
  · exact hw
  · exact ⟨hw.count, hw.relay, hw.output⟩

/-- The first `k` servers are set up, and nothing else was done. -/
structure SetUp (w : Wiring) (h : ServersHandler) (k : ℕ) (h' : ServersHandler) : Prop where
  count : h'.serversCount = h.serversCount
  relay : ∀ i < k, h'.serversRelayPins i = w.relayPin i
  output : ∀ i < k, h'.pins.mode (w.relayPin i) = some .output
  server : ∀ i, h'.server w i = h.server w i

theorem setUp_foldl (hc : h.serversCount = w.serversCount) {k : ℕ} (hk : k ≤ w.serversCount.toNat) :
    SetUp w h k ((List.range k).foldl (fun h i =>
      ((h.setPushButtonPin (UInt8.ofNat i) (w.pushButtonPin i)).2.setRelayPin (UInt8.ofNat i) (w.relayPin i)).2) h) := by
  induction k with
  | zero =>
    have hnone : ∀ i, ¬ i < 0 := Nat.not_lt_zero
    exact ⟨rfl, fun i hi => absurd hi (hnone i), fun i hi => absurd hi (hnone i), fun _ => rfl⟩
  | succ k ih =>
    specialize ih (by omega)
    rw [List.range_succ, List.foldl_append]
    generalize (List.range k).foldl _ h = g at ih ⊢
    have hlt : k < 256 := Nat.lt_of_lt_of_le hk (Nat.le_of_lt (UInt8.toNat_lt _))
    have hto : (UInt8.ofNat k).toNat = k := UInt8.toNat_ofNat_of_lt' hlt
    have hin : ¬ UInt8.ofNat k ≥ g.serversCount := by
      rw [ge_iff_le, UInt8.le_iff_toNat_le, hto, ih.count, hc]
      omega
    simp only [List.foldl_cons, List.foldl_nil, setPushButtonPin, setRelayPin, if_neg hin]
    -- the button of server `k` is on no relay's pin, so the relays before keep their modes
    refine ⟨ih.count, fun i hi => ?_, fun i hi => ?_, fun i => ih.server i⟩
    · simp only [hto, Function.update_apply]
      split
      · subst i; rfl
      · exact ih.relay i (by omega)
    · simp only [Pins.pinMode, Function.update_apply]
      split
      · rfl
      · rename_i hne
        have hik : i ≠ k := fun he => hne (by rw [he])
        rw [if_neg (w.relay_ne_button i (by omega) k (by omega))]
        exact ih.output i (by omega)

/-- The handler is set up, and `loop` is at a server that there is. -/
structure Ready (w : Wiring) (s : ServersHandler × Place) : Prop where
  wired : Wired w s.1
  place : ∀ i, s.2 = .button i ∨ s.2 = .operation i → i < w.serversCount.toNat

theorem Ready.init {s : ServersHandler × Place} (h : Starts w s) : Ready w s := by
  obtain ⟨relayPins, buttonPins, start, pins, -, rfl⟩ := h
  have hs := setUp_foldl (w := w) (h := new w.serversCount relayPins buttonPins start pins) rfl (Nat.le_refl _)
  exact ⟨⟨hs.count, hs.relay, hs.output⟩, by rintro i (h | h) <;> cases h⟩

/-- At the start a server has no operation, and nothing was written to its relay. -/
theorem Starts.server {s : ServersHandler × Place} (h : Starts w s) (hi : i < w.serversCount.toNat) :
    (s.1.server w i).operation = .noOp ∧ (s.1.server w i).written = [] := by
  obtain ⟨relayPins, buttonPins, start, pins, hn, rfl⟩ := h
  have hs := setUp_foldl (w := w) (h := new w.serversCount relayPins buttonPins start pins) rfl (Nat.le_refl _)
  unfold setup
  rw [hs.server i]
  exact ⟨rfl, hn i hi⟩

theorem place_lt (hw : Wired w h) (hp : h.place j = .button i ∨ h.place j = .operation i) :
    i < w.serversCount.toNat := by
  unfold place at hp
  split at hp
  · rename_i hj
    rcases hp with hp | hp <;> cases hp
    rw [← hw.count]
    exact hj
  · rcases hp with hp | hp <;> cases hp

theorem Ready.step {s s' : ServersHandler × Place} (hr : Ready w s) (hs : ServersHandler.step s cmd = some s') :
    Ready w s' := by
  obtain ⟨h, p⟩ := s
  have hw : Wired w h := hr.wired
  cases p <;> cases cmd <;> cases hs
  case idle.loop => exact ⟨hw, fun i hp => place_lt hw hp⟩
  case idle.order o index t₀ t₁ => exact ⟨hw.execute o index t₀ t₁, by rintro i (h | h) <;> cases h⟩
  case idle.pingFromServer index t => exact ⟨hw.pingFromServer index t, by rintro i (h | h) <;> cases h⟩
  case button.button j readings =>
    refine ⟨hw.handleButton readings, fun i hp => ?_⟩
    rcases hp with hp | hp <;> cases hp
    exact hr.place j (.inl rfl)
  case operation.operation j now later => exact ⟨hw.handleOperation now later, fun i hp => place_lt hw hp⟩

theorem Ready.reach {G : ServersHandler × Place → Command → Prop} {s : ServersHandler × Place}
    (h : (serversHandler w).ReachWhen G s) : Ready w s :=
  h.induct (fun _ h => Ready.init h) fun _ _ _ _ hr _ hs => hr.step hs

/-! ## The moves of one server -/

/-- An order, as `execute` carries it out. -/
theorem execute_moves (hw : Wired w h) (hi : i < w.serversCount.toNat) (o : Order) (index : UInt8) (t₀ t₁ : ℕ) :
    (h.server w i).Moves i .idle (.order o index t₀ t₁) ((h.execute o index t₀ t₁).2.server w i) := by
  by_cases hij : index.toNat = i
  · subst hij
    rw [execute_eq]
    by_cases ha : h.Accepts o index.toNat t₀
    · rw [if_pos ha]
      have hm := ServerState.Moves.accepted o index t₀ t₁ rfl ((accepts_iff hw hi o t₀).1 ha)
      simpa [server_setTimer, server_setOperation, server_write hw hi hi] using hm
    · rw [if_neg ha]
      exact .refused o index t₀ t₁ rfl fun hv => ha ((accepts_iff hw hi o t₀).2 hv)
  · -- the order is for another server
    have hsame : (h.execute o index t₀ t₁).2.server w i = h.server w i := by
      rw [execute_eq]
      split
      · rename_i ha
        have hj : index.toNat < w.serversCount.toNat := hw.count ▸ ha.1
        simp [server_setTimer, server_setOperation, server_write hw hi hj, Ne.symm hij]
      · rfl
    rw [hsame]
    exact .elsewhere hij

theorem pingFromServer_moves (hw : Wired w h) (hi : i < w.serversCount.toNat) (index : UInt8) (t : ℕ) :
    (h.server w i).Moves i .idle (.pingFromServer index t) ((h.pingFromServer index t).server w i) := by
  rw [server_pingFromServer (by rw [hw.count]; exact hi)]
  by_cases hij : i = index.toNat
  · rw [if_pos hij]
    exact .pinged index t hij.symm
  · rw [if_neg hij]
    exact .elsewhere fun he => hij he.symm

/-- The button half of the visit of server `j`. -/
theorem handleButton_moves (hw : Wired w h) (hi : i < w.serversCount.toNat) (hj : j < w.serversCount.toNat)
    (readings : List Level) :
    (h.server w i).Moves i (.button j) (.button readings) ((h.handleButton j false readings).server w i) := by
  rw [handleButton_eq, server_write hw hi hj]
  by_cases hij : i = j
  · subst hij
    rw [if_pos rfl]
    rcases Nat.eq_zero_or_pos (presses readings) with h0 | h0
    · have hm := ServerState.Moves.released (i := i) (v := h.server w i) readings h0
      simpa [h0] using hm
    · have hm := ServerState.Moves.pressed (i := i) (v := h.server w i) readings h0
      simpa [h0] using hm
  · rw [if_neg hij]
    exact .elsewhere fun he => hij he.symm

/-- The other half: a phase of the operation ends, or the server waits. -/
theorem handleOperation_moves (hw : Wired w h) (hi : i < w.serversCount.toNat) (hj : j < w.serversCount.toNat)
    (now later : ℕ) : (h.server w i).Moves i (.operation j) (.operation now later)
      ((h.handleOperation j now later).server w i) := by
  rw [handleOperation_eq]
  cases hph : (h.serversOperation j).phase with
  | none =>
    by_cases hij : j = i
    · subst hij
      exact .waits now later fun _ _ _ hv => absurd (hph.symm.trans hv) (by simp)
    · exact .elsewhere hij
  | some e =>
    obtain ⟨delay, level, next⟩ := e
    dsimp only
    by_cases hij : j = i
    · subst hij
      by_cases ht : millis now - h.serversTimers j > delay
      · rw [if_pos ht]
        have hm := ServerState.Moves.ends (i := j) (v := h.server w j) now later hph ht
        by_cases hn : next = .noOp
        · rw [if_pos hn] at hm ⊢
          simpa [server_setOperation, server_write hw hi hi] using hm
        · rw [if_neg hn] at hm ⊢
          simpa [server_setTimer, server_setOperation, server_write hw hi hi] using hm
      · rw [if_neg ht]
        refine .waits now later fun d l n hv => ?_
        cases hph.symm.trans hv
        exact ht
    · -- another server is visited
      have hsame : (if millis now - h.serversTimers j > delay then
            if next = .noOp then (h.write j [level]).setOperation j next
            else ((h.write j [level]).setOperation j next).setTimer j later
          else h).server w i = h.server w i := by
        split
        · split <;> simp [server_setTimer, server_setOperation, server_write hw hi hj, Ne.symm hij]
        · rfl
      rw [hsame]
      exact .elsewhere hij

/-- **What a step does to server `i`.** -/
theorem step_moves {s s' : ServersHandler × Place} (hr : Ready w s) (hi : i < w.serversCount.toNat)
    (hs : ServersHandler.step s cmd = some s') : (s.1.server w i).Moves i s.2 cmd (s'.1.server w i) := by
  obtain ⟨h, p⟩ := s
  have hw : Wired w h := hr.wired
  cases p <;> cases cmd <;> cases hs
  case idle.loop => exact .elsewhere id
  case idle.order o index t₀ t₁ => exact execute_moves hw hi o index t₀ t₁
  case idle.pingFromServer index t => exact pingFromServer_moves hw hi index t
  case button.button j readings => exact handleButton_moves hw hi (hr.place j (.inl rfl)) readings
  case operation.operation j now later => exact handleOperation_moves hw hi (hr.place j (.inr rfl)) now later

end ServersHandler

end ServerRoom
