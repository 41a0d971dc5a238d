import Mathlib.Data.Set.Insert
import ServerRoom.Proof.Servers

/-!
# The relays, at rest and during a pulse

A relay is at rest when the operation of its server is `NO_OP` or `SERVER_RESTART_OP2`: it
should be open. `setRelayPin` makes the pin an output and writes nothing to it, so it drives
LOW, which closes the relay, until something operates the server: `resting_open` says that the
relays at rest are open after `loop` exactly when every server was operated.

A pulse is an operation that keeps the relay closed until its time is over. The button half of
a visit ends with a `disconnect` whatever the operation is: `pulse_uncut` says that a pulse is
cut exactly by a press of the server's own button.
-/

namespace ServerRoom

/-- The relay should be open. -/
def Operation.Rests (op : Operation) : Prop := op = .noOp ∨ op = .serverRestartOp2

/-- The relay should be closed. -/
def Operation.Pulses (op : Operation) : Prop := op = .serverTurnOnOp ∨ op = .serverTurnOffOp ∨ op = .serverRestartOp

instance : DecidablePred Operation.Rests := fun _ => inferInstanceAs (Decidable (_ ∨ _))

instance : DecidablePred Operation.Pulses := fun _ => inferInstanceAs (Decidable (_ ∨ _))

namespace ServerState

variable {v v' : ServerState} {i : ℕ} {p : Place} {cmd : Command}

/-- A step operates the server: its button is pressed, or it accepts an order. -/
def Operated (v : ServerState) (i : ℕ) : Place → Command → Prop
  | .button j, .button readings => j = i ∧ 0 < presses readings
  | .idle, .order o index t₀ _ => index.toNat = i ∧ v.Accepts o t₀
  | _, _ => False

theorem Operated.concerns (h : v.Operated i p cmd) : Concerns i p cmd := by
  cases p <;> cases cmd <;> first | exact h.1 | exact h.elim

/-- If the server is at rest, HIGH is the last level that was written to its relay. -/
def Opened (v : ServerState) : Prop := v.operation.Rests → v.written.getLast? = some .high

theorem Moves.opened (h : v.Moves i p cmd v') (hv : v.Opened ∨ v.Operated i p cmd) : v'.Opened := by
  intro hrest
  have hkept : v' = v → ¬ v.Operated i p cmd → v'.written.getLast? = some .high := by
    rintro rfl hno
    exact hv.resolve_right hno hrest
  cases h with
  | elsewhere hne =>
    exact hkept rfl fun ho => hne ho.concerns
  | released readings h0 => exact hkept rfl fun ho => by have := ho.2; omega
  | pressed readings h0 => simp
  | waits now later hw => exact hkept rfl id
  | ends now later hph ht =>
    cases hop : v.operation <;> rw [hop] at hph <;> cases hph <;> simp_all [Operation.Rests]
  | refused o index t₀ t₁ he hno => exact hkept rfl fun ho => hno ho.2
  | accepted o index t₀ t₁ he ha => cases o <;> simp [Operation.Rests, Order.operation] at hrest
  | pinged index t he => exact hv.resolve_right id hrest

/-- A server that is not operated has no operation, and its relay is not written. -/
theorem Moves.unoperated (h : v.Moves i p cmd v') (hno : ¬ v.Operated i p cmd)
    (hv : v.operation = .noOp ∧ v.written = []) : v'.operation = .noOp ∧ v'.written = [] := by
  cases h with
  | elsewhere | released | waits | refused | pinged => exact hv
  | pressed readings h0 => exact absurd ⟨rfl, h0⟩ hno
  | ends now later hph => rw [hv.1] at hph; cases hph
  | accepted o index t₀ t₁ he ha => exact absurd ⟨he, ha⟩ hno

end ServerState

namespace ServersHandler

variable {w : Wiring} {h : ServersHandler} {ops : Set ℕ} {i : ℕ}

/-- The relays at rest are open. -/
def RestingOpen (w : Wiring) (h : ServersHandler) : Prop :=
  ∀ i < w.serversCount.toNat, (h.serversOperation i).Rests → h.pins.drives (w.relayPin i) = some .high

instance : Decidable (h.RestingOpen w) := by unfold RestingOpen; infer_instance

/-- The handler, with a record of the servers that were operated since `setup`. -/
def operated (w : Wiring) : Runs.Machine ((ServersHandler × Place) × Set ℕ) Command :=
  (serversHandler w).recording ∅ fun ops s cmd => ops ∪ {i | (s.1.server w i).Operated i s.2 cmd}

/-- What the record says about a server. -/
structure Recorded (w : Wiring) (h : ServersHandler) (ops : Set ℕ) : Prop where
  opened : ∀ i < w.serversCount.toNat, i ∈ ops → (h.server w i).Opened
  fresh : ∀ i < w.serversCount.toNat, i ∉ ops → (h.server w i).operation = .noOp ∧ (h.server w i).written = []

theorem Recorded.reach {s : (ServersHandler × Place) × Set ℕ} (h : (operated w).Reach s) :
    Ready w s.1 ∧ Recorded w s.1.1 s.2 := by
  refine h.induct (I := fun s => Ready w s.1 ∧ Recorded w s.1.1 s.2) ?_ ?_
  · rintro ⟨s, ops⟩ ⟨hs, rfl⟩
    exact ⟨.init hs, fun i hi hm => absurd hm (Set.notMem_empty i), fun i hi _ => hs.server hi⟩
  · rintro ⟨s, ops⟩ cmd ⟨s', ops'⟩ - ⟨hr, hi⟩ - hs
    obtain ⟨hs, rfl⟩ := Runs.Machine.recording_step hs
    refine ⟨hr.step hs, fun i hlt hm => ?_, fun i hlt hm => ?_⟩
    · exact (step_moves hr hlt hs).opened (hm.imp_left (hi.opened i hlt))
    · exact (step_moves hr hlt hs).unoperated (fun ho => hm (.inr ho)) (hi.fresh i hlt fun ho => hm (.inl ho))

theorem drives_relay (hw : Wired w h) (hi : i < w.serversCount.toNat) :
    h.pins.drives (w.relayPin i) = some ((h.server w i).written.getLastD .low) := by
  unfold Pins.drives
  rw [if_pos (hw.output i hi)]
  rfl

/-- The relays at rest are open exactly when every server was operated. -/
theorem Recorded.restingOpen_iff (hw : Wired w h) (hr : Recorded w h ops) :
    h.RestingOpen w ↔ ∀ i < w.serversCount.toNat, i ∈ ops := by
  constructor
  · intro ho i hi
    by_contra hn
    obtain ⟨hop, hwr⟩ := hr.fresh i hi hn
    have hhigh := ho i hi (.inl hop)
    rw [drives_relay hw hi, hwr] at hhigh
    cases hhigh
  · intro ho i hi hrest
    have hlast := hr.opened i hi (ho i hi) hrest
    rw [drives_relay hw hi, List.getLastD_eq_getLast?, hlast]
    rfl

/-! ## A call of `loop` -/

theorem place_eq (hw : Wired w h) (k : ℕ) : h.place k = if k < w.serversCount.toNat then .button k else .idle := by
  unfold place
  rw [hw.count]

/-- A visit is two steps. -/
theorem visit_reach {k : ℕ} (hr : (operated w).Reach ((h, .button k), ops)) (u : Visit) :
    ∃ ops', (operated w).Reach ((h.visit k u, (h.visit k u).place (k + 1)), ops') ∧
      ∀ i, i ∈ ops' ↔ i ∈ ops ∨ k = i ∧ 0 < presses u.readings := by
  have hw : Wired w h := (Recorded.reach hr).1.wired
  have hplace : (h.visit k u).place (k + 1) = (h.handleButton k false u.readings).place (k + 1) := by
    rw [place_eq (hw.handleButton _), visit, place_eq ((hw.handleButton _).handleOperation _ _)]
  have hbutton := hr.recorded (a := .button u.readings) trivial rfl
  have hoperation := hbutton.recorded (a := .operation u.now u.later) trivial rfl
  rw [hplace]
  refine ⟨_, hoperation, fun i => ?_⟩
  simp [ServerState.Operated]

/-- **A call of `loop` is a run**, here to the point where `k` servers are visited. -/
theorem visits_reach (hr : (operated w).Reach ((h, .idle), ops)) (v : ℕ → Visit) {k : ℕ}
    (hk : k ≤ w.serversCount.toNat) :
    ∃ ops', (operated w).Reach (((List.range k).foldl (fun h i => h.visit i (v i)) h,
        ((List.range k).foldl (fun h i => h.visit i (v i)) h).place k), ops') ∧
      ∀ i, i ∈ ops' ↔ i ∈ ops ∨ i < k ∧ 0 < presses (v i).readings := by
  induction k with
  | zero =>
    refine ⟨_, hr.recorded (a := .loop) trivial rfl, fun i => ?_⟩
    simp [ServerState.Operated]
  | succ k ih =>
    obtain ⟨ops', hreach, hmem⟩ := ih (by omega)
    rw [List.range_succ, List.foldl_append]
    generalize (List.range k).foldl _ h = g at hreach ⊢
    rw [place_eq (Recorded.reach hreach).1.wired, if_pos (by omega)] at hreach
    obtain ⟨ops'', hvisit, hmem'⟩ := visit_reach hreach (v k)
    refine ⟨ops'', hvisit, fun i => ?_⟩
    rw [hmem', hmem, Nat.lt_succ_iff_lt_or_eq]
    constructor
    · rintro ((ho | ⟨ho, hp⟩) | ⟨rfl, hp⟩)
      · exact .inl ho
      · exact .inr ⟨.inl ho, hp⟩
      · exact .inr ⟨.inr rfl, hp⟩
    · rintro (ho | ⟨ho | rfl, hp⟩)
      · exact .inl (.inl ho)
      · exact .inl (.inr ⟨ho, hp⟩)
      · exact .inr ⟨rfl, hp⟩

/-- **Relays at rest.** After a call of `loop` in any run, the relays at rest are open exactly
when every server was operated: since `setup` its button was pressed, in this call or before, or
it accepted an order. -/
theorem resting_open (hr : (operated w).Reach ((h, .idle), ops)) (v : ℕ → Visit) :
    (h.loop v).RestingOpen w ↔ ∀ i < w.serversCount.toNat, i ∈ ops ∨ 0 < presses (v i).readings := by
  have hw : Wired w h := (Recorded.reach hr).1.wired
  obtain ⟨ops', hreach, hmem⟩ := visits_reach hr v (Nat.le_refl _)
  unfold loop
  rw [hw.count]
  obtain ⟨hready, hrec⟩ := Recorded.reach hreach
  rw [hrec.restingOpen_iff hready.wired]
  refine forall₂_congr fun i hi => ?_
  rw [hmem]
  simp [hi]

/-- In `main.ino`: every button is pressed before the first `loop`. -/
theorem resting_open_main : (main.loop fun _ => ⟨[.low, .low], 0, 0⟩).RestingOpen Wiring.main :=
  (resting_open (.init ⟨main_starts, rfl⟩) _).2 fun _ _ => .inr (by decide)

/-- In `main.ino`: nothing is pressed and nothing is ordered, and the relays are closed. -/
theorem resting_closed_main : ∃ h, (serversHandler Wiring.main).Reach (h, .idle) ∧
    ∃ v, ¬ (h.loop v).RestingOpen Wiring.main :=
  ⟨main, .init main_starts, fun _ => ⟨[], 0, 0⟩, by decide⟩

/-! ## A pulse -/

/-- While the operation of server `i` is a pulse, its relay is closed. -/
def PulseClosed (w : Wiring) (i : ℕ) (h : ServersHandler) : Prop :=
  (h.serversOperation i).Pulses → h.pins.drives (w.relayPin i) = some .low

/-- `loop` meets a press of button `i` during a pulse of server `i`. -/
def Interrupts (i : ℕ) : ServersHandler × Place → Command → Prop
  | (h, .button j), .button readings => j = i ∧ 0 < presses readings ∧ (h.serversOperation i).Pulses
  | _, _ => False

end ServersHandler

namespace ServerState

variable {v v' : ServerState} {i : ℕ} {p : Place} {cmd : Command}

/-- During a pulse LOW is the last level that was written to the relay. -/
def Closed (v : ServerState) : Prop := v.operation.Pulses → v.written.getLast? = some .low

theorem Moves.closed (h : v.Moves i p cmd v') (hv : v.Closed)
    (hno : ∀ readings, cmd = .button readings → p = .button i → 0 < presses readings → ¬ v.operation.Pulses) :
    v'.Closed := by
  intro hpulse
  cases h with
  | elsewhere | released | waits | refused | pinged => exact hv hpulse
  | pressed readings h0 => exact absurd hpulse (hno readings rfl rfl h0)
  | ends now later hph ht =>
    -- the only pulse that follows a phase is the one that `SERVER_RESTART_OP2` leads to
    cases hop : v.operation <;> rw [hop] at hph <;> cases hph <;> simp_all [Operation.Pulses]
  | accepted o index t₀ t₁ he ha => simp

/-- A press leaves the relay open. -/
theorem Moves.cut {readings : List Level} (h : v.Moves i (.button i) (.button readings) v')
    (h0 : 0 < presses readings) : v'.operation = v.operation ∧ v'.written.getLast? = some .high := by
  cases h with
  | elsewhere hne => exact absurd rfl hne
  | released readings hz => omega
  | pressed readings _ => exact ⟨rfl, by simp⟩

end ServerState

namespace ServersHandler

variable {w : Wiring} {h : ServersHandler} {i : ℕ}

/-- **Pulses.** In every run in which `loop` meets no press of button `i` during a pulse of
server `i`, the relay is closed during every pulse of server `i`; and a visit that meets one, in
any run, opens the relay during the pulse. -/
theorem pulse_uncut (w : Wiring) :
    (∀ i < w.serversCount.toNat, ∀ s, (serversHandler w).ReachWhen (fun s cmd => ¬ Interrupts i s cmd) s →
      s.1.PulseClosed w i) ∧
      ∀ i < w.serversCount.toNat, ∀ s cmd s', (serversHandler w).Reach s →
        (serversHandler w).step s cmd = some s' → Interrupts i s cmd → ¬ s'.1.PulseClosed w i := by
  constructor
  · intro i hi s hreach hpulse
    have hclosed : (s.1.server w i).Closed := by
      refine hreach.induct (I := fun s => (s.1.server w i).Closed) ?_ ?_
      · intro s hs hp
        rw [(hs.server hi).1] at hp
        simp [Operation.Pulses] at hp
      · intro s cmd s' hr hc hno hs
        refine (step_moves (.reach hr) hi hs).closed hc fun readings hcmd hp h0 hop => hno ?_
        obtain ⟨h, p⟩ := s
        subst hcmd hp
        exact ⟨rfl, h0, hop⟩
    rw [drives_relay (Ready.reach hreach).wired hi, List.getLastD_eq_getLast?, hclosed hpulse]
    rfl
  · rintro i hi ⟨h, p⟩ cmd s' hreach hs hint hc
    obtain ⟨j, readings, rfl, rfl⟩ : ∃ j readings, p = .button j ∧ cmd = .button readings := by
      cases p <;> cases cmd <;> first | exact ⟨_, _, rfl, rfl⟩ | exact hint.elim
    obtain ⟨rfl, h0, hop⟩ := hint
    have hready := Ready.reach hreach
    have hs : ServersHandler.step (h, .button j) (.button readings) = some s' := hs
    obtain ⟨hsame, hlast⟩ := (step_moves hready hi hs).cut h0
    have hlow := hc (by rw [show s'.1.serversOperation j = h.serversOperation j from hsame]; exact hop)
    rw [drives_relay (hready.step hs).wired hi, List.getLastD_eq_getLast?, hlast] at hlow
    cases hlow

/-- Server 0 is ordered on, and button 0 is pressed and released 10 ms later. -/
def pressedDuringPulse : List Command :=
  [.order .turnOn 0 60000 60000, .loop, .button [.low, .low]]

/-- **The relay is open during a pulse.** -/
theorem pulse_cut : ∃ s, (serversHandler Wiring.main).Reach s ∧
    ¬ s.1.PulseClosed Wiring.main 0 := by
  have hrun : ((serversHandler Wiring.main).run (main, .idle) pressedDuringPulse).any (fun s =>
      (s.1.serversOperation 0).Pulses ∧ s.1.pins.drives (Wiring.main.relayPin 0) = some .high) = true := by
    decide +kernel
  obtain ⟨s, hs, hd⟩ := Runs.Machine.exists_reach main_starts hrun
  obtain ⟨hp, hhigh⟩ := of_decide_eq_true hd
  exact ⟨s, hs, fun hc => absurd ((hc hp).symm.trans hhigh) (by decide)⟩

end ServersHandler

end ServerRoom
