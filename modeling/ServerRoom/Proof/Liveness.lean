import ServerRoom.Lib.Clock
import ServerRoom.Proof.Relays

/-!
# Orders that start, and what they answer

An order starts its operation (`Started`) exactly when the handler accepts it
(`execute_started_iff`).

* `truthful_iff`: a refusal is answered and changes nothing; an order that starts answers
  nothing, since its function ends without a `return`.
* `started_iff_live_iff`: a server is on if its last ping was less than 60 s ago, on a clock
  that goes round after 2 ^ 32 ms. In every run the orders follow that, except for a server
  that has not pinged for a round, in the 60 s after each round.
-/

namespace ServerRoom

open Clock

namespace ServersHandler

variable {w : Wiring} {h h' : ServersHandler} {o : Order} {i t t₀ t₁ : ℕ}

/-- An order has started its operation on server `i`, which had none: the relay is closed, and
the timer is set. -/
structure Started (w : Wiring) (h h' : ServersHandler) (o : Order) (i t₁ : ℕ) : Prop where
  server : i < w.serversCount.toNat
  free : h.serversOperation i = .noOp
  operation : h'.serversOperation i = o.operation
  relay : h'.pins.drives (w.relayPin i) = some .low
  timer : h'.serversTimers i = millis t₁

theorem not_started_self : ¬ Started w h h o i t₁ := by
  intro hs
  have hop : Operation.noOp = o.operation := hs.free.symm.trans hs.operation
  cases o <;> cases hop

/-- **An order starts exactly when it is accepted.** -/
theorem execute_started_iff (hw : Wired w h) (o : Order) (index : UInt8) (t₀ t₁ : ℕ) :
    Started w h (h.execute o index t₀ t₁).2 o index.toNat t₁ ↔ h.Accepts o index.toNat t₀ := by
  have hw' := hw.execute o index t₀ t₁
  rw [execute_eq] at hw' ⊢
  by_cases ha : h.Accepts o index.toNat t₀
  · have hi : index.toNat < w.serversCount.toNat := hw.count ▸ ha.1
    rw [if_pos ha] at hw' ⊢
    refine iff_of_true ⟨hi, ha.2.1, ?_, ?_, ?_⟩ ha
    · simp [setTimer, setOperation]
    · rw [drives_relay hw' hi, server_setTimer, server_setOperation, server_write hw hi hi]
      simp
    · simp [setTimer]
  · rw [if_neg ha]
    exact iff_of_false not_started_self ha

/-! ## The answers -/

/-- The answer of an order is true: it says `true` exactly if the operation was started, `false`
only if nothing was changed, and it is defined. -/
structure Truthful (w : Wiring) (h : ServersHandler) (o : Order) (i t₁ : ℕ)
    (result : Option Bool × ServersHandler) : Prop where
  started : result.1 = some true ↔ Started w h result.2 o i t₁
  refused : result.1 = some false → ∀ j < w.serversCount.toNat, result.2.server w j = h.server w j
  defined : result.1 ≠ none

/-- **The answer of an order is true exactly when the order is refused.** -/
theorem truthful_iff (hr : (serversHandler w).Reach (h, .idle)) (o : Order) (index : UInt8) (t₀ t₁ : ℕ) :
    Truthful w h o index.toNat t₁ (h.execute o index t₀ t₁) ↔ ¬ h.Accepts o index.toNat t₀ := by
  have hstarted := execute_started_iff (Ready.reach hr).wired o index t₀ t₁
  constructor
  · intro ht ha
    -- an order that starts has no result
    refine ht.defined ?_
    rw [execute_eq, if_pos ha]
  · intro hno
    have hsame : h.execute o index t₀ t₁ = (some false, h) := by rw [execute_eq, if_neg hno]
    refine ⟨?_, ?_, ?_⟩
    · rw [hstarted]
      exact iff_of_false (by simp [hsame]) hno
    · rw [hsame]
      exact fun _ _ _ => rfl
    · simp [hsame]

/-- An order for server 7 is refused. -/
theorem truthful_main : Truthful .main .main .turnOn 7 60000 (ServersHandler.main.execute .turnOn 7 60000 60000) :=
  (truthful_iff (.init main_starts) .turnOn 7 60000 60000).2 (by decide)

/-- **Server 0 is turned on, and the answer is undefined.** -/
theorem started_unanswered :
    (serversHandler .main).Reach (main, .idle) ∧
      Started .main .main (ServersHandler.main.execute .turnOn 0 60000 60000).2 .turnOn 0 60000 ∧
      (ServersHandler.main.execute .turnOn 0 60000 60000).1 = none ∧
      ¬ Truthful .main .main .turnOn 0 60000 (ServersHandler.main.execute .turnOn 0 60000 60000) := by
  have hnone : (ServersHandler.main.execute .turnOn 0 60000 60000).1 = none := by decide
  refine ⟨.init main_starts, ?_, hnone, fun ht => ht.defined hnone⟩
  constructor <;> decide

end ServersHandler

/-! ## The time since the last ping -/

/-- The time of the last ping of server `i`, after a step before which it was `t`. -/
def pingTime (i t : ℕ) : Place → Command → ℕ
  | .idle, .pingFromServer index t' => if index.toNat = i then t' else t
  | _, _ => t

/-- When a step is over that begins at `now`. -/
def timeAfter (now : ℕ) : Command → ℕ
  | .order _ _ _ t₁ => t₁
  | .pingFromServer _ t => t
  | .operation _ later => later
  | _ => now

theorem ServerState.Moves.lastPing {v v' : ServerState} {i t : ℕ} {p : Place} {cmd : Command}
    (h : v.Moves i p cmd v') (hv : v.lastPing = millis t) : v'.lastPing = millis (pingTime i t p cmd) := by
  cases h with
  | elsewhere hne =>
    cases p <;> cases cmd <;> first | exact hv | skip
    rename_i index t'
    have hother : index.toNat ≠ i := hne
    simp only [pingTime, if_neg hother, hv]
  | released | pressed | waits | ends | refused | accepted => exact hv
  | pinged index t' he => simp only [pingTime, if_pos he]

/-- The handler, and what it does not see: when each server's last ping was (or, if there was
none, when the handler was constructed), and how late it is. -/
structure Clocked where
  state : ServersHandler × Place
  pinged : ℕ → ℕ
  now : ℕ

/-- The clock does not go back. -/
def Clocked.Forward (c : Clocked) : Command → Prop
  | .order _ _ t₀ t₁ => c.now ≤ t₀ ∧ t₀ ≤ t₁
  | .pingFromServer _ t => c.now ≤ t
  | .operation now later => c.now ≤ now ∧ now ≤ later
  | _ => True

namespace ServersHandler

variable {w : Wiring} {i t₀ t₁ : ℕ} {c c' : Clocked} {cmd : Command}

/-- The handler on a clock. -/
def clocked (w : Wiring) : Runs.Machine Clocked Command where
  init c := ∃ relayPins buttonPins pins, (∀ i < w.serversCount.toNat, pins.written (w.relayPin i) = []) ∧
    c.state = ((new w.serversCount relayPins buttonPins c.pinged pins).setup w, .idle) ∧
    ∀ i < w.serversCount.toNat, c.pinged i ≤ c.now
  step c cmd := (ServersHandler.step c.state cmd).map fun s =>
    ⟨s, fun i => pingTime i (c.pinged i) c.state.2 cmd, timeAfter c.now cmd⟩

/-- The handler has the 32-bit time of each last ping. -/
structure Timed (w : Wiring) (c : Clocked) : Prop where
  ready : Ready w c.state
  lastPing : ∀ i < w.serversCount.toNat, (c.state.1.server w i).lastPing = millis (c.pinged i)
  past : ∀ i < w.serversCount.toNat, c.pinged i ≤ c.now

theorem Timed.init (hi : (clocked w).init c) : Timed w c := by
  obtain ⟨relayPins, buttonPins, pins, hn, hstate, hpast⟩ := hi
  refine ⟨.init ⟨relayPins, buttonPins, c.pinged, pins, hn, hstate⟩, fun i _ => ?_, hpast⟩
  have hs := setUp_foldl (w := w) (h := new w.serversCount relayPins buttonPins c.pinged pins) rfl (Nat.le_refl _)
  rw [hstate, setup, hs.server i]
  rfl

/-- Time goes on, and the last ping is not later. -/
theorem pingTime_le (hf : c.Forward cmd) (hp : c.pinged i ≤ c.now) :
    pingTime i (c.pinged i) c.state.2 cmd ≤ timeAfter c.now cmd := by
  have hnow : c.now ≤ timeAfter c.now cmd := by
    cases cmd with
    | loop | button => exact le_rfl
    | order o index t₀ t₁ => exact hf.1.trans hf.2
    | operation now later => exact hf.1.trans hf.2
    | pingFromServer index t => exact hf
  unfold pingTime
  split
  · split
    · exact le_rfl
    · exact hp.trans hnow
  · exact hp.trans hnow

theorem Timed.step (ht : Timed w c) (hf : c.Forward cmd) (hs : (clocked w).step c cmd = some c') : Timed w c' := by
  obtain ⟨s, hstep, rfl⟩ := Option.map_eq_some_iff.1 hs
  exact ⟨ht.ready.step hstep, fun i hi => (step_moves ht.ready hi hstep).lastPing (ht.lastPing i hi),
    fun i hi => pingTime_le hf (ht.past i hi)⟩

theorem Timed.reach (h : (clocked w).ReachWhen Clocked.Forward c) : Timed w c :=
  h.induct (fun _ => .init) fun _ _ _ _ ht hf hs => ht.step hf hs

/-- **What `isServerOn` says**, by the real time since the last ping. -/
theorem Timed.isServerOn_iff (ht : Timed w c) (hi : i < w.serversCount.toNat) (hnow : c.now ≤ t₀) :
    c.state.1.isServerOn i t₀ = true ↔ (t₀ - c.pinged i) % 2 ^ 32 < 60000 := by
  have hlast : c.state.1.serversLastPing i = millis (c.pinged i) := ht.lastPing i hi
  have hsub := sub_toNat ((ht.past i hi).trans hnow)
  unfold isServerOn
  rw [hlast, decide_eq_true_iff, UInt32.lt_iff_toNat_lt]
  unfold millis
  rw [hsub]
  rfl

/-- **Orders follow the liveness of the server** exactly when it has pinged within a round of
the clock, or the rounds without a ping ended more than 60 s ago. -/
theorem started_iff_live_iff (hr : (clocked w).ReachWhen Clocked.Forward c) (o : Order) (index : UInt8)
    (hnow : c.now ≤ t₀) (t₁ : ℕ) :
    (Started w c.state.1 (c.state.1.execute o index t₀ t₁).2 o index.toNat t₁ ↔
        index.toNat < w.serversCount.toNat ∧ c.state.1.serversOperation index.toNat = .noOp ∧
          (o = .turnOn ↔ 60000 ≤ t₀ - c.pinged index.toNat)) ↔
      ¬ (index.toNat < w.serversCount.toNat ∧ c.state.1.serversOperation index.toNat = .noOp ∧
        2 ^ 32 ≤ t₀ - c.pinged index.toNat ∧ (t₀ - c.pinged index.toNat) % 2 ^ 32 < 60000) := by
  have ht := Timed.reach hr
  rw [execute_started_iff ht.ready.wired, Accepts, ht.ready.wired.count]
  by_cases hi : index.toNat < w.serversCount.toNat
  · rw [ht.isServerOn_iff hi hnow]
    by_cases hop : c.state.1.serversOperation index.toNat = .noOp
    · have hround := mod_lt_iff (by decide : 60000 ≤ 2 ^ 32) (t₀ - c.pinged index.toNat)
      generalize t₀ - c.pinged index.toNat = Δ at hround ⊢
      have hlive : (o = .turnOn ↔ 60000 ≤ Δ) ↔ (Δ < 60000 ↔ o ≠ .turnOn) := by
        rw [← Nat.not_lt]
        exact iff_not_comm
      -- what is left compares the age that is shown with the age
      rw [hlive, and_iff_right hi, and_iff_right hi, and_iff_right hi, and_iff_right hop, and_iff_right hop,
        and_iff_right hop, ← hround]
      by_cases ho : o = .turnOn
      · simp only [ho, ne_eq, not_true_eq_false, iff_false, not_iff_not]
      · simp only [ho, ne_eq, not_false_eq_true, iff_true]
    · exact iff_of_true (iff_of_false (fun hc => hop hc.2.1) fun hc => hop hc.2.1) fun hc => hop hc.2.1
  · exact iff_of_true (iff_of_false (fun hc => hi hc.1) fun hc => hi hc.1) fun hc => hi hc.1

/-- The sketch after `setup()`, on a board that was reset. -/
def Clocked.main : Clocked := ⟨(ServersHandler.main, .idle), fun _ => 0, 0⟩

theorem main_clocked : (clocked .main).ReachWhen Clocked.Forward Clocked.main :=
  .init ⟨fun _ => 0, fun _ => 0, ⟨fun _ => none, fun _ => []⟩, fun _ _ => rfl, rfl, fun _ _ => le_rfl⟩

/-- After 60 s without a ping server 0 is turned on. -/
theorem started_live_main :
    Started .main main (main.execute .turnOn 0 60000 60000).2 .turnOn 0 60000 ↔
      0 < Wiring.main.serversCount.toNat ∧ main.serversOperation 0 = .noOp ∧ (Order.turnOn = .turnOn ↔ 60000 ≤ 60000 - 0) :=
  (started_iff_live_iff main_clocked .turnOn 0 (Nat.zero_le 60000) 60000).2 fun hc => absurd hc.2.2.1 (by decide)

/-- **A server that was silent for a round of the clock counts as on.** It is not turned on, and
an order to turn it off starts. -/
theorem silent_counts_as_on :
    let c := Clocked.main
    let t := 2 ^ 32
    (clocked .main).ReachWhen Clocked.Forward c ∧ c.now ≤ t ∧ 60000 ≤ t - c.pinged 0 ∧
      c.state.1.serversOperation 0 = .noOp ∧
      ¬ Started .main c.state.1 (c.state.1.execute .turnOn 0 t t).2 .turnOn 0 t ∧
      Started .main c.state.1 (c.state.1.execute .turnOff 0 t t).2 .turnOff 0 t := by
  have hw : Wired .main main := (Ready.init main_starts).wired
  refine ⟨main_clocked, by decide, by decide, by decide, fun hs => ?_, ?_⟩
  · exact absurd ((execute_started_iff hw .turnOn 0 _ _).1 hs) (by decide)
  · exact (execute_started_iff hw .turnOff 0 _ _).2 (by decide)

end ServersHandler

end ServerRoom
