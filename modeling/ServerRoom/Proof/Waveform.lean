import ServerRoom.Lib.Clock
import ServerRoom.Proof.Servers

/-!
# The waveform of an order

An order closes the relay and starts a plan (`Order.phases`), of which every visit does the
next thing if its delay is exceeded in real time; an order that comes before the plan is at
its end does nothing. `Timeline` keeps that plan for server `i` beside a run of the handler,
with the clock and the visits. `waveform_exact`: in every run in which button `i` is not
pressed and the visits are close enough, the writes to relay `i` are those of the plan.
-/

namespace ServerRoom

open Clock

/-- What an order does after it has closed the relay: for each phase the delay to exceed, in
milliseconds, and the level that is then written. -/
def Order.phases : Order → List (ℕ × Level)
  | .turnOn => [(2000, .high)]
  | .turnOff => [(5000, .high)]
  | .restart => [(5000, .high), (5000, .low), (2000, .high)]

/-- The writes to the relay that an order leads to. -/
def Order.levels (o : Order) : List Level := .low :: o.phases.map Prod.snd

/-- The longest delay. -/
def longestDelay : ℕ := 5000

/-- What is left to do in an operation. -/
def Operation.phases : Operation → List (ℕ × Level)
  | .noOp => []
  | .serverTurnOnOp => [(2000, .high)]
  | .serverTurnOffOp => [(5000, .high)]
  | .serverRestartOp => [(5000, .high), (5000, .low), (2000, .high)]
  | .serverRestartOp2 => [(5000, .low), (2000, .high)]

theorem Operation.phases_eq {op next : Operation} {delay : UInt32} {level : Level}
    (h : op.phase = some (delay, level, next)) : op.phases = (delay.toNat, level) :: next.phases := by
  cases op <;> cases h <;> rfl

theorem Operation.phases_eq_nil {op : Operation} : op.phases = [] ↔ op = .noOp := by
  cases op <;> simp [Operation.phases]

theorem Order.phases_eq (o : Order) : o.phases = o.operation.phases := by
  cases o <;> rfl

theorem Order.phases_le (o : Order) : ∀ e ∈ o.phases, e.1 ≤ longestDelay := by
  cases o <;> decide

/-! ## The timeline of a run -/

/-- The time so far; when server `i` was visited last (before its first visit: when its first
order was accepted); the plan of its relay; and the orders that it accepted. -/
structure Timeline where
  clock : ℕ
  visited : Option ℕ
  relay : Plan Level
  orders : List Order

namespace Timeline

def start : Timeline := ⟨0, none, ⟨[], 0, []⟩, []⟩

/-- How a step changes the timeline of server `i`, which is in the state `v` before it. -/
def after (i : ℕ) (f : Timeline) (v : ServerState) : Place → Command → Timeline
  | .idle, .order o index t₀ t₁ =>
    if index.toNat = i ∧ f.relay.pending = [] ∧ v.Admits o t₀ then
      { clock := t₁
        visited := f.visited.or (some t₁)
        relay := f.relay.start .low o.phases t₁
        orders := f.orders ++ [o] }
    else { f with clock := t₁ }
  | .idle, .pingFromServer _ t => { f with clock := t }
  | .operation j, .operation now later =>
    if j = i then { f with clock := later, visited := some now, relay := f.relay.poll now later }
    else { f with clock := later }
  | _, _ => f

/-- Time goes on, button `i` is not pressed, and a visit to server `i` is less than
`2 ^ 32 - 5000` ms after the one before. -/
def Allows (i : ℕ) (f : Timeline) : Place → Command → Prop
  | .idle, .order _ _ t₀ t₁ => f.clock ≤ t₀ ∧ t₀ ≤ t₁
  | .idle, .pingFromServer _ t => f.clock ≤ t
  | .button j, .button readings => j = i → presses readings = 0
  | .operation j, .operation now later =>
    f.clock ≤ now ∧ now ≤ later ∧ (j = i → ∀ t ∈ f.visited, now + longestDelay < t + 2 ^ 32)
  | _, _ => True

instance (i : ℕ) (f : Timeline) (p : Place) (cmd : Command) : Decidable (f.Allows i p cmd) := by
  unfold Allows
  split <;> infer_instance

variable {i : ℕ} {f : Timeline} {v v' : ServerState} {p : Place} {cmd : Command}

/-- **Server `i` follows its timeline.** -/
structure Shows (f : Timeline) (v : ServerState) : Prop where
  written : v.written = f.relay.done
  pending : f.relay.pending = v.operation.phases
  timer : v.operation ≠ .noOp → v.timer = millis f.relay.since

/-- The timeline is one that the visits follow closely enough. -/
structure Close (f : Timeline) : Prop where
  watched : f.relay.Watched f.clock f.visited longestDelay
  total : f.relay.total = f.orders.flatMap Order.levels

/-- A step that is not about server `i` only lets time pass. -/
theorem after_elsewhere (hne : ¬ Concerns i p cmd) (ha : f.Allows i p cmd) :
    ∃ t, f.clock ≤ t ∧ f.after i v p cmd = { f with clock := t } := by
  cases p <;> cases cmd
  case idle.order o index t₀ t₁ => exact ⟨t₁, ha.1.trans ha.2, if_neg fun h => hne h.1⟩
  case idle.pingFromServer index t => exact ⟨t, ha, rfl⟩
  case operation.operation j now later => exact ⟨later, ha.1.trans ha.2.1, if_neg hne⟩
  -- no other step reads the clock
  all_goals exact ⟨f.clock, le_rfl, rfl⟩

theorem Close.mono (h : f.Close) {t : ℕ} (hle : f.clock ≤ t) : ({ f with clock := t } : Timeline).Close :=
  ⟨h.watched.mono hle, h.total⟩

/-- A poll of the plan is a visit of the handler. -/
theorem Shows.poll (hs : f.Shows v) (hc : f.Close) {now later : ℕ} (hnow : f.clock ≤ now)
    (hgap : ∀ t ∈ f.visited, now + longestDelay < t + 2 ^ 32) {delay : UInt32} {level : Level} {next : Operation}
    (hph : v.operation.phase = some (delay, level, next)) :
    f.relay.poll now later = if millis now - v.timer > delay then
      ⟨next.phases, later, f.relay.done ++ [level]⟩ else f.relay := by
  have hpend : f.relay.pending = (delay.toNat, level) :: next.phases := hs.pending.trans (Operation.phases_eq hph)
  have hne : f.relay.pending ≠ [] := by rw [hpend]; exact List.cons_ne_nil _ _
  obtain ⟨hle, hlt⟩ := hc.watched.since_le hne hnow hgap
  have htimer : v.timer = millis f.relay.since := hs.timer fun hop => by rw [hop] at hph; cases hph
  have hiff : millis now - v.timer > delay ↔ now - f.relay.since > delay.toNat := by
    rw [htimer]
    exact lt_sub_iff hle hlt delay
  unfold Plan.poll
  rw [hpend]
  dsimp only
  rw [if_congr hiff rfl rfl]

theorem after_visit {now later : ℕ} : f.after i v (.operation i) (.operation now later) =
    { f with clock := later, visited := some now, relay := f.relay.poll now later } := if_pos rfl

theorem Close.visit (h : f.Close) {now later : ℕ} (hnow : f.clock ≤ now) (hle : now ≤ later) :
    ({ f with clock := later, visited := some now, relay := f.relay.poll now later } : Timeline).Close :=
  ⟨h.watched.poll hnow hle, (Plan.total_poll _ _ _).trans h.total⟩

/-- **The step**: server `i` goes on following its timeline. -/
theorem Shows.step (hs : f.Shows v) (hc : f.Close) (ha : f.Allows i p cmd) (hm : v.Moves i p cmd v') :
    (f.after i v p cmd).Shows v' ∧ (f.after i v p cmd).Close := by
  cases hm with
  | elsewhere hne =>
    obtain ⟨t, hle, hf⟩ := after_elsewhere (v := v) hne ha
    rw [hf]
    exact ⟨⟨hs.written, hs.pending, hs.timer⟩, hc.mono hle⟩
  | released readings h0 => exact ⟨hs, hc⟩
  | pressed readings h0 => exact absurd (ha rfl) (by omega)
  | waits now later hw =>
    obtain ⟨hnow, hle, hgap⟩ := ha
    rw [after_visit]
    refine ⟨?_, hc.visit hnow hle⟩
    have hpoll : f.relay.poll now later = f.relay := by
      cases hph : v.operation.phase with
      | none =>
        -- without a phase there is no operation, and nothing is planned
        have hnil : f.relay.pending = [] := by
          rw [hs.pending]
          cases hop : v.operation <;> simp_all [Operation.phase, Operation.phases]
        unfold Plan.poll
        rw [hnil]
      | some e =>
        rw [hs.poll hc hnow (hgap rfl) hph, if_neg (hw _ _ _ hph)]
    rw [hpoll]
    exact ⟨hs.written, hs.pending, hs.timer⟩
  | ends now later hph ht =>
    obtain ⟨hnow, hle, hgap⟩ := ha
    rw [after_visit]
    refine ⟨?_, hc.visit hnow hle⟩
    rw [hs.poll hc hnow (hgap rfl) hph, if_pos ht]
    refine ⟨by rw [hs.written], rfl, fun hne => ?_⟩
    rw [if_neg hne]
  | refused o index t₀ t₁ he hno =>
    have hrefuses : ¬ (index.toNat = i ∧ f.relay.pending = [] ∧ v.Admits o t₀) := by
      rintro ⟨-, hnil, hadm⟩
      exact hno ⟨Operation.phases_eq_nil.1 (hs.pending.symm.trans hnil), hadm⟩
    rw [after, if_neg hrefuses]
    exact ⟨⟨hs.written, hs.pending, hs.timer⟩, hc.mono (ha.1.trans ha.2)⟩
  | accepted o index t₀ t₁ he hacc =>
    have hnil : f.relay.pending = [] := hs.pending.trans (Operation.phases_eq_nil.2 hacc.1)
    rw [after, if_pos ⟨he, hnil, hacc.2⟩]
    refine ⟨⟨by rw [hs.written]; rfl, o.phases_eq, fun _ => rfl⟩,
      hc.watched.start o.phases_le (ha.1.trans ha.2) .low, ?_⟩
    rw [Plan.total_start hnil, hc.total, List.flatMap_append, List.flatMap_singleton]
    rfl
  | pinged index t he =>
    exact ⟨⟨hs.written, hs.pending, hs.timer⟩, hc.mono ha⟩

end Timeline

namespace ServersHandler

variable {w : Wiring} {i : ℕ}

/-- The handler, with the timeline of server `i`. -/
def timed (w : Wiring) (i : ℕ) : Runs.Machine ((ServersHandler × Place) × Timeline) Command :=
  (serversHandler w).recording .start fun f s cmd => f.after i (s.1.server w i) s.2 cmd

/-- **Waveforms.** In every run in which button `i` is not pressed, and in which the visits to
server `i` are less than `2 ^ 32 - 5000` ms apart, the writes to its relay are those of its plan,
and its operation is what is left of the plan; at the end of the plan every order that it
accepted has written its levels once, in order; and before its end no order changes anything. -/
theorem waveform_exact (hi : i < w.serversCount.toNat) {s : ServersHandler × Place} {f : Timeline}
    (hr : (timed w i).ReachWhen (fun p cmd => p.2.Allows i p.1.2 cmd) (s, f)) :
    f.Shows (s.1.server w i) ∧ f.relay.total = f.orders.flatMap Order.levels ∧
      ∀ o index t₀ t₁, index.toNat = i → f.relay.pending ≠ [] → s.1.execute o index t₀ t₁ = (some false, s.1) := by
  have hall : Ready w s ∧ f.Shows (s.1.server w i) ∧ f.Close := by
    refine hr.induct (I := fun p => Ready w p.1 ∧ p.2.Shows (p.1.1.server w i) ∧ p.2.Close) ?_ ?_
    · rintro ⟨s, f⟩ ⟨hs, rfl⟩
      obtain ⟨hop, hwritten⟩ := hs.server hi
      refine ⟨.init hs, ⟨hwritten, by rw [hop]; rfl, fun hne => absurd hop hne⟩,
        ⟨?_, fun hne => absurd rfl hne, ?_⟩, rfl⟩
      · intro e he; cases he
      · intro m hm; cases hm
    · rintro ⟨s, f⟩ cmd ⟨s', f'⟩ - ⟨hready, hshows, hclose⟩ ha hs
      obtain ⟨hs, rfl⟩ := Runs.Machine.recording_step hs
      exact ⟨hready.step hs, hshows.step hclose ha (step_moves hready hi hs)⟩
  obtain ⟨-, hshows, hclose⟩ := hall
  refine ⟨hshows, hclose.total, fun o index t₀ t₁ hx hne => ?_⟩
  -- what is left of the plan is an operation, and that refuses every order
  have hop : (s.1.server w i).operation ≠ .noOp := fun hop =>
    hne (hshows.pending.trans (Operation.phases_eq_nil.2 hop))
  rw [execute_eq, if_neg fun ha => hop (hx ▸ ha.2.1)]

/-- A call of `loop` in `main.ino` at the time `t`, with button 2 pressed. -/
def loopAt (t : ℕ) : List Command :=
  [.loop, .button [], .operation t t, .button [], .operation t t, .button [.low, .low], .operation t t]

/-- Server 0 is restarted 2900 ms before `millis()` wraps. -/
def restartAtWrap : List Command :=
  List.flatten [[.pingFromServer 0 (2 ^ 32 - 3000), .order .restart 0 (2 ^ 32 - 2900) (2 ^ 32 - 2900)],
    loopAt (2 ^ 32), [.order .turnOff 0 (2 ^ 32 + 1) (2 ^ 32 + 1), .order .turnOn 1 (2 ^ 32 + 2) (2 ^ 32 + 2)],
    loopAt (2 ^ 32 + 2101), loopAt (2 ^ 32 + 7102), loopAt (2 ^ 32 + 9103)]

theorem waveform_exact_wrap : ∃ s f,
    (timed Wiring.main 0).ReachWhen (fun p cmd => p.2.Allows 0 p.1.2 cmd) (s, f) ∧ f.orders = [.restart] ∧
      (s.1.server Wiring.main 0).written = [.low, .high, .low, .high] := by
  have hrun : ((timed Wiring.main 0).runWhen (fun p cmd => p.2.Allows 0 p.1.2 cmd)
      ((main, .idle), .start) restartAtWrap).any (fun p =>
        p.2.orders = [.restart] ∧ p.2.relay.pending = []) = true := by
    decide +kernel
  have hinit : (timed Wiring.main 0).init ((main, .idle), .start) := ⟨main_starts, rfl⟩
  obtain ⟨⟨s, f⟩, hr, hs⟩ := Runs.Machine.exists_reachWhen hinit hrun
  obtain ⟨horders, hnil⟩ : f.orders = [.restart] ∧ f.relay.pending = [] := of_decide_eq_true hs
  obtain ⟨hshows, htotal, -⟩ := waveform_exact (by decide) hr
  refine ⟨s, f, hr, horders, ?_⟩
  unfold Plan.total at htotal
  rw [horders, hnil, List.map_nil, List.append_nil] at htotal
  rw [hshows.written, htotal]
  rfl

end ServersHandler

end ServerRoom
