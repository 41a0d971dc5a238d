import ServerRoom.Proof.Threads

/-!
# What a step adds to the history

Each list of the history grows at its end by what the event of the step says
(`History.after_received` and its siblings), and each thread records only events of its
own. `observed_induct` is the invariant rule for the server with its history.
-/

namespace ServerRoom.Relay

variable {C : Crypto} {s s' : Server} {a : Action} {H : History} {ev : Option Event}

/-! ## The lists of the history -/

/-- The frame that an event adds to those received from `d`. -/
def Event.newReceived (d : ℕ) : Option Event → List (List UInt8)
  | some (.received x f) => if x = d then [f] else []
  | _ => []

def Event.newVerified (d : ℕ) : Option Event → List (List UInt8)
  | some (.verified x f) => if x = d then [f] else []
  | _ => []

def Event.newAccepted (d : ℕ) : Option Event → List NetworkMessage
  | some (.accepted x m) => if x = d then [m] else []
  | _ => []

def Event.newSnapshots (d : ℕ) : Option Event → List (Finset ℕ)
  | some (.copied x set) => if x = d then [set] else []
  | _ => []

def Event.newReturned (d : ℕ) : Option Event → ℕ
  | some (.returned x) => if x = d then 1 else 0
  | _ => 0

/-- The entry that an event adds to those appended for `r`. -/
def Event.newAppended (H : History) (r : ℕ) : Option Event → List Entry
  | some (.appended x m sender) => if x = r then [⟨m, sender.map fun d => (d, H.returned d)⟩] else []
  | _ => []

def Event.newPassed (d : ℕ) : Option Event → List (NetworkMessage × List (Option ℕ))
  | some (.passed x m results) => if x = d then [(m, results)] else []
  | _ => []

theorem push_apply {α : Type} (f : ℕ → List α) (x d : ℕ) (y : α) :
    History.push f x y d = f d ++ if x = d then [y] else [] := by
  unfold History.push
  by_cases h : x = d
  · subst h; simp
  · simp [h, Function.update_of_ne (Ne.symm h)]

namespace History

variable (H ev) (d : ℕ)

theorem after_received : (H.after ev).received d = H.received d ++ Event.newReceived d ev := by
  cases ev with
  | none => simp [after, Event.newReceived]
  | some e => cases e <;> simp [after, add, Event.newReceived, push_apply]

theorem after_verified : (H.after ev).verified d = H.verified d ++ Event.newVerified d ev := by
  cases ev with
  | none => simp [after, Event.newVerified]
  | some e => cases e <;> simp [after, add, Event.newVerified, push_apply]

theorem after_accepted : (H.after ev).accepted d = H.accepted d ++ Event.newAccepted d ev := by
  cases ev with
  | none => simp [after, Event.newAccepted]
  | some e => cases e <;> simp [after, add, Event.newAccepted, push_apply]

theorem after_snapshots : (H.after ev).snapshots d = H.snapshots d ++ Event.newSnapshots d ev := by
  cases ev with
  | none => simp [after, Event.newSnapshots]
  | some e => cases e <;> simp [after, add, Event.newSnapshots, push_apply]

theorem after_appended : (H.after ev).appended d = H.appended d ++ Event.newAppended H d ev := by
  cases ev with
  | none => simp [after, Event.newAppended]
  | some e => cases e <;> simp [after, add, Event.newAppended, push_apply]

theorem after_passed : (H.after ev).passed d = H.passed d ++ Event.newPassed d ev := by
  cases ev with
  | none => simp [after, Event.newPassed]
  | some e => cases e <;> simp [after, add, Event.newPassed, push_apply]

theorem after_returned : (H.after ev).returned d = H.returned d + Event.newReturned d ev := by
  cases ev with
  | none => simp [after, Event.newReturned]
  | some e =>
    cases e <;> simp [after, add, Event.newReturned]
    case returned x =>
      rw [Function.update_apply]
      by_cases h : x = d
      · subst h; simp
      · simp [h, Ne.symm h]

end History

/-! ## Runs with their history -/

theorem observed_init (C : Crypto) (h : s.Starts) : (observed C).init (s, .empty) := ⟨h, rfl⟩

/-- A step of the server with its history. -/
theorem observed_moves {p p' : Server × History} (h : (observed C).step p a = some p') :
    p.1.Moves C a (p.1.event a) p'.1 ∧ p'.2 = p.2.after (p.1.event a) := by
  obtain ⟨hs, hH⟩ := Runs.Machine.recording_step h
  exact ⟨Server.step_moves hs, hH⟩

/-- **The invariant rule for runs with their history.** The state before a step is one that
the server reaches. -/
theorem observed_induct {G : Server × History → Action → Prop} {I : Server → History → Prop}
    (h0 : ∀ s, s.Starts → I s .empty)
    (hstep : ∀ s H a s', (observed C).ReachWhen G (s, H) → (relay C).Reach s → I s H → G (s, H) a →
      s.Moves C a (s.event a) s' → I s' (H.after (s.event a)))
    {s : Server} {H : History} (h : (observed C).ReachWhen G (s, H)) : I s H := by
  have hinv : ∀ p, (observed C).ReachWhen G p → I p.1 p.2 := by
    intro p hp
    refine hp.induct (I := fun p => I p.1 p.2) (fun p hi => ?_) fun p a p' hr hi hg hs => ?_
    · rw [hi.2]; exact h0 _ hi.1
    · obtain ⟨hm, hH⟩ := observed_moves hs
      rw [hH]
      exact hstep _ _ a _ hr (hr.unrecorded fun _ _ _ => trivial) hi hg hm
  exact hinv (s, H) h

/-! ## Who records what -/

/-- A handler records the message in its hand when it appends it for its own device. -/
theorem HandlerPc.Step.event {d : ℕ} {st : ConnectionState} {p p' : HandlerPc} {σ : Stmt}
    (h : p.Step C d st σ ev p') :
    ev = none ∨ ∃ m, ev = some (.appended d m none) ∧ σ = .pushBack d m ∧ p = .push m := by
  cases h with
  | push m => exact Or.inr ⟨m, rfl, rfl, rfl⟩
  | _ => exact Or.inl rfl

/-- A sender records what it passes to `send_message`. -/
theorem SenderPc.Step.event {d : ℕ} {data : DeviceData} {p p' : SenderPc} {σ : Stmt}
    (h : p.Step d data σ ev p') : ev = none ∨ ∃ m results, ev = some (.passed d m results) := by
  cases h with
  | send i m results => exact Or.inr ⟨m, results, rfl⟩
  | _ => exact Or.inl rfl

/-- What a handler appends has no sender. -/
theorem HandlerPc.Step.origin {d r : ℕ} {st : ConnectionState} {p p' : HandlerPc} {σ : Stmt}
    (h : p.Step C d st σ ev p') {x : Entry} (hx : x ∈ Event.newAppended H r ev) : x.origin = none := by
  rcases h.event with rfl | ⟨m, rfl, -⟩
  · cases hx
  · simp only [Event.newAppended] at hx
    split at hx
    · rw [List.mem_singleton.1 hx]; rfl
    · cases hx

/-- A sender appends nothing. -/
theorem SenderPc.Step.origin {d r : ℕ} {data : DeviceData} {p p' : SenderPc} {σ : Stmt}
    (h : p.Step d data σ ev p') {x : Entry} (hx : x ∈ Event.newAppended H r ev) : x.origin = none := by
  rcases h.event with rfl | ⟨m, results, rfl⟩ <;> cases hx

end ServerRoom.Relay
