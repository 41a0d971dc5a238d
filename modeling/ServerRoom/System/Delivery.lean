import ServerRoom.Proof.Broadcast
import ServerRoom.Proof.Pings
import ServerRoom.System.Installation

/-!
# From board to board

What happens to a frame between `send` on one board and the sketch of another. The parts are
known: a board hands its frames over in order, TCP carries them, the server relays each message
of a sender in a round of its own, and a board reassembles what arrives. Here they are put
together, over every order of the steps.

* `Accepting`: what the server accepts from a device is a subsequence of what it received.
* `frames_relayed`: what a board processes on a connection was queued for that connection.
* `relayed_in_order`: from each sender a board gets a subsequence of what the sender sent.
* `orders_from_clients`: boards hand over no orders, so a relay that no button closes was ordered
  by a client that is not a board.

Both need that no message is continued after it was cut off (`InOrder`).
-/

namespace ServerRoom

open ByteMem Framing NetworkHandler NetworkSender

/-! ## The server's part -/

namespace Relay

variable {C : Crypto} {s s' : Server} {a : Action} {H : History} {ev : Option Event} {σ : Stmt} {d : ℕ}

/-- The frame that a receiver has in hand and has not accepted yet. -/
def ReceiverPc.pending : ReceiverPc → List (List UInt8)
  | .check m => [m.wire]
  | .compare m | .stamp m | .setWorking m | .addAcquire m | .addLock m | .addInsert m | .addUnlock m | .dispatch m =>
    [(htonConversions m).wire]
  | _ => []

/-- What a receiver has accepted, and what it has in hand, it received, in this order. -/
def Accepting (p : ReceiverPc) (accepted : List NetworkMessage) (received : List (List UInt8)) : Prop :=
  (accepted.map NetworkMessage.wire ++ p.pending).Sublist received

theorem Accepting.mono {p p' : ReceiverPc} {accepted : List NetworkMessage} {received : List (List UInt8)}
    (h : Accepting p accepted received) (hp : p'.pending = p.pending ∨ p'.pending = []) :
    Accepting p' accepted received := by
  unfold Accepting at h ⊢
  rcases hp with he | he <;> rw [he]
  · exact h
  · rw [List.append_nil]
    exact (List.sublist_append_left _ _).trans h

theorem ReceiverPc.Step.accepting {data : DeviceData} {network : UInt32 → Finset ℕ} {p p' : ReceiverPc}
    (h : p.Step C d data network σ ev p') {accepted : List NetworkMessage} {received : List (List UInt8)}
    (hp : Accepting p accepted received) :
    Accepting p' (accepted ++ Event.newAccepted d ev) (received ++ Event.newReceived d ev) := by
  cases h <;> simp only [Event.newAccepted, Event.newReceived, List.append_nil, if_true]
  case read b =>
    unfold Accepting at hp ⊢
    refine List.Sublist.append ?_ (List.Sublist.refl _)
    exact (List.sublist_append_left _ _).trans hp
  case hmac m hid => exact hp.mono (Or.inl (by simp only [pending]; rw [htonConversions_ntohConversions]))
  case accept m hping =>
    unfold Accepting at hp ⊢
    rw [List.map_append]
    simpa [pending] using hp
  all_goals first | exact hp.mono (Or.inl rfl) | exact hp.mono (Or.inr rfl)

theorem ReceiverPc.Step.received_foreign {data : DeviceData} {network : UInt32 → Finset ℕ} {p p' : ReceiverPc}
    {x : ℕ} (h : p.Step C x data network σ ev p') (hx : x ≠ d) : Event.newReceived d ev = [] := by
  cases h <;> simp only [Event.newReceived, if_neg hx]

/-- **What a step is for the receiver of `d`**: its own step, or nothing that it accepts or receives. -/
theorem Server.Moves.receiver_cases (hm : s.Moves C a ev s') (hsh : Shape s) (d : ℕ) :
    (∃ σ, (s.receiver d).Step C d (s.device d) s.networkDevices σ ev (s'.receiver d)) ∨
      (s'.receiver d = s.receiver d ∨ s'.receiver d = .acquire) ∧ Event.newAccepted d ev = [] ∧
        Event.newReceived d ev = [] := by
  cases hm with
  | accept fd hfd => exact Or.inr ⟨Or.inl rfl, rfl, rfl⟩
  | create fd launched networkId last hm => exact Or.inr ⟨Or.inl (hm.receiver d), rfl, rfl⟩
  | wake x hw => exact Or.inr ⟨Or.inl rfl, rfl, rfl⟩
  | handler x e hm =>
    refine Or.inr ⟨(hm.receiver_or hsh d).imp_right And.left, hm.step.foreign.accepted, ?_⟩
    rcases hm.step.event with rfl | ⟨m, rfl, -⟩ <;> rfl
  | sender x e hm =>
    refine Or.inr ⟨Or.inl (hm.receiver d), hm.step.foreign.accepted, ?_⟩
    rcases hm.step.event with rfl | ⟨m, results, rfl⟩ <;> rfl
  | @receiver x e σ ev p s' hm =>
    have hpc := hm.receiver d
    by_cases hx : d = x
    · subst hx
      rw [if_pos rfl] at hpc
      exact Or.inl ⟨σ, hpc ▸ hm.step⟩
    · rw [if_neg hx] at hpc
      have hne : x ≠ d := fun he => hx he.symm
      exact Or.inr ⟨Or.inl hpc, (hm.step.foreign hne).accepted, hm.step.received_foreign hne⟩

/-- **What the server accepts from a device** is a subsequence of what it received from it. -/
theorem accepting_reach {G : Server × History → Action → Prop} (h : (observed C).ReachWhen G (s, H)) (d : ℕ) :
    Accepting (s.receiver d) (H.accepted d) (H.received d) := by
  refine observed_induct (I := fun s H => Accepting (s.receiver d) (H.accepted d) (H.received d))
    (fun s hs => ?_) (fun s H a s' _ hr hi _ hm => ?_) h
  · rw [hs.receiver]
    exact List.Sublist.refl _
  · rw [History.after_accepted, History.after_received]
    rcases hm.receiver_cases (Shape.reach hr) d with ⟨σ, hstep⟩ | ⟨hrec, hacc, hnew⟩
    · exact hstep.accepting hi
    · rw [hacc, hnew, List.append_nil, List.append_nil]
      refine hi.mono (hrec.imp (congrArg _) fun he => ?_)
      rw [he]
      rfl

/-- Whatever is received is one frame. -/
theorem received_isFrame {G : Server × History → Action → Prop} (h : (observed C).ReachWhen G (s, H)) :
    ∀ d, ∀ f ∈ H.received d, wireFormat.IsFrame f := by
  refine observed_induct (I := fun _ H => ∀ d, ∀ f ∈ H.received d, wireFormat.IsFrame f)
    (fun s _ d f hf => by cases hf) (fun s H a s' _ _ hi _ _ d f hf => ?_) h
  rw [History.after_received] at hf
  rcases List.mem_append.1 hf with hf | hf
  · exact hi d f hf
  · rcases Installation.newReceived_cases s a d with hnew | ⟨e, bytes, -, -, -, hnew⟩ <;> rw [hnew] at hf
    · cases hf
    · rw [List.mem_singleton.1 hf]
      exact (loaded_recvd bytes).isFrame

/-- The frames of the entries that come from `d`. -/
def framesFrom (d : ℕ) (xs : List Entry) : List (List UInt8) :=
  (xs.filter fun x => (x.numberFrom d).isSome).map fun x => x.message.wire

/-- **What is queued from one sender** is a subsequence of what was received from it. -/
theorem queued_in_order {G : Server × History → Action → Prop} (h : (observed C).ReachWhen G (s, H)) (d r : ℕ) :
    (framesFrom d (H.appended r)).Sublist (H.received d) := by
  have hround := Rounded.reach h
  have hsorted : (H.numbersFrom d r).Pairwise (· < ·) := by
    rw [(hround.progress d).reaches r]
    exact Rounds.reached_sorted ..
  have hmessage : ∀ x ∈ H.appended r, ∀ k, x.numberFrom d = some k → (H.accepted d)[k]? = some x.message :=
    fun x hx k hk => hround.message r x d k hx (numberFrom_eq_some.1 hk)
  have hnumbered := Rounds.sublist_of_numbered hsorted hmessage
  have hwire := hnumbered.map NetworkMessage.wire
  rw [List.map_map] at hwire
  refine hwire.trans ((List.sublist_append_left _ _).trans (accepting_reach h d))

theorem framed_reach (h : (observed C).ReachWhen StaysCut (s, H)) (d : ℕ) : Framed (H.passed d) := by
  refine observed_induct (I := fun _ H => Framed (H.passed d)) (fun s _ => ?_)
    (fun s H a s' _ _ hi hg hm => hi.step hg hm) h
  exact framed_iff_inStep.2 InStep.nil

end Relay

/-! ## From board to board -/

namespace Installation

variable {V : Type} [Zero V] {C : Crypto} {format : Reading V → String} {wiring : ℕ → Option (ℕ × ℕ)}
  {s s' : Installation V} {G : Installation V → Action V → Prop}

/-- **The transport keeps its promise, and nobody continues after a message was cut off.** -/
def InOrder (C : Crypto) (format : Reading V → String) (wiring : ℕ → Option (ℕ × ℕ)) (s : Installation V) (a : Action V) :
    Prop :=
  Transport C wiring s a ∧ match a with
    | .server a => Relay.StaysCut (s.server, s.history) a
    | .board b e => Board.Uncut C format (s.board b, s.log b) e

/-- No thread of the server calls `HMAC` while a handler has still to sign its ping. -/
def SparesPings (s : Installation V) : Action V → Prop
  | .server a => Relay.SparesPings s.server a
  | .board _ _ => True

/-- No thread of the server calls `HMAC` while a receiver has still to compare its digest. -/
def SparesChecks (s : Installation V) : Action V → Prop
  | .server a => Relay.SparesChecks s.server a
  | .board _ _ => True

instance (s : Installation V) : (a : Action V) → Decidable (SparesPings s a)
  | .server a => inferInstanceAs (Decidable (Relay.SparesPings s.server a))
  | .board _ _ => inferInstanceAs (Decidable True)

instance (s : Installation V) : (a : Action V) → Decidable (SparesChecks s a)
  | .server a => inferInstanceAs (Decidable (Relay.SparesChecks s.server a))
  | .board _ _ => inferInstanceAs (Decidable True)

/-- **What a board processes on a connection was queued for it**, in this order. -/
theorem frames_relayed (hG : ∀ s a, G s a → Transport C wiring s a)
    (hcut : ∀ s a, G s (.server a) → Relay.StaysCut (s.server, s.history) a)
    (h : (installation C format).ReachWhen G s) (b c : ℕ) :
    ∃ xs : List Relay.Entry, (s.log b).history.framesOn c = xs.map (fun x => x.message.wire) ∧
      (xs = [] ∨ ∃ d, wiring d = some (b, c) ∧ xs.Sublist (s.history.appended d)) := by
  have hserver : (Relay.observed C).ReachWhen Relay.StaysCut (s.server, s.history) := server_reach hcut h
  obtain ⟨t, hdec⟩ := (accounted h b).stream.past c
  have hread : (s.log b).history.read c <+: s.arrivedAt b c := List.prefix_append _ _
  rcases (Carried.reach hG h).toBoard b c with hnil | ⟨d, hd, hpre⟩
  · -- nothing has arrived
    rw [hnil] at hread
    rw [List.prefix_nil.1 hread] at hdec
    exact ⟨[], (hdec.unique Decomposes.nil).1, Or.inl rfl⟩
  · obtain ⟨frames, tail, hout, hsub⟩ := (Relay.framed_reach hserver d).reader hserver
    obtain ⟨rest, hrest⟩ := hread.trans hpre
    rw [← hrest, hdec.eq, List.append_assoc] at hout
    have hfirst := Decomposes.isPrefix hdec.frame hout
    obtain ⟨xs, hxs, heq⟩ := List.sublist_map_iff.1 (hfirst.sublist.trans hsub)
    exact ⟨xs, heq, Or.inr ⟨d, hd, hxs⟩⟩

omit [Zero V] in
theorem mem_appended {xs : List Relay.Entry} {x : Relay.Entry} {p : ℕ × ℕ}
    (h : xs = [] ∨ ∃ d, wiring d = some p ∧ xs.Sublist (s.history.appended d)) (hx : x ∈ xs) :
    ∃ r, x ∈ s.history.appended r := by
  rcases h with rfl | ⟨d, -, hsub⟩
  · cases hx
  · exact ⟨d, hsub.subset hx⟩

/-- **What the server receives from a board** was handed over by it, in this order. -/
theorem received_sent (hG : ∀ s a, G s a → Transport C wiring s a)
    (hcut : ∀ s b e, G s (.board b e) → Board.Uncut C format (s.board b, s.log b) e)
    (h : (installation C format).ReachWhen G s) {d b c : ℕ} (hw : wiring d = some (b, c)) :
    (s.history.received d).Sublist (((s.log b).transcript.attempts c).map Attempt.whole) := by
  have hserver : (Relay.observed C).Reach (s.server, s.history) := server_reach (fun _ _ _ => trivial) h
  have hboard : (logged C format).ReachWhen (Board.Uncut C format) (s.board b, s.log b) :=
    board_reach (fun s e => hcut s b e) h
  have hstep : ∀ p, (logged C format).ReachWhen (Board.Uncut C format) p → ∀ c, InStep (p.2.transcript.attempts c) := by
    intro p hp
    refine hp.induct (I := fun p => ∀ c, InStep (p.2.transcript.attempts c)) ?_ fun p e p' _ hi hg hs => ?_
    · rintro p ⟨-, hlog⟩ c
      rw [hlog]
      exact InStep.nil
    · obtain ⟨-, hrecord⟩ := Runs.Machine.recording_step hs
      rw [hrecord]
      exact transcribe_inStep hg hi
  obtain ⟨frames, tail, hdec, hsub⟩ := (hstep _ hboard c).decomposes fun x hx => by
    obtain ⟨call, -, rfl⟩ := List.mem_map.1 hx
    exact attempt_isFrame call
  obtain ⟨rest, hrest⟩ := (Carried.reach hG h).toServer d b c hw
  have hwritten : written ((s.log b).transcript.attempts c) = (s.history.received d).flatten ++ rest := hrest.symm
  rw [hwritten] at hdec
  exact (Decomposes.isPrefix (Relay.received_isFrame hserver d) hdec).sublist.trans hsub

/-- A ping of the server is not delivered. -/
theorem deliver_ping {f : List UInt8} (hf : IsPingFrame C f) : Frame.deliver C Board.network f = none := by
  have hping : Frame.isPing C Board.network f = true := by
    refine decide_eq_true ⟨hf.marks, ?_⟩
    exact (of_decide_eq_true hf.authentic).2
  unfold Frame.deliver
  rw [if_pos hping]

/-- What passed the server's check is authentic, if no check was disturbed. -/
theorem verified_authentic (h : (installation C format).ReachWhen SparesChecks s) (d : ℕ) :
    ∀ f ∈ s.history.verified d, Frame.isAuthentic C f = true :=
  Relay.verified_authentic (G := fun p a => Relay.SparesChecks p.1 a) (fun _ _ hg => hg)
    (server_reach (fun _ _ hg => hg) h) d

/-- What the server queued of its own is a ping, which no board delivers, if no ping was disturbed. -/
theorem ping_not_delivered (h : (installation C format).ReachWhen SparesPings s) {r : ℕ} {x : Relay.Entry}
    (hx : x ∈ s.history.appended r) (ho : x.origin = none) :
    IsPingFrame C x.message.wire ∧ Frame.deliver C Board.network x.message.wire = none := by
  have hserver : (Relay.observed C).ReachWhen (fun p a => Relay.SparesPings p.1 a) (s.server, s.history) :=
    server_reach (fun _ _ hg => hg) h
  obtain ⟨stack, heq⟩ := Relay.appended_signed (fun _ _ hg => hg) hserver hx ho
  have hping := Relay.createPingMessage_isPingFrame C stack
  rw [heq]
  exact ⟨hping, deliver_ping hping⟩

/-- **Frames go from sender to board in order, each at most once.** In every run of the
installation in which nobody continues after a message was cut off: the frames that a board has
processed on a connection stand for entries that the server queued for the other end, in its
order; those of the server's own have the marks of a ping; the others passed the server's check;
and those from one sender are a subsequence of the frames that the server received from it, and if
the sender is a board, of the messages that this board handed over.

If no thread of the server has called `HMAC` between another one's call and its use of the digest,
the server's own are pings, which the board does not deliver, and the others are authentic. -/
theorem relayed_in_order (C : Crypto) (format : Reading V → String) (wiring : ℕ → Option (ℕ × ℕ))
    (h : (installation C format).ReachWhen (InOrder C format wiring) s) (b c : ℕ) :
    ∃ xs : List Relay.Entry, (s.log b).history.framesOn c = xs.map (fun x => x.message.wire) ∧
      (xs = [] ∨ ∃ d, wiring d = some (b, c) ∧ xs.Sublist (s.history.appended d)) ∧
      (∀ x ∈ xs, x.origin = none → Frame.hasPingMarks x.message.wire = true) ∧
      (∀ x ∈ xs, ∀ d k, x.origin = some (d, k) → x.message.wire ∈ s.history.verified d) ∧
      (∀ d, (Relay.framesFrom d xs).Sublist (s.history.received d) ∧ ∀ b' c', wiring d = some (b', c') →
        (Relay.framesFrom d xs).Sublist (((s.log b').transcript.attempts c').map Attempt.whole)) ∧
      ((installation C format).ReachWhen SparesPings s → ∀ x ∈ xs, x.origin = none →
        IsPingFrame C x.message.wire ∧ Frame.deliver C Board.network x.message.wire = none) ∧
      ((installation C format).ReachWhen SparesChecks s → ∀ x ∈ xs, x.origin ≠ none →
        Frame.isAuthentic C x.message.wire = true) := by
  have hserver : (Relay.observed C).ReachWhen Relay.StaysCut (s.server, s.history) :=
    server_reach (fun s a hg => hg.2) h
  have hG : ∀ (s : Installation V) a, InOrder C format wiring s a → Transport C wiring s a := fun s a hg => hg.1
  obtain ⟨xs, hframes, hqueued⟩ := frames_relayed hG (fun s a hg => hg.2) h b c
  have hmem : ∀ x ∈ xs, ∃ r, x ∈ s.history.appended r := fun x hx => mem_appended hqueued hx
  have hfrom : ∀ d, (Relay.framesFrom d xs).Sublist (s.history.received d) := by
    intro d
    rcases hqueued with rfl | ⟨r, -, hsub⟩
    · exact List.nil_sublist _
    · exact ((hsub.filter _).map _).trans (Relay.queued_in_order hserver d r)
  have hverified : ∀ x ∈ xs, ∀ d k, x.origin = some (d, k) → x.message.wire ∈ s.history.verified d := by
    intro x hx d k ho
    obtain ⟨r, hr⟩ := hmem x hx
    exact ((Relay.Provenance.reach hserver).appended r x d k hr ho).1.mem
  refine ⟨xs, hframes, hqueued, fun x hx ho => ?_, hverified, fun d => ⟨hfrom d, fun b' c' hw => ?_⟩,
    fun hspares x hx ho => ?_, fun hspares x hx ho => ?_⟩
  · obtain ⟨r, hr⟩ := hmem x hx
    obtain ⟨stack, digest, heq⟩ := Relay.appended_ping hserver hr ho
    rw [heq]
    exact Relay.signPing_marks digest stack
  · exact (hfrom d).trans (received_sent hG (fun s b e hg => hg.2) h hw)
  · obtain ⟨r, hr⟩ := hmem x hx
    exact ping_not_delivered hspares hr ho
  · obtain ⟨⟨d, k⟩, hd⟩ := Option.ne_none_iff_exists'.1 ho
    exact verified_authentic hspares d _ (hverified x hx d k hd)

/-- One board has dialled the server, on its first connection. -/
def oneBoard (d : ℕ) : Option (ℕ × ℕ) := if d = 0 then some (0, 1) else none

def zeroes : Reading ℕ → String := fun _ => "0"

/-- A stricter condition than `InOrder`, that can be checked. -/
def Checked (s : Installation ℕ) : Action ℕ → Bool
  | .server (.receiver d e) =>
    match e.read with
    | none => true
    | some bytes => d ≠ 0 ∨ (s.history.received d).flatten ++ (Relay.recvd bytes).wire <+: s.writtenBy 0 1
  | .server (.sender d _) => ∀ x ∈ s.history.passed d, ¬ Relay.CutOff x
  | .server _ => true
  | .board b e =>
    b = 0 ∧ (((s.board b).iterEnv zeroes e).report.all fun call =>
        ∀ x ∈ ((s.log b).transcript.record .zero (s.board b).networkHandler (.loop e.network)).sent
          (((s.board b).atReport .zero e).hands .zero (.send call)).1, ¬ CutOff x) ∧
      (∀ x ∈ (s.log b).transcript.sent ((s.board b).networkHandler.hands .zero (.loop e.network)).1, ¬ CutOff x) ∧
      (e.network.arrived = [] ∨ (kept .zero (s.board b) e).client.connection = 1 ∧
        (s.log b).history.read 1 ++ (kept .zero (s.board b) e).client.incoming ++ e.network.arrived <+: s.history.outgoing 0)

theorem Checked.inOrder {s : Installation ℕ} {a : Action ℕ} (h : Checked s a = true) :
    InOrder .zero zeroes oneBoard s a := by
  cases a with
  | server a =>
    cases a with
    | receiver d e =>
      refine ⟨fun _ bytes hread b c hw => ?_, nofun⟩
      unfold oneBoard at hw
      split at hw
      · rename_i hd
        cases hw
        simp only [Checked, hread, decide_eq_true_eq] at h
        exact h.resolve_left fun hne => hne hd
      · cases hw
    | sender d e =>
      refine ⟨trivial, fun d' e' i ha _ _ ⟨x, hx, hcut⟩ => ?_⟩
      cases ha
      exact absurd hcut (of_decide_eq_true h x hx)
    | accept fd => exact ⟨trivial, nofun⟩
    | create launched networkId last => exact ⟨trivial, nofun⟩
    | handler d e => exact ⟨trivial, nofun⟩
    | wake d => exact ⟨trivial, nofun⟩
  | board b e =>
    obtain ⟨rfl, hreport, hpoke, harr⟩ := of_decide_eq_true h
    refine ⟨?_, ?_, ?_⟩
    · rcases harr with hnone | ⟨hconn, hpre⟩
      · exact Or.inl hnone
      · exact Or.inr ⟨0, by rw [hconn]; rfl, by rw [hconn]; exact hpre⟩
    · rintro ⟨x, hx, hcut⟩
      exact absurd hcut (hpoke x hx)
    · rintro call hcall ⟨x, hx, hcut⟩
      rw [hcall] at hreport
      exact absurd hcut (of_decide_eq_true hreport x hx)

/-- An order for server 0, as a client sends it. -/
def orderFrame : Packed := fun i => if i = 8 then 1 else if i = 40 then 0x50 else if i = 48 then 0x30 else 0

/-- An iteration at the time `t`. -/
def networkAt (t : ℕ) (connected : Bool) (arrived : List UInt8) : Board.Env ℕ :=
  { Board.Env.at t [] with network := { LoopEnv.at connected (millis t) fun _ => true with arrived := arrived } }

/-- The board connects and pokes the server; a client orders, and the order is relayed. -/
def orderRelayed : List (Action ℕ) :=
  [.board 0 (networkAt 2000 false []), .board 0 (networkAt 7100 true [])] ++
  (List.flatten [[.accept 4, .create true 0 0], .replicate 3 (.handler 0 {}), .replicate 3 (.sender 0 {}),
    .replicate 3 (.receiver 0 {}),
    [.receiver 0 { read := some (NetworkSender.buildMessage .zero Board.network (fun _ => 0) 0x00 [] 0) }],
    .replicate 9 (.receiver 0 {}), [.accept 5, .create true 0 0], .replicate 3 (.handler 1 {}),
    .replicate 3 (.receiver 1 {}), [.receiver 1 { read := some orderFrame }], .replicate 10 (.receiver 1 {}),
    [.receiver 1 { pick := 0 }, .receiver 1 { pick := 1 }], .replicate 6 (.receiver 1 {}),
    [.sender 0 {}, .sender 0 { results := [some 49] }]]).map .server ++
  [.board 0 (networkAt 7200 true (Relay.recvd orderFrame).wire)]

def start : Installation ℕ := ⟨Relay.Server.fresh, .empty, fun _ => Board.setup Board.boot, fun _ => .empty⟩

/-- What the run meets: nobody continues after a cut, and no digest is disturbed. -/
def Undisturbed (s : Installation ℕ) (a : Action ℕ) : Prop :=
  InOrder .zero zeroes oneBoard s a ∧ SparesPings s a ∧ SparesChecks s a

theorem reach_orderRelayed : ∃ s, (installation Crypto.zero zeroes).ReachWhen Undisturbed s ∧
    (s.log 0).history.frames = [(1, (Relay.recvd orderFrame).wire)] ∧
    Board.orderedBy .zero 0 (Relay.recvd orderFrame).wire = 1 := by
  have hstart : start.Starts := ⟨Relay.Server.fresh_starts, rfl, fun _ => ⟨Board.boot, rfl⟩, rfl⟩
  have hrun : ((installation Crypto.zero zeroes).runWhen
      (fun s a => Checked s a = true ∧ SparesPings s a ∧ SparesChecks s a) start orderRelayed).any
      (fun s => (s.log 0).history.frames = [(1, (Relay.recvd orderFrame).wire)] ∧
        Board.orderedBy .zero 0 (Relay.recvd orderFrame).wire = 1) = true := by decide +kernel
  obtain ⟨s, hr, hs⟩ := Runs.Machine.exists_reachWhen hstart hrun
  exact ⟨s, hr.mono fun _ _ hg => ⟨Checked.inOrder hg.1, hg.2⟩, of_decide_eq_true hs⟩

/-- The frame that the board got is authentic, and one that the server received from the client. -/
theorem relayed_in_order_orderRelayed : ∃ s,
    (installation Crypto.zero zeroes).ReachWhen (InOrder .zero zeroes oneBoard) s ∧
    ∃ xs : List Relay.Entry, xs.map (fun x => x.message.wire) = [(Relay.recvd orderFrame).wire] ∧
      (∀ d, (Relay.framesFrom d xs).Sublist (s.history.received d)) ∧
      ∀ x ∈ xs, x.origin ≠ none → Frame.isAuthentic .zero x.message.wire = true := by
  obtain ⟨s, hr, hframes, -⟩ := reach_orderRelayed
  have hin : (installation Crypto.zero zeroes).ReachWhen (InOrder .zero zeroes oneBoard) s :=
    hr.mono fun _ _ hg => hg.1
  obtain ⟨xs, heq, -, -, -, hfrom, -, hauth⟩ := relayed_in_order .zero zeroes oneBoard hin 0 1
  refine ⟨s, hin, xs, ?_, fun d => (hfrom d).1, hauth (hr.mono fun _ _ hg => hg.2.2)⟩
  rw [← heq, History.framesOn, hframes]
  rfl

/-! ## Orders -/

/-- What the sketch hands over orders nothing. -/
theorem orderedBy_sketchCall {call : Packed × Link} (h : SketchCall C call) (i : ℕ) :
    Board.orderedBy C i (attempt call).whole = 0 := by
  obtain ⟨info, stack, t, payload, n, hsame, ht, hn, hcall⟩ := h
  have hsealed := buildMessage_sealed C info stack t hn
  rw [← hcall] at hsealed
  have hwhole : (attempt call).whole = slice call.1 0 (48 + payload.length) := by
    show slice call.1 0 (messageLength call.1) = _
    rw [messageLength, hsealed.length, Nat.add_comm]
    rfl
  unfold Board.orderedBy Frame.deliver
  rw [hwhole, hsealed.message C hsame.networkKey.symm]
  split
  · rfl
  · split
    · -- neither type is that of an order
      show Message.closings i (sentMessage t payload) = 0
      unfold Message.closings
      rcases ht with rfl | rfl <;> split <;> rfl
    · rfl

/-- All that a board has handed over is of this kind. -/
theorem sketchCalls {b : Board V} {L : Board.Log} (h : (logged C format).Reach (b, L)) :
    ∀ c, ∀ call ∈ L.transcript.sent c, SketchCall C call := by
  have hall : ∀ p, (logged C format).Reach p → ∀ c, ∀ call ∈ p.2.transcript.sent c, SketchCall C call := by
    intro p hp
    refine hp.induct (I := fun p => ∀ c, ∀ call ∈ p.2.transcript.sent c, SketchCall C call) ?_
      fun p e p' hr hi _ hs => ?_
    · rintro p ⟨-, hlog⟩ c call hcall
      rw [hlog] at hcall
      cases hcall
    · obtain ⟨-, hrecord⟩ := Runs.Machine.recording_step hs
      rw [hrecord]
      exact transcribe_sketchCall (Board.Accounted.reach hr) e hi
  exact hall (b, L) h

/-- A frame that orders was received from a client that is not a board, and passed the check. -/
theorem ordered_by_client
    (h : (installation C format).ReachWhen (fun s a => InOrder C format wiring s a ∧ SparesPings s a) s) {b c i : ℕ}
    {f : List UInt8} (hf : (c, f) ∈ (s.log b).history.frames) (hne : Board.orderedBy C i f ≠ 0) :
    ∃ d, wiring d = none ∧ f ∈ s.history.received d ∧ f ∈ s.history.verified d := by
  have hserver : (Relay.observed C).Reach (s.server, s.history) := server_reach (fun _ _ _ => trivial) h
  have hG : ∀ (s : Installation V) a, InOrder C format wiring s a ∧ SparesPings s a → Transport C wiring s a :=
    fun s a hg => hg.1.1
  obtain ⟨xs, hframes, hqueued⟩ := frames_relayed hG (fun s a hg => hg.1.2) h b c
  have hon : f ∈ (s.log b).history.framesOn c :=
    List.mem_map.2 ⟨(c, f), List.mem_filter.2 ⟨hf, decide_eq_true rfl⟩, rfl⟩
  rw [hframes] at hon
  obtain ⟨x, hx, rfl⟩ := List.mem_map.1 hon
  obtain ⟨r, hr⟩ := mem_appended hqueued hx
  cases ho : x.origin with
  | none =>
    -- the server's own pings order nothing
    refine absurd ?_ hne
    unfold Board.orderedBy
    rw [(ping_not_delivered (h.mono fun _ _ hg => hg.2) hr ho).2]
    rfl
  | some o =>
    have hprov := Relay.Provenance.reach hserver
    obtain ⟨hverified, -⟩ := hprov.appended r x o.1 o.2 hr ho
    obtain ⟨hreceived, -⟩ := hprov.verified o.1 _ hverified.mem
    refine ⟨o.1, Option.eq_none_iff_forall_ne_some.2 fun p hw => ?_, hreceived, hverified.mem⟩
    -- nor does what a board hands over
    have hsent := received_sent hG (fun s b e hg => hg.1.2) h hw
    obtain ⟨y, hy, heq⟩ := List.mem_map.1 (hsent.subset hreceived)
    obtain ⟨call, hcall, rfl⟩ := List.mem_map.1 hy
    have hboard : (logged C format).Reach (s.board p.1, s.log p.1) := board_reach (fun _ _ _ => trivial) h
    rw [← heq] at hne
    exact hne (orderedBy_sketchCall (sketchCalls hboard p.2 call hcall) i)

/-- **Only clients order.** In every such run in which also no thread of the server calls `HMAC` while a
handler has still to sign its ping, and for each server of each board: a frame that the board read and that
orders the relay was received by the relay server on a connection that is not a board's, and passed its
check there; it is authentic if no check was disturbed either. As long as no such client has sent an order,
the relay is closed at most as often as its button is pressed, and opened at most as often. -/
theorem orders_from_clients (C : Crypto) (format : Reading V → String) (wiring : ℕ → Option (ℕ × ℕ))
    (h : (installation C format).ReachWhen (fun s a => InOrder C format wiring s a ∧ SparesPings s a) s) (b : ℕ)
    {i : ℕ} (hi : i < 3) :
    let writes := (s.board b).serverHandler.pins.written (Wiring.main.relayPin i)
    (∀ c f, (c, f) ∈ (s.log b).history.frames → Board.orderedBy C i f ≠ 0 →
      ∃ d, wiring d = none ∧ f ∈ s.history.received d ∧ f ∈ s.history.verified d ∧
        ((installation C format).ReachWhen SparesChecks s → Frame.isAuthentic C f = true)) ∧
      ((∀ d, wiring d = none → ∀ f ∈ s.history.received d, Board.orderedBy C i f = 0) →
        writes.count .low ≤ (s.log b).pressed i ∧ writes.count .high ≤ (s.log b).pressed i) := by
  intro writes
  refine ⟨fun c f hf hne => ?_, fun hnone => ?_⟩
  · obtain ⟨d, hw, hreceived, hverified⟩ := ordered_by_client h hf hne
    exact ⟨d, hw, hreceived, hverified, fun hspares => verified_authentic hspares d f hverified⟩
  · have hzero : (s.log b).ordered C i = 0 := by
      refine Board.ordered_eq_zero fun p hp => ?_
      by_contra hne
      obtain ⟨d, hw, hmem, -⟩ := ordered_by_client h hp hne
      exact hne (hnone d hw p.2 hmem)
    have hbounds := (accounted h b).bounds hi
    rw [hzero] at hbounds
    exact hbounds

theorem orders_from_clients_orderRelayed : ∃ s,
    (installation Crypto.zero zeroes).ReachWhen (fun s a => InOrder .zero zeroes oneBoard s a ∧ SparesPings s a) s ∧
    ∃ d, oneBoard d = none ∧ (Relay.recvd orderFrame).wire ∈ s.history.received d ∧
      Frame.isAuthentic .zero (Relay.recvd orderFrame).wire = true := by
  obtain ⟨s, hr, hframes, horder⟩ := reach_orderRelayed
  have hmem : (1, (Relay.recvd orderFrame).wire) ∈ (s.log 0).history.frames := by
    rw [hframes]
    exact List.mem_singleton_self _
  have hin : (installation Crypto.zero zeroes).ReachWhen
      (fun s a => InOrder .zero zeroes oneBoard s a ∧ SparesPings s a) s := hr.mono fun _ _ hg => ⟨hg.1, hg.2.1⟩
  obtain ⟨horders, -⟩ := orders_from_clients .zero zeroes oneBoard hin 0 (i := 0) (by decide)
  obtain ⟨d, hw, hrecv, -, hauth⟩ := horders 1 _ hmem (by omega)
  exact ⟨s, hin, d, hw, hrecv, hauth (hr.mono fun _ _ hg => hg.2.2)⟩

end Installation

end ServerRoom
