import ServerRoom.Proof.Outgoing
import ServerRoom.Proof.Reports

/-!
# The installation

The relay server and any number of boards, with the TCP connections between them. The programs
take their steps in any order; `Transport` is what TCP promises: a connection carries bytes from
one end to the other in order, each once, and it may keep them back or lose its last ones.
`wiring d` is the connection of a board whose other end is connection `d` of the server, or
`none` if that is another client, which may send what it wants.

What has arrived at a board and is not read yet is lost when the board connects anew.

* `Carried`: what was read at one end is a prefix of what was written at the other; every step
  that respects the transport keeps this (`Carried.step`).
* `server_reach`, `board_reach`: the server and each board run as they do alone.
-/

namespace ServerRoom

open Framing NetworkHandler

variable {V : Type}

/-- The server with what was observed of it, and the boards with their logs. -/
structure Installation (V : Type) where
  server : Relay.Server
  history : Relay.History
  board : ℕ → Board V
  log : ℕ → Board.Log

namespace Installation

/-- A step of the server, or an iteration of a board. -/
inductive Action (V : Type)
  | server (a : Relay.Action)
  | board (b : ℕ) (e : Board.Env V)

/-- The board before the receiver reads: the connection is kept. -/
def kept (C : Crypto) (b : Board V) (e : Board.Env V) : NetworkInfo :=
  NetworkConnection.keepConnected C e.network b.networkHandler.info

/-- **What TCP promises.** A frame that the server reads comes next in what its peer wrote; the
bytes that arrive at a board come next in what the server wrote to it. -/
def Transport (C : Crypto) (wiring : ℕ → Option (ℕ × ℕ)) (s : Installation V) : Action V → Prop
  | .server (.receiver d e) => s.server.receiver d = .read → ∀ bytes, e.read = some bytes →
      ∀ b c, wiring d = some (b, c) →
        (s.history.received d).flatten ++ (Relay.recvd bytes).wire <+: written ((s.log b).transcript.attempts c)
  | .server _ => True
  | .board b e =>
      e.network.arrived = [] ∨ ∃ d, wiring d = some (b, (kept C (s.board b) e).client.connection) ∧
        (s.log b).history.read (kept C (s.board b) e).client.connection ++ (kept C (s.board b) e).client.incoming ++
          e.network.arrived <+: s.history.outgoing d

def step [Zero V] (C : Crypto) (format : Reading V → String) (s : Installation V) : Action V → Option (Installation V)
  | .server a =>
    ((Relay.observed C).step (s.server, s.history) a).map fun p => { s with server := p.1, history := p.2 }
  | .board b e =>
    ((logged C format).step (s.board b, s.log b) e).map fun p =>
      { s with board := Function.update s.board b p.1, log := Function.update s.log b p.2 }

/-- Every program starts. -/
structure Starts [Zero V] (s : Installation V) : Prop where
  server : s.server.Starts
  history : s.history = .empty
  board : ∀ b, (s.board b).Starts
  log : s.log = fun _ => .empty

end Installation

/-- **The installation as a machine.** -/
def installation [Zero V] (C : Crypto) (format : Reading V → String) :
    Runs.Machine (Installation V) (Installation.Action V) :=
  ⟨Installation.Starts, Installation.step C format⟩

/-! ## What a board has got -/

section Board

variable {C : Crypto} {format : Reading V → String} {h : NetworkHandler}

/-- Sending reads nothing. -/
theorem send_incoming (info : NetworkInfo) (stack : Packed) (link : Link) (t : UInt8) (payload : List UInt8) (n : UInt8) :
    (NetworkSender.send C info stack link t payload n).2.client.incoming = info.client.incoming := by
  unfold NetworkSender.send NetworkSender.ethernetSendMessage
  dsimp only
  split
  · rfl
  · split <;> rfl

/-- Keeping the connection leaves what has arrived, or the connection is a new one. -/
theorem keepConnected_incoming (C : Crypto) (e : LoopEnv) (info : NetworkInfo) :
    (NetworkConnection.keepConnected C e info).client.connection = info.client.connection ∧
        (NetworkConnection.keepConnected C e info).client.incoming = info.client.incoming ∨
      info.client.connection < (NetworkConnection.keepConnected C e info).client.connection ∧
        (NetworkConnection.keepConnected C e info).client.incoming = [] := by
  have hbefore : (NetworkConnection.beforePoke e info).client.connection = info.client.connection ∧
      (NetworkConnection.beforePoke e info).client.incoming = info.client.incoming ∨
      info.client.connection < (NetworkConnection.beforePoke e info).client.connection ∧
        (NetworkConnection.beforePoke e info).client.incoming = [] := by
    unfold NetworkConnection.beforePoke NetworkConnection.keepConnection NetworkConnection.closeAndConnect
    dsimp only
    split <;> split
    · exact Or.inr ⟨by simp only; omega, rfl⟩
    · exact Or.inr ⟨Nat.lt_succ_self _, rfl⟩
    · exact Or.inr ⟨Nat.lt_succ_self _, rfl⟩
    · exact Or.inl ⟨rfl, rfl⟩
  rw [keepConnected_eq]
  generalize NetworkConnection.beforePoke e info = i at hbefore
  split
  · have hin := send_incoming (C := C) i e.stack e.link 0x00 [] 0
    obtain ⟨-, hconn⟩ := send_eq (C := C) i e.stack e.link 0x00 [] 0
    split <;> rename_i heq <;> rw [heq] at hin hconn
    · dsimp only at hin hconn ⊢
      rw [hin, hconn]
      exact hbefore
    · -- the poke has failed: the client connects anew
      refine Or.inr ⟨?_, rfl⟩
      dsimp only at hconn
      show _ < _ + 1
      rw [hconn]
      rcases hbefore with ⟨hc, -⟩ | ⟨hc, -⟩ <;> omega
  · exact hbefore

/-- What has arrived at a board on connection `c`, read or not. -/
def arrived (h : NetworkHandler) (H : History) (c : ℕ) : List UInt8 :=
  H.read c ++ if c = h.info.client.connection then h.info.client.incoming else []

/-- **What has arrived after an iteration.** On the connection that is kept it is what had
arrived, and what arrives now; on the others it is not more than before. -/
theorem arrived_iterate {info₀ : NetworkInfo} {H : History} (hok : StreamOk C info₀ h H) (e : IterEnv) (c : ℕ) :
    let info := NetworkConnection.keepConnected C e.toLoopEnv h.info
    arrived (h.iterate C e).1 (H.record C h e) c =
      if c = info.client.connection then H.read c ++ info.client.incoming ++ e.arrived else H.read c := by
  intro info
  obtain ⟨-, hconn, -⟩ := iterate_spec C hok e
  obtain ⟨-, -, hcons, -⟩ := loop_spec C (ready C e.toLoopEnv h) (e.millis 8) hok.idle
  have hready : (ready C e.toLoopEnv h).client.connection = info.client.connection := rfl
  have hbytes : (ready C e.toLoopEnv h).client.incoming = info.client.incoming ++ e.arrived := rfl
  have hrest : (h.iterate C e).1.info.client.incoming =
      (NetworkReceiver.loop C (e.millis 8) h.receiver (ready C e.toLoopEnv h)).2.1.client.incoming := by
    rw [iterate_eq, (drain_spec _).1]
    unfold beforeDrain
    split
    · rfl
    · exact send_incoming _ _ _ _ _ _
  rw [hready] at hconn
  unfold arrived History.record
  simp only [Function.update_apply, hconn, hready]
  split
  · rename_i hc
    rw [hrest, hc, List.append_assoc, ← hcons, hbytes, List.append_assoc]
  · rw [List.append_nil]

/-! ## What a board has written -/

theorem record_attempts (T : Transcript) (h : NetworkHandler) (a : Call) (c : ℕ) :
    (T.record C h a).attempts c = T.attempts c ++ if c = (h.hands C a).1 then (h.hands C a).2.map attempt else [] := by
  unfold Transcript.attempts
  rw [record_sent]
  split
  · rw [List.map_append]
  · rw [List.append_nil]

/-- What is written stays written. -/
theorem written_transcribe (T : Transcript) (h : NetworkHandler) (e : IterEnv) (c : ℕ) :
    written (T.attempts c) <+: written ((Board.transcribe C T h e).attempts c) := by
  have hrecord : ∀ (T : Transcript) h a, written (T.attempts c) <+: written ((T.record C h a).attempts c) := by
    intro T h a
    rw [record_attempts]
    unfold written
    rw [List.flatMap_append]
    exact List.prefix_append _ _
  unfold Board.transcribe
  dsimp only
  split
  · exact hrecord T h _
  · exact (hrecord T h _).trans (hrecord _ _ _)

/-- A message that the sketch hands over: a poke or a report, with the board's identifier and keys. -/
def SketchCall (C : Crypto) (call : Packed × Link) : Prop :=
  ∃ info stack t payload n, SameNetwork Board.network info ∧ (t = 0x00 ∨ t = 0x20) ∧ n.toNat = payload.length ∧
    call.1 = NetworkSender.buildMessage C info stack t payload n

/-- Only the first `n` bytes of the payload matter. -/
theorem buildMessage_take (info : NetworkInfo) (stack : Packed) (t : UInt8) (payload : List UInt8) (n : UInt8) :
    NetworkSender.buildMessage C info stack t (payload.take n.toNat) n =
      NetworkSender.buildMessage C info stack t payload n := by
  unfold NetworkSender.buildMessage NetworkSender.generateMessage
  rw [List.take_take, Nat.min_self]

theorem beforePoke_network {info₀ info : NetworkInfo} (h : SameNetwork info₀ info) (e : LoopEnv) :
    SameNetwork info₀ (NetworkConnection.beforePoke e info) := by
  unfold NetworkConnection.beforePoke NetworkConnection.keepConnection NetworkConnection.closeAndConnect
  dsimp only
  split <;> split <;> exact ⟨h.networkId, h.serverKey, h.networkKey⟩

/-- **A board hands over pokes and reports only.** -/
theorem transcribe_sketchCall {b : Board V} {L : Board.Log} (hacc : Board.Accounted C b L) (e : Board.Env V)
    (hown : ∀ c, ∀ call ∈ L.transcript.sent c, SketchCall C call) (c : ℕ) :
    ∀ call ∈ (Board.transcribe C L.transcript b.networkHandler (b.iterEnv format e)).sent c, SketchCall C call := by
  have hloop : ∀ c, ∀ call ∈ (L.transcript.record C b.networkHandler (.loop e.network)).sent c, SketchCall C call := by
    intro c call hcall
    rw [record_sent] at hcall
    split at hcall
    · rcases List.mem_append.1 hcall with hcall | hcall
      · exact hown c call hcall
      · simp only [hands] at hcall
        split at hcall
        · rw [NetworkSender.handed, if_neg (by decide)] at hcall
          rw [List.mem_singleton.1 hcall]
          exact ⟨_, _, _, _, _, beforePoke_network hacc.stream.same e.network, Or.inl rfl, rfl, rfl⟩
        · cases hcall
    · exact hown c call hcall
  unfold Board.transcribe
  dsimp only
  cases hrep : (b.iterEnv format e).report with
  | none => exact hloop c
  | some call₀ =>
    obtain ⟨payload, -, rfl⟩ := Option.map_eq_some_iff.1 hrep
    intro call hcall
    dsimp only at hcall
    rw [record_sent] at hcall
    split at hcall
    · rcases List.mem_append.1 hcall with hcall | hcall
      · exact hloop c call hcall
      · have hsame := Board.atReport_network hacc e
        simp only [hands, Board.sendCall] at hcall
        unfold NetworkSender.handed at hcall
        split at hcall
        · cases hcall
        · rw [List.mem_singleton.1 hcall]
          -- the length of the payload is cut to 8 bits, and so is the payload
          let n := UInt8.ofNat (stringBytes payload).length
          refine ⟨(b.atReport C e).info, e.stack, 0x20, (stringBytes payload).take n.toNat, n, hsame, Or.inr rfl, ?_,
            (buildMessage_take (b.atReport C e).info e.stack 0x20 (stringBytes payload) n).symm⟩
          rw [List.length_take, UInt8.toNat_ofNat']
          exact (Nat.min_eq_left (Nat.mod_le _ _)).symm
    · exact hloop c call hcall

/-- **Nothing is taken after a cut**, of the poke and of the report of an iteration. -/
def Board.Uncut (C : Crypto) (format : Reading V → String) (p : Board V × Board.Log) (e : Board.Env V) : Prop :=
  StaysCut C (p.1.networkHandler, p.2.transcript) (.loop e.network) ∧
    ∀ call, (p.1.iterEnv format e).report = some call →
      StaysCut C (p.1.atReport C e, p.2.transcript.record C p.1.networkHandler (.loop e.network)) (.send call)

theorem transcribe_inStep {b : Board V} {L : Board.Log} {e : Board.Env V} (hg : Board.Uncut C format (b, L) e)
    (hin : ∀ c, InStep (L.transcript.attempts c)) (c : ℕ) :
    InStep ((Board.transcribe C L.transcript b.networkHandler (b.iterEnv format e)).attempts c) := by
  obtain ⟨hloop, hsend⟩ := hg
  have hin' := inStep_record.2 ⟨hin, hloop⟩
  unfold Board.transcribe
  dsimp only
  cases hrep : (b.iterEnv format e).report with
  | none => exact hin' c
  | some call => exact inStep_record.2 ⟨hin', hsend call hrep⟩ c

end Board

/-! ## What is carried -/

namespace Installation

variable {C : Crypto} {format : Reading V → String} {wiring : ℕ → Option (ℕ × ℕ)} {s s' : Installation V}
  {G : Installation V → Action V → Prop}

/-- What the server wrote stays written. -/
theorem outgoing_after (H : Relay.History) (ev : Option Relay.Event) (d : ℕ) :
    H.outgoing d <+: (H.after ev).outgoing d := by
  unfold Relay.History.outgoing
  rw [Relay.History.after_passed, List.flatMap_append]
  exact List.prefix_append _ _

/-- What arrived at board `b` on connection `c`. -/
def arrivedAt (s : Installation V) (b c : ℕ) : List UInt8 := arrived (s.board b).networkHandler (s.log b).history c

/-- What board `b` wrote on connection `c`. -/
def writtenBy (s : Installation V) (b c : ℕ) : List UInt8 := written ((s.log b).transcript.attempts c)

/-- **Both directions are carried in order.** -/
structure Carried (wiring : ℕ → Option (ℕ × ℕ)) (s : Installation V) : Prop where
  toBoard : ∀ b c, s.arrivedAt b c = [] ∨ ∃ d, wiring d = some (b, c) ∧ s.arrivedAt b c <+: s.history.outgoing d
  toServer : ∀ d b c, wiring d = some (b, c) → (s.history.received d).flatten <+: s.writtenBy b c

/-- **What a step receives**: nothing, or the frame that the receiver reads. -/
theorem newReceived_cases (s : Relay.Server) (a : Relay.Action) (d : ℕ) :
    Relay.Event.newReceived d (s.event a) = [] ∨ ∃ e bytes, a = .receiver d e ∧ s.receiver d = .read ∧
      e.read = some bytes ∧ Relay.Event.newReceived d (s.event a) = [(Relay.recvd bytes).wire] := by
  cases a with
  | accept fd => exact Or.inl rfl
  | create launched networkId last => exact Or.inl rfl
  | wake x => exact Or.inl rfl
  | handler x e =>
    simp only [Relay.Server.event]
    cases s.handler x <;> exact Or.inl rfl
  | sender x e =>
    simp only [Relay.Server.event]
    cases s.sender x with
    | drain i =>
      left
      show Relay.Event.newReceived d (((s.device x).sendingBuffer[i]?).map _) = []
      cases (s.device x).sendingBuffer[i]? <;> rfl
    | _ => exact Or.inl rfl
  | receiver x e =>
    simp only [Relay.Server.event]
    cases hp : s.receiver x with
    | read =>
      cases hread : e.read with
      | none => exact Or.inl (by simp [Relay.ReceiverPc.event, hread, Relay.Event.newReceived])
      | some bytes =>
        by_cases hxd : x = d
        · subst hxd
          exact Or.inr ⟨e, bytes, rfl, hp, hread, by simp [Relay.ReceiverPc.event, hread, Relay.Event.newReceived]⟩
        · exact Or.inl (by simp [Relay.ReceiverPc.event, hread, Relay.Event.newReceived, hxd])
    | compare m =>
      left
      simp only [Relay.ReceiverPc.event]
      split <;> rfl
    | dispatch m =>
      left
      simp only [Relay.ReceiverPc.event]
      split <;> rfl
    | castNext m rest => cases rest <;> exact Or.inl rfl
    | _ => exact Or.inl rfl

/-- A frame that a receiver reads comes next in what its peer wrote. -/
theorem received_prefix {a : Relay.Action} (h : Carried wiring s) (hg : Transport C wiring s (.server a)) {d b c : ℕ}
    (hw : wiring d = some (b, c)) :
    ((s.history.after (s.server.event a)).received d).flatten <+: s.writtenBy b c := by
  rw [Relay.History.after_received]
  rcases newReceived_cases s.server a d with hnew | ⟨e, bytes, rfl, hp, hread, hnew⟩ <;> rw [hnew]
  · rw [List.append_nil]
    exact h.toServer d b c hw
  · have hnext := hg hp bytes hread b c hw
    rw [List.flatten_append, List.flatten_singleton]
    exact hnext

/-- **What has arrived after an iteration** is what the server wrote, in its order. -/
theorem arrived_prefix {b c : ℕ} {e : Board.Env V} (h : Carried wiring s) (hacc : Board.Accounted C (s.board b) (s.log b))
    (hg : Transport C wiring s (.board b e)) :
    arrived ((s.board b).loop C format e).1.networkHandler ((s.log b).record C format (s.board b) e).history c = [] ∨
      ∃ d, wiring d = some (b, c) ∧
        arrived ((s.board b).loop C format e).1.networkHandler ((s.log b).record C format (s.board b) e).history c <+:
          s.history.outgoing d := by
  have hold := h.toBoard b c
  have hkept := keepConnected_incoming C e.network (s.board b).networkHandler.info
  change (kept C (s.board b) e).client.connection = _ ∧ (kept C (s.board b) e).client.incoming = _ ∨
    _ < (kept C (s.board b) e).client.connection ∧ (kept C (s.board b) e).client.incoming = _ at hkept
  have hnow : arrived ((s.board b).loop C format e).1.networkHandler
      ((s.log b).record C format (s.board b) e).history c =
      if c = (kept C (s.board b) e).client.connection then
        (s.log b).history.read c ++ (kept C (s.board b) e).client.incoming ++ e.network.arrived
      else (s.log b).history.read c := by
    rw [(Board.loop_networkHandler C format (s.board b) e).1]
    exact arrived_iterate hacc.stream ((s.board b).iterEnv format e) c
  -- what is not read anew is a prefix of what had arrived
  have hkeep : ∀ l, l <+: s.arrivedAt b c → l = [] ∨ ∃ d, wiring d = some (b, c) ∧ l <+: s.history.outgoing d := by
    intro l hl
    rcases hold with hnil | ⟨d, hd, hpre⟩
    · rw [hnil] at hl
      exact Or.inl (List.prefix_nil.1 hl)
    · exact Or.inr ⟨d, hd, hl.trans hpre⟩
  rw [hnow]
  split
  · rename_i hc
    change e.network.arrived = [] ∨ ∃ d, _ ∧ _ at hg
    rw [← hc] at hkept hg
    rcases hg with hnone | hsome
    · rw [hnone, List.append_nil]
      rcases hkept with ⟨hconn, hin⟩ | ⟨hlt, hin⟩
      · have hsame : (s.log b).history.read c ++ (kept C (s.board b) e).client.incoming = s.arrivedAt b c := by
          unfold arrivedAt arrived
          rw [if_pos hconn, hin]
        exact hkeep _ ⟨[], by rw [hsame, List.append_nil]⟩
      · obtain ⟨hread, -⟩ := hacc.stream.future _ hlt
        exact Or.inl (by rw [hread, hin]; rfl)
    · exact Or.inr hsome
  · exact hkeep _ (List.prefix_append _ _)

/-! ## Runs -/

variable [Zero V]

theorem server_step {a : Relay.Action} (hs : (installation C format).step s (.server a) = some s') :
    ∃ p, (Relay.observed C).step (s.server, s.history) a = some p ∧ s' = { s with server := p.1, history := p.2 } := by
  have hmap : ((Relay.observed C).step (s.server, s.history) a).map (fun p =>
      { s with server := p.1, history := p.2 }) = some s' := hs
  obtain ⟨p, hp, rfl⟩ := Option.map_eq_some_iff.1 hmap
  exact ⟨p, hp, rfl⟩

theorem board_step {b : ℕ} {e : Board.Env V} (hs : (installation C format).step s (.board b e) = some s') :
    ∃ p, (logged C format).step (s.board b, s.log b) e = some p ∧
      s' = { s with board := Function.update s.board b p.1, log := Function.update s.log b p.2 } := by
  have hmap : ((logged C format).step (s.board b, s.log b) e).map (fun p =>
      { s with board := Function.update s.board b p.1, log := Function.update s.log b p.2 }) = some s' := hs
  obtain ⟨p, hp, rfl⟩ := Option.map_eq_some_iff.1 hmap
  exact ⟨p, hp, rfl⟩

/-- **The server runs as it does alone.** -/
theorem server_reach {G' : Relay.Server × Relay.History → Relay.Action → Prop}
    (hG : ∀ s a, G s (.server a) → G' (s.server, s.history) a) (h : (installation C format).ReachWhen G s) :
    (Relay.observed C).ReachWhen G' (s.server, s.history) := by
  have hstart : ∀ s : Installation V, s.Starts → (Relay.observed C).ReachWhen G' (s.server, s.history) :=
    fun s hs => .init ⟨hs.server, hs.history⟩
  refine h.induct (I := fun s => (Relay.observed C).ReachWhen G' (s.server, s.history)) hstart
    fun s a s' _ ih hg hs => ?_
  cases a with
  | server a =>
    obtain ⟨p, hp, rfl⟩ := server_step hs
    exact .step a ih (hG s a hg) hp
  | board b e =>
    obtain ⟨p, -, rfl⟩ := board_step hs
    exact ih

/-- **And so does each board.** -/
theorem board_reach {G' : Board V × Board.Log → Board.Env V → Prop} {b : ℕ}
    (hG : ∀ s e, G s (.board b e) → G' (s.board b, s.log b) e) (h : (installation C format).ReachWhen G s) :
    (logged C format).ReachWhen G' (s.board b, s.log b) := by
  have hstart : ∀ s : Installation V, s.Starts → (logged C format).ReachWhen G' (s.board b, s.log b) :=
    fun s hs => .init ⟨hs.board b, by rw [hs.log]⟩
  refine h.induct (I := fun s => (logged C format).ReachWhen G' (s.board b, s.log b)) hstart
    fun s a s' _ ih hg hs => ?_
  cases a with
  | server a =>
    obtain ⟨p, -, rfl⟩ := server_step hs
    exact ih
  | board x e =>
    obtain ⟨p, hp, rfl⟩ := board_step hs
    by_cases hx : x = b
    · subst hx
      simp only [Function.update_self]
      exact .step e ih (hG s e hg) hp
    · simp only [Function.update_of_ne (Ne.symm hx)]
      exact ih

theorem Carried.starts (h : s.Starts) : Carried wiring s := by
  have hlog : ∀ b, s.log b = .empty := fun b => by rw [h.log]
  refine ⟨fun b c => Or.inl ?_, fun d b c _ => ?_⟩
  · obtain ⟨boot, hb⟩ := h.board b
    unfold arrivedAt arrived
    rw [hlog b, hb]
    show [] ++ (if _ then [] else []) = []
    rw [ite_self, List.append_nil]
  · rw [h.history]
    exact List.nil_prefix

/-- **Every step that respects the transport keeps both directions in order.** -/
theorem Carried.step {a : Action V} (h : Carried wiring s)
    (hacc : ∀ b, Board.Accounted C (s.board b) (s.log b)) (hg : Transport C wiring s a)
    (hs : (installation C format).step s a = some s') : Carried wiring s' := by
  cases a with
  | server a =>
    obtain ⟨p, hp, rfl⟩ := server_step hs
    obtain ⟨-, hH⟩ := Relay.observed_moves hp
    have hH : p.2 = s.history.after (s.server.event a) := hH
    refine ⟨fun b c => ?_, fun d b c hw => ?_⟩
    · rcases h.toBoard b c with hnil | ⟨d, hd, hpre⟩
      · exact Or.inl hnil
      · refine Or.inr ⟨d, hd, hpre.trans ?_⟩
        rw [hH]
        exact outgoing_after _ _ d
    · have hread := received_prefix h hg hw
      rw [← hH] at hread
      exact hread
  | board b e =>
    obtain ⟨p, hp, rfl⟩ := board_step hs
    obtain ⟨hstep, hrecord⟩ := Runs.Machine.recording_step hp
    have hb : p.1 = ((s.board b).loop C format e).1 := (Option.some.inj hstep).symm
    have hL : p.2 = (s.log b).record C format (s.board b) e := hrecord
    rw [hb, hL]
    refine ⟨fun x c => ?_, fun d x c hw => ?_⟩
    · unfold arrivedAt
      by_cases hx : x = b
      · subst hx
        simp only [Function.update_self]
        exact arrived_prefix h (hacc x) hg
      · simp only [Function.update_of_ne hx]
        exact h.toBoard x c
    · refine (h.toServer d x c hw).trans ?_
      unfold writtenBy
      by_cases hx : x = b
      · subst hx
        simp only [Function.update_self]
        exact written_transcribe _ _ _ _
      · simp only [Function.update_of_ne hx]
        exact List.prefix_rfl

theorem accounted (h : (installation C format).ReachWhen G s) (b : ℕ) :
    Board.Accounted C (s.board b) (s.log b) :=
  have hboard : (logged C format).Reach (s.board b, s.log b) := board_reach (fun _ _ _ => trivial) h
  .reach hboard

theorem Carried.reach (hG : ∀ s a, G s a → Transport C wiring s a) (h : (installation C format).ReachWhen G s) :
    Carried wiring s :=
  h.induct (fun _ => Carried.starts) fun s a _ hr hi hg hs => hi.step (accounted hr) (hG s a hg) hs

end Installation

end ServerRoom
