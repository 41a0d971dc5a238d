import ServerRoom.Lib.Attempts
import ServerRoom.Proof.Sealed
import ServerRoom.Proof.Stream
import ServerRoom.Spec.Sending

/-!
# The stream that the Arduino writes

`ethernet_send_message` may give up inside a message. The poke to the server is then
followed by a new connection, a report is not: `report_data_to_server` ignores what `send`
returns, and the next message goes out on the same connection.

* `attempt`: a call writes as many bytes as the link takes, up to the message's length.
* `outgoing_in_step`: the stream of each connection is in step exactly as long as the link
  takes nothing after a message was cut (`StaysCut`).
* `report_cut`: a run in which it does.
-/

namespace ServerRoom

open ByteMem Framing Runs NetworkSender NetworkConnection NetworkReceiver NetworkHandler

variable {C : Crypto} {h h' : NetworkHandler} {T : Transcript} {a : Call}

/-! ## One call -/

/-- How many of the first `left` tries after `tries` the link takes. -/
def taken (write : ℕ → Bool) (tries left : ℕ) : ℕ := ((List.range' tries left).filter write).length

/-- **The loop sends what the link takes**, up to the length of the message. -/
theorem writeLoop_fst (m : Packed) (len : ℕ) (write : ℕ → Bool) (left : ℕ) : ∀ tries sent, sent ≤ len →
    (writeLoop m len write left tries sent).1 = min len (sent + taken write tries left) := by
  induction left with
  | zero => intro tries sent h; simp [writeLoop, taken, h]
  | succ left ih =>
    intro tries sent h
    have hcons : taken write tries (left + 1) = (write tries).toNat + taken write (tries + 1) left := by
      unfold taken
      rw [List.range'_succ, List.filter_cons]
      cases write tries <;> simp [Nat.add_comm]
    unfold writeLoop
    rw [hcons]
    by_cases hs : sent < len
    · rw [if_pos hs]
      cases hw : write tries with
      | false => simpa using ih (tries + 1) sent h
      | true =>
        have hstep := ih (tries + 1) (sent + 1) hs
        simp only [if_true, hstep, Bool.toNat_true]
        omega
    · rw [if_neg hs]
      simp only
      omega

/-- The length that `ethernet_send_message` computes. -/
def messageLength (m : Packed) : ℕ := m.payloadLength.toNat + headerLength

/-- How many bytes of the message a call of `ethernet_send_message` gets through. -/
def through (call : Packed × Link) : ℕ :=
  if call.2.connected then
    min (messageLength call.1) (taken call.2.write 0 (sendTries * messageLength call.1))
  else 0

/-- **A call of `ethernet_send_message` as an attempt** at the message. -/
def attempt (call : Packed × Link) : Attempt UInt8 where
  whole := slice call.1 0 (messageLength call.1)
  written := slice call.1 0 (through call)
  isPrefix := by
    have hle : through call ≤ messageLength call.1 := by
      unfold through
      split
      · exact Nat.min_le_left _ _
      · exact Nat.zero_le _
    rw [← slice_take _ _ hle]
    exact List.take_prefix _ _

/-- The call sent a part of its message, and not all of it. -/
def CutOff (call : Packed × Link) : Prop := 0 < through call ∧ through call < messageLength call.1

instance (call : Packed × Link) : Decidable (CutOff call) := inferInstanceAs (Decidable (_ ∧ _))

theorem attempt_nil {call : Packed × Link} : (attempt call).written = [] ↔ through call = 0 := by
  rw [← List.length_eq_zero_iff]
  simp [attempt]

/-- A call that is cut off writes a proper part of its message. -/
theorem cutOff_iff {call : Packed × Link} : CutOff call ↔ (attempt call).Cut := by
  have hle : through call ≤ messageLength call.1 := by simpa [attempt] using (attempt call).isPrefix.length_le
  have hall : (attempt call).written = (attempt call).whole ↔ through call = messageLength call.1 := by
    refine ⟨fun h => by simpa [attempt] using congrArg List.length h, fun h => ?_⟩
    unfold attempt
    dsimp only
    rw [h]
  unfold CutOff Attempt.Cut
  rw [ne_eq, ne_eq, attempt_nil, hall]
  omega

/-- **What a call adds to the stream** is what its attempt wrote. -/
theorem ethernetSendMessage_eq (info : NetworkInfo) (link : Link) (m : Packed) :
    (ethernetSendMessage info link m).2.client.outgoing = info.client.outgoing ++ (attempt (m, link)).written ∧
      (ethernetSendMessage info link m).2.client.connection = info.client.connection := by
  have hw : (attempt (m, link)).written = slice m 0 (through (m, link)) := rfl
  rw [hw]
  unfold ethernetSendMessage through
  by_cases hc : link.connected = true
  · obtain ⟨-, k, h1, h2⟩ := writeLoop_spec m (messageLength m) link.write (sendTries * messageLength m) 0 0
      (Nat.zero_le _)
    have h3 := writeLoop_fst m (messageLength m) link.write (sendTries * messageLength m) 0 0 (Nat.zero_le _)
    have hk : k = min (messageLength m) (taken link.write 0 (sendTries * messageLength m)) := by omega
    simp only [hc, Bool.not_true, Bool.false_eq_true, if_false, if_true]
    unfold messageLength at h2 hk ⊢
    rw [h2, hk]
    exact ⟨rfl, trivial⟩
  · simp [hc]

/-- What some calls of `ethernet_send_message` wrote. -/
def writtenBy (calls : List (Packed × Link)) : List UInt8 := written (calls.map attempt)

theorem writtenBy_append (calls more : List (Packed × Link)) :
    writtenBy (calls ++ more) = writtenBy calls ++ writtenBy more := by
  unfold writtenBy written
  rw [List.map_append, List.flatMap_append]

/-- `send` writes what it hands over. -/
theorem send_eq (info : NetworkInfo) (stack : Packed) (link : Link) (t : UInt8) (payload : List UInt8) (n : UInt8) :
    (NetworkSender.send C info stack link t payload n).2.client.outgoing =
        info.client.outgoing ++ writtenBy (handed C info stack link t payload n) ∧
      (NetworkSender.send C info stack link t payload n).2.client.connection = info.client.connection := by
  unfold NetworkSender.send handed
  split
  · exact ⟨(List.append_nil _).symm, rfl⟩
  · obtain ⟨h1, h2⟩ := ethernetSendMessage_eq info link (buildMessage C info stack t payload n)
    refine ⟨?_, h2⟩
    rw [h1]
    simp [writtenBy, written]

theorem generateMessage_payloadLength (info : NetworkInfo) (stack : Packed) (t : UInt8) (payload : List UInt8)
    (n : UInt8) : (generateMessage info stack t payload n).payloadLength = n := by
  unfold generateMessage Packed.setPayload Packed.setFutureUse2 Packed.setAesVector Packed.setFutureUse1
    Packed.setSenderIdentifier Packed.setUnixTimestamp Packed.setMessageType Packed.setNetworkId
    Packed.setPayloadLength Packed.payloadLength
  simp (disch := simp) only [write_of_disj, store64_of_disj, store32_of_disj, put_of_ne, put_self]

theorem htonHandling_payloadLength (m : Packed) : (htonHandling m).payloadLength = m.payloadLength := by
  unfold htonHandling Packed.setUnixTimestamp Packed.setNetworkId Packed.payloadLength
  simp (disch := simp) only [store64_of_disj, store32_of_disj]

theorem encryptMessage_payloadLength (info : NetworkInfo) (m : Packed) :
    (encryptMessage C info m).payloadLength = m.payloadLength := by
  unfold encryptMessage Packed.payloadLength
  simp (disch := simp) only [write_of_disj]

/-- The length of the payload stands in the message, for a payload of any length. -/
theorem buildMessage_payloadLength (info : NetworkInfo) (stack : Packed) (t : UInt8) (payload : List UInt8)
    (n : UInt8) : (buildMessage C info stack t payload n).payloadLength = n := by
  have hsign : ∀ m, (signMessage C info m).payloadLength = m.payloadLength := by
    intro m
    have hlen : m.payloadLength.toNat = (List.replicate m.payloadLength.toNat (0 : UInt8)).length := by simp
    exact (signMessage_spec C info m hlen).1
  have hmark : ∀ m : Packed, (m.setHmacForNetwork 0xFFFFFFFF).payloadLength = m.payloadLength := by
    intro m
    unfold Packed.setHmacForNetwork Packed.payloadLength
    simp (disch := simp) only [store32_of_disj]
  have hsigned : ∀ m, m = generateMessage info stack t payload n →
      (signMessage C info (encryptMessage C info (htonHandling m))).payloadLength = n := by
    rintro m rfl
    rw [hsign, encryptMessage_payloadLength, htonHandling_payloadLength, generateMessage_payloadLength]
  unfold buildMessage
  dsimp only
  split
  · rw [hmark, hsigned _ rfl]
  · rw [hsigned _ rfl]

/-- **Every message that is handed over is one frame.** -/
theorem attempt_isFrame (call : Packed × Link) : wireFormat.IsFrame (attempt call).whole := by
  have hlen : messageLength call.1 = headerLength + call.1.payloadLength.toNat := Nat.add_comm _ _
  have hload : Loaded call.1 (slice call.1 0 (messageLength call.1)) := by rw [hlen]; rfl
  exact hload.isFrame

/-! ## One call of a method -/

/-- Before it pokes the server, `keep_connected` writes nothing: the connection is the same,
or a new one. -/
theorem beforePoke_client (e : LoopEnv) (info : NetworkInfo) :
    (beforePoke e info).client = info.client ∨
      info.client.connection < (beforePoke e info).client.connection ∧ (beforePoke e info).client.outgoing = [] := by
  unfold beforePoke keepConnection closeAndConnect
  dsimp only
  split <;> split
  · refine Or.inr ⟨?_, rfl⟩
    simp only
    omega
  · exact Or.inr ⟨Nat.lt_succ_self _, rfl⟩
  · exact Or.inr ⟨Nat.lt_succ_self _, rfl⟩
  · exact Or.inl rfl

/-- **`keep_connected` is that, and perhaps a poke**, which if it fails is followed by a new
connection. -/
theorem keepConnected_eq (e : LoopEnv) (info : NetworkInfo) :
    keepConnected C e info =
      if Pokes e info then
        match NetworkSender.send C (beforePoke e info) e.stack e.link 0x00 [] 0 with
        | (true, info) => { info with lastPokeToServer := e.millis 6 }
        | (false, info) => closeAndConnect (e.millis 6) (e.millis 7) info
      else beforePoke e info := rfl

/-- The receiver writes nothing. -/
theorem loop_client (now : UInt32) (rx : NetworkReceiver) (info : NetworkInfo) :
    (NetworkReceiver.loop C now rx info).2.1.client.connection = info.client.connection ∧
      (NetworkReceiver.loop C now rx info).2.1.client.outgoing = info.client.outgoing := by
  have hfill : (fill rx info).info.client.connection = info.client.connection ∧
      (fill rx info).info.client.outgoing = info.client.outgoing := by
    unfold fill
    dsimp only
    split <;> exact ⟨rfl, rfl⟩
  have hping : ∀ rx info, (handlePingMessage C now rx info).2.2.client = info.client := by
    intro rx info
    unfold handlePingMessage
    dsimp only
    repeat' split
    all_goals rfl
  have hfinish : ∀ rx info, (finish C now rx info).2.1.client = info.client := by
    intro rx info
    have h := hping rx info
    unfold finish
    split <;> rename_i heq <;> rw [heq] at h
    · exact h
    · split <;> exact h
  unfold NetworkReceiver.loop
  dsimp only
  split
  · rw [hfinish]; exact hfill
  · exact hfill

/-- A call hands over at most one message. -/
theorem hands_cases (C : Crypto) (h : NetworkHandler) (a : Call) :
    (h.hands C a).2 = [] ∨ ∃ call, (h.hands C a).2 = [call] := by
  have hhanded : ∀ info stack link t payload n, handed C info stack link t payload n = [] ∨
      ∃ call, handed C info stack link t payload n = [call] := by
    intro info stack link t payload n
    unfold handed
    split
    · exact Or.inl rfl
    · exact Or.inr ⟨_, rfl⟩
  cases a with
  | loop e =>
    simp only [hands]
    split
    · exact hhanded _ _ _ _ _ _
    · exact Or.inl rfl
  | send c => exact hhanded _ _ _ _ _ _
  | receive => exact Or.inl rfl

/-- Where a call of a method starts to write, and where it ends: on the connection that the
handler has, or on a new one on which nothing is written yet. -/
def Writes (h : NetworkHandler) (connection : ℕ) (calls : List (Packed × Link)) (h' : NetworkHandler) : Prop :=
  ∃ before, (connection = h.info.client.connection ∧ before = h.info.client.outgoing ∨
      h.info.client.connection < connection ∧ before = []) ∧
    (h'.info.client.connection = connection ∧ h'.info.client.outgoing = before ++ writtenBy calls ∨
      connection < h'.info.client.connection ∧ h'.info.client.outgoing = [])

theorem loop_writes (e : LoopEnv) (h : NetworkHandler) :
    Writes h (h.hands C (.loop e)).1 (h.hands C (.loop e)).2 (h.loop C e).1 := by
  have hready : (ready C e h).client.connection = (keepConnected C e h.info).client.connection ∧
      (ready C e h).client.outgoing = (keepConnected C e h.info).client.outgoing := ⟨rfl, rfl⟩
  obtain ⟨hc, ho⟩ := loop_client (C := C) (e.millis 8) h.receiver (ready C e h)
  have hinfo : (h.loop C e).1.info = (NetworkReceiver.loop C (e.millis 8) h.receiver (ready C e h)).2.1 := rfl
  rw [← hinfo, hready.1] at hc
  rw [← hinfo, hready.2] at ho
  refine ⟨(beforePoke e h.info).client.outgoing, ?_, ?_⟩
  · rcases beforePoke_client e h.info with hb | ⟨hlt, hnil⟩
    · exact Or.inl ⟨congrArg EthernetClient.connection hb, congrArg EthernetClient.outgoing hb⟩
    · exact Or.inr ⟨hlt, hnil⟩
  · rw [hc, ho, keepConnected_eq]
    simp only [hands]
    by_cases hp : Pokes e h.info
    · rw [if_pos hp, if_pos hp]
      obtain ⟨h1, h2⟩ := send_eq (C := C) (beforePoke e h.info) e.stack e.link 0x00 [] 0
      split <;> rename_i heq <;> rw [heq] at h1 h2
      · exact Or.inl ⟨h2, h1⟩
      · -- the poke has failed: the client connects anew
        refine Or.inr ⟨?_, rfl⟩
        rw [← h2]
        exact Nat.lt_succ_self _
    · rw [if_neg hp, if_neg hp]
      exact Or.inl ⟨rfl, (List.append_nil _).symm⟩

theorem step_writes (hs : h.step C a = some h') : Writes h (h.hands C a).1 (h.hands C a).2 h' := by
  cases a with
  | loop e =>
    cases hs
    exact loop_writes e h
  | send c =>
    cases hs
    obtain ⟨h1, h2⟩ := send_eq (C := C) h.info c.stack c.link c.messageType c.payload c.payloadLength
    exact ⟨_, Or.inl ⟨rfl, rfl⟩, Or.inl ⟨h2, h1⟩⟩
  | receive =>
    cases hs
    have hi := (drain_spec h).1
    exact ⟨_, Or.inl ⟨rfl, rfl⟩, Or.inl ⟨by rw [hi]; rfl, by rw [hi]; exact (List.append_nil _).symm⟩⟩

/-! ## Runs -/

/-- **The transcript is what was written**, and of connections to come there is none. -/
structure Transcribed (h : NetworkHandler) (T : Transcript) : Prop where
  outgoing : h.info.client.outgoing = writtenBy (T.sent h.info.client.connection)
  later : ∀ c, h.info.client.connection < c → T.sent c = []

theorem record_sent (T : Transcript) (h : NetworkHandler) (a : Call) (c : ℕ) :
    (T.record C h a).sent c = if c = (h.hands C a).1 then T.sent c ++ (h.hands C a).2 else T.sent c := by
  unfold Transcript.record
  simp only [Function.update_apply]
  split
  · rename_i hc
    rw [hc]
  · rfl

theorem Transcribed.step (ht : Transcribed h T) (hs : h.step C a = some h') : Transcribed h' (T.record C h a) := by
  obtain ⟨before, hstart, hend⟩ := step_writes hs
  have hle : h.info.client.connection ≤ (h.hands C a).1 := by
    rcases hstart with ⟨hc, -⟩ | ⟨hlt, -⟩
    · exact Nat.le_of_eq hc.symm
    · exact Nat.le_of_lt hlt
  have hbefore : before = writtenBy (T.sent (h.hands C a).1) := by
    rcases hstart with ⟨hc, hb⟩ | ⟨hlt, hb⟩
    · rw [hc, hb, ht.outgoing]
    · rw [hb, ht.later _ hlt]; rfl
  have hlater : ∀ c, (h.hands C a).1 < c → (T.record C h a).sent c = [] := by
    intro c hc
    rw [record_sent, if_neg (Nat.ne_of_gt hc)]
    exact ht.later c (Nat.lt_of_le_of_lt hle hc)
  rcases hend with ⟨hc, ho⟩ | ⟨hlt, ho⟩
  · refine ⟨?_, fun c hlt => hlater c (hc ▸ hlt)⟩
    rw [ho, hc, record_sent, if_pos rfl, writtenBy_append, hbefore]
  · exact ⟨by rw [ho, hlater _ hlt]; rfl, fun c hc => hlater c (Nat.lt_trans hlt hc)⟩

/-- The attempts on a connection. -/
def NetworkHandler.Transcript.attempts (T : Transcript) (c : ℕ) : List (Attempt UInt8) := (T.sent c).map attempt

/-- **After a cut the link takes nothing more**: when a message was cut off on the connection,
what a call hands over on it gets no byte through. -/
def StaysCut (C : Crypto) (p : NetworkHandler × Transcript) (a : Call) : Prop :=
  (∃ call ∈ p.2.sent (p.1.hands C a).1, CutOff call) → ∀ call ∈ (p.1.hands C a).2, through call = 0

/-- **A call keeps every stream in step exactly if it writes nothing after a cut.** -/
theorem inStep_record : (∀ c, InStep ((T.record C h a).attempts c)) ↔
    (∀ c, InStep (T.attempts c)) ∧ StaysCut C (h, T) a := by
  have hcut : (∃ x ∈ T.attempts (h.hands C a).1, x.Cut) ↔ ∃ call ∈ T.sent (h.hands C a).1, CutOff call := by
    simp [Transcript.attempts, cutOff_iff]
  have hone : InStep ((T.record C h a).attempts (h.hands C a).1) ↔
      InStep (T.attempts (h.hands C a).1) ∧ StaysCut C (h, T) a := by
    have happ : (T.record C h a).attempts (h.hands C a).1 =
        T.attempts (h.hands C a).1 ++ (h.hands C a).2.map attempt := by
      unfold Transcript.attempts
      rw [record_sent, if_pos rfl, List.map_append]
    unfold StaysCut
    rw [happ]
    rcases hands_cases C h a with hnil | ⟨call, hcall⟩
    · simp [hnil]
    · rw [hcall, List.map_singleton, inStep_snoc, attempt_nil, hcut]
      simp
  have hother : ∀ c, c ≠ (h.hands C a).1 → (T.record C h a).attempts c = T.attempts c := by
    intro c hc
    unfold Transcript.attempts
    rw [record_sent, if_neg hc]
  constructor
  · intro hall
    obtain ⟨hin, hg⟩ := hone.1 (hall _)
    refine ⟨fun c => ?_, hg⟩
    by_cases hc : c = (h.hands C a).1
    · rw [hc]; exact hin
    · rw [← hother c hc]; exact hall c
  · rintro ⟨hin, hg⟩ c
    by_cases hc : c = (h.hands C a).1
    · rw [hc]; exact hone.2 ⟨hin _, hg⟩
    · rw [hother c hc]; exact hin c

/-- A step of the handler with its transcript. -/
theorem transcribed_step {p p' : NetworkHandler × Transcript} (hs : (transcribed C).step p a = some p') :
    p.1.step C a = some p'.1 ∧ p'.2 = p.2.record C p.1 a := by
  obtain ⟨h1, h2⟩ := Machine.recording_step hs
  exact ⟨h1, h2⟩

theorem Transcribed.reach (hr : (transcribed C).Reach (h, T)) : Transcribed h T := by
  have hall : ∀ p, (transcribed C).Reach p → Transcribed p.1 p.2 := by
    intro p hp
    refine hp.induct (I := fun p => Transcribed p.1 p.2) ?_ fun p a p' _ hi _ hs => ?_
    · rintro ⟨h, T⟩ ⟨⟨networkId, serverKey, networkKey, t₀, t₁, rfl⟩, rfl⟩
      exact ⟨rfl, fun _ _ => rfl⟩
    · obtain ⟨h1, h2⟩ := transcribed_step hs
      rw [h2]
      exact hi.step h1
  exact hall (h, T) hr

/-- **The stream stays in step exactly as long as nothing is taken after a cut.** What the
transcript holds of the current connection is what the client has written on it. In every
run of calls whose steps meet `StaysCut`, each connection's stream is in step, and a reader
that goes by `payload_length` finds exactly whole messages in it, in their order; and a
call that does not meet it, in any run, leaves a stream that is not in step. -/
theorem outgoing_in_step (C : Crypto) :
    (∀ h T, (transcribed C).Reach (h, T) →
      h.info.client.outgoing = written (T.attempts h.info.client.connection)) ∧
      (∀ h T, (transcribed C).ReachWhen (StaysCut C) (h, T) → ∀ c, InStep (T.attempts c) ∧
        ∃ frames tail, Decomposes wireFormat (written (T.attempts c)) frames tail ∧
          frames.Sublist ((T.attempts c).map Attempt.whole)) ∧
      ∀ p a p', (transcribed C).Reach p → (transcribed C).step p a = some p' → ¬ StaysCut C p a →
        ∃ c, ¬ InStep (p'.2.attempts c) := by
  refine ⟨fun h T hr => (Transcribed.reach hr).outgoing, fun h T hr c => ?_, fun p a p' _ hs hbad => ?_⟩
  · have hall : ∀ p, (transcribed C).ReachWhen (StaysCut C) p → ∀ c, InStep (p.2.attempts c) := by
      intro p hp
      refine hp.induct (I := fun p => ∀ c, InStep (p.2.attempts c)) ?_ fun p a p' _ hi hg hs => ?_
      · rintro ⟨h, T⟩ ⟨-, rfl⟩ c
        exact InStep.nil
      · obtain ⟨-, h2⟩ := transcribed_step hs
        rw [h2]
        exact inStep_record.2 ⟨hi, hg⟩
    have hin := hall (h, T) hr c
    refine ⟨hin, hin.decomposes fun x hx => ?_⟩
    obtain ⟨call, -, rfl⟩ := List.mem_map.1 hx
    exact attempt_isFrame call
  · obtain ⟨-, h2⟩ := transcribed_step hs
    by_contra hno
    rw [not_exists] at hno
    have hall : ∀ c, InStep (p'.2.attempts c) := fun c => not_not.1 (hno c)
    rw [h2] at hall
    exact hbad (inStep_record.1 hall).2

/-- An iteration of `loop()` in `main.ino` makes these calls. -/
theorem iterate_run (C : Crypto) (h : NetworkHandler) (e : IterEnv) :
    (networkHandler C).run h e.calls = some (h.iterate C e).1 := by
  have hstep : ∀ h : NetworkHandler, (networkHandler C).run h [.receive] = some h.drain.1 := fun _ => rfl
  unfold IterEnv.calls
  cases hr : e.report with
  | none =>
    show (networkHandler C).run (h.loop C e.toLoopEnv).1 [.receive] = _
    rw [hstep, iterate_eq, beforeDrain, hr]
  | some c =>
    show (networkHandler C).run ((h.loop C e.toLoopEnv).1.send C c).2 [.receive] = _
    rw [hstep, iterate_eq, beforeDrain, hr]

/-! ## A report that is cut off -/

/-- What a call meets when every reading of the clock is `now`, and the link takes the tries
that `write` says. -/
def LoopEnv.at (connected : Bool) (now : UInt32) (write : ℕ → Bool) : LoopEnv :=
  ⟨connected, ⟨true, write⟩, fun _ => 0, fun _ => now, []⟩

/-- The client connects, the link takes ten bytes of a report, and five seconds later all of
the poke. -/
def cutReport : List Call :=
  [.loop (.at false 0 fun _ => true), .send ⟨fun _ => 0, ⟨true, fun i => i < 10⟩, 0x20, [0x7B, 0x7D], 2⟩,
    .loop (.at true 5001 fun _ => true)]

/-- The handler that `main.ino` constructs. -/
def NetworkHandler.main : NetworkHandler :=
  new (NetworkInfo.new 0 (Vector.replicate 16 0x46) (Vector.replicate 16 0x46) 0 0)

theorem main_transcribed : (transcribed C).init (NetworkHandler.main, ⟨fun _ => []⟩) :=
  ⟨⟨_, _, _, _, _, rfl⟩, rfl⟩

/-- The reader finds a frame that nobody sent. -/
theorem report_cut : ∃ h T, (transcribed Crypto.zero).Reach (h, T) ∧
    (∃ f tail, Decomposes wireFormat (written (T.attempts 1)) [f] tail ∧ f ∉ (T.attempts 1).map Attempt.whole) ∧
      ¬ InStep (T.attempts 1) := by
  have hrun : ((transcribed Crypto.zero).run (NetworkHandler.main, ⟨fun _ => []⟩) cutReport).any
      (fun p => wireFormat.IsFrame ((written (p.2.attempts 1)).take 50) ∧
        ¬ wireFormat.HasFrame ((written (p.2.attempts 1)).drop 50) ∧
        (written (p.2.attempts 1)).take 50 ∉ (p.2.attempts 1).map Attempt.whole) = true := by decide +kernel
  obtain ⟨⟨h, T⟩, hr, hs⟩ := Machine.exists_reach main_transcribed hrun
  obtain ⟨hframe, htail, hnot⟩ := of_decide_eq_true hs
  have hdec : Decomposes wireFormat (written (T.attempts 1)) [(written (T.attempts 1)).take 50]
      ((written (T.attempts 1)).drop 50) :=
    ⟨by simp, fun f hf => by rw [List.mem_singleton.1 hf]; exact hframe, htail⟩
  refine ⟨h, T, hr, ⟨_, _, hdec, hnot⟩, fun hin => ?_⟩
  obtain ⟨frames, tail, hdec', hsub⟩ := hin.decomposes (F := wireFormat) fun x hx => by
    obtain ⟨call, -, rfl⟩ := List.mem_map.1 hx
    exact attempt_isFrame call
  obtain ⟨rfl, -⟩ := hdec.unique hdec'
  exact hnot (hsub.subset (List.mem_singleton_self _))

end ServerRoom
