import ServerRoom.Proof.Delivery
import ServerRoom.Proof.Provenance

/-!
# What a ping is

The test for a ping is written twice. The relay server swaps two header fields, checks the
signature, swaps them back and looks for the marks; the Arduino looks for the marks and then
checks the signature. `verdict_ping_iff` and `handlePingMessage_eq` bring both to the bytes of
the frame, where they are the same on network 0. Both ends also build pings:
`createPingMessage_isPingFrame`, `Sealed.isPingFrame`.

What the relay server broadcasts has no ping marks (`Unmarked.reach`), so an Arduino never
takes a broadcast frame for a ping.
-/

namespace ServerRoom

open ByteMem

variable (C : Crypto)

/-- A ping: a complete frame that the relay server takes, with the marks. -/
structure IsPingFrame (f : List UInt8) : Prop where
  whole : wireFormat.IsFrame f
  authentic : Frame.isAuthentic C f = true
  marks : Frame.hasPingMarks f = true

namespace Relay

/-- The relay server's buffer, after it received the frame `f`. -/
theorem wire_recvd {b : Packed} {f : List UInt8} (hf : wireFormat.IsFrame f) (hb : slice b 0 f.length = f) :
    (recvd b).wire = f := by
  obtain ⟨hk, -⟩ := loaded_of_isFrame (m := b) (k := f.length) (by rw [hb]; exact hf)
  show slice b 0 (48 + b.payloadLength.toNat) = f
  rw [← hk, hb]

/-- **The relay server's test for a ping**, on the bytes. -/
theorem verdict_ping_iff {b : Packed} : verdict C (recvd b) = .ping ↔
    Frame.isAuthentic C (recvd b).wire = true ∧ Frame.hasPingMarks (recvd b).wire = true := by
  rw [verdict_eq]
  by_cases ha : Frame.isAuthentic C (recvd b).wire = true
  · rw [if_pos ha]
    by_cases hm : Frame.hasPingMarks (recvd b).wire = true
    · rw [if_pos hm]
      exact iff_of_true rfl ⟨ha, hm⟩
    · rw [if_neg hm]
      exact iff_of_false nofun fun h => hm h.2
  · rw [if_neg ha]
    exact iff_of_false nofun fun h => ha h.1

/-- The relay server takes a ping for a ping. -/
theorem verdict_ping {f : List UInt8} (h : IsPingFrame C f) {b : Packed} (hb : slice b 0 f.length = f) :
    verdict C (recvd b) = .ping := by
  rw [verdict_ping_iff, wire_recvd h.whole hb]
  exact ⟨h.authentic, h.marks⟩

/-- **The relay server's pings are pings**, when they are signed with their own digest. -/
theorem createPingMessage_isPingFrame (stack : NetworkMessage) :
    IsPingFrame C (createPingMessage C stack).wire := by
  have hload : Loaded (createPingMessage C stack).bytes (createPingMessage C stack).wire :=
    signPing_loaded _ stack
  have hkeep : ∀ {off len}, 4 ≤ off →
      slice (createPingMessage C stack).bytes off len = slice (unsignedPing stack).bytes off len :=
    fun h => signPing_slice _ _ h
  have hl : ∀ data, (C.hmac key data 4).length = 4 := fun data => C.hmac_length key data (by omega)
  have hp : (createPingMessage C stack).bytes.payloadLength = 0 := signPing_payloadLength _ stack
  -- the first four bytes are the digest's, in the reverse order
  have hsigned : slice (createPingMessage C stack).bytes 0 4 =
      (C.hmac key (slice (unsignedPing stack).bytes 8 40) 4).reverse := by
    unfold createPingMessage signPing Packed.setHmacForServer
    dsimp only
    rw [slice_store32]
    show bytes32 (swap32 (word32 (C.hmac key (slice (unsignedPing stack).bytes 8 40) 4))) = _
    rw [bytes32_swap32, bytes32_word32 (hl _)]
  refine ⟨hload.isFrame, decide_eq_true ⟨?_, ?_⟩, signPing_marks _ stack⟩
  · rw [hload.region (by omega), hkeep (by omega), (unsignedPing_fields stack).2.1]
  · unfold Frame.signature
    rw [hload.region (by omega), hload.signed, hp, hsigned, hkeep (by omega)]
    rfl

end Relay

/-- **The Arduino's pings are pings**, with the relay server's key on network 0. -/
theorem Sealed.isPingFrame {info : NetworkInfo} {m : Packed} (h : Sealed C info 0 [] m)
    (hid : info.networkId = 0) (hkey : info.serverKey = Relay.key) : IsPingFrame C (slice m 0 48) := by
  have hl : Loaded m (slice m 0 48) := h.loaded C
  refine ⟨hl.isFrame, h.isAuthentic C hid hkey, decide_eq_true ⟨?_, ?_, ?_⟩⟩
  · rw [hl.getD (by omega), ← UInt8.toNat_inj]
    exact h.length
  · rw [hl.region (by omega), h.network]
    rfl
  · rw [hl.region (by omega), h.vector]

/-! ## What is broadcast -/

namespace Relay

variable {C} {s s' : Server} {a : Action} {H : History} {ev : Option Event} {σ : Stmt}

/-- The message of a broadcast has no ping marks. -/
def ReceiverPc.CastsUnmarked : ReceiverPc → Prop
  | .castLock m | .castCopy m _ _ | .castNext m _ | .castPush m _ _ | .castRelease m _ _
  | .castSignal m _ _ | .castUnlock m _ _ => isPing m = false
  | _ => True

theorem ReceiverPc.Step.castsUnmarked {d : ℕ} {data : DeviceData} {network : UInt32 → Finset ℕ} {p p' : ReceiverPc}
    (h : p.Step C d data network σ ev p') (hp : p.CastsUnmarked) : p'.CastsUnmarked := by
  cases h with
  | accept m hping => exact hping
  | castLock | castPick | castCopied | castNext | castPush | castRelease | castSignal | castUnlock => exact hp
  | _ => trivial

/-- No message with ping marks is relayed. -/
structure Unmarked (s : Server) (H : History) : Prop where
  casts : ∀ d, (s.receiver d).CastsUnmarked
  appended : ∀ r, ∀ x ∈ H.appended r, x.origin ≠ none → isPing x.message = false

theorem Unmarked.step (h : Unmarked s H) (hsh : Shape s) (hm : s.Moves C a ev s') : Unmarked s' (H.after ev) := by
  have hquiet : (∀ d, s'.receiver d = s.receiver d ∨ s'.receiver d = .acquire) →
      (∀ r, ∀ x ∈ Event.newAppended H r ev, x.origin = none) → Unmarked s' (H.after ev) := by
    refine fun hrec hnew => ⟨fun d => ?_, fun r x hx ho => ?_⟩
    · rcases hrec d with he | he <;> rw [he]
      · exact h.casts d
      · trivial
    · rw [History.after_appended] at hx
      rcases List.mem_append.1 hx with hx | hx
      · exact h.appended r x hx ho
      · exact absurd (hnew r x hx) ho
  cases hm with
  | accept fd hfd => exact hquiet (fun _ => .inl rfl) nofun
  | create fd launched networkId last hm => exact hquiet (fun d => .inl (hm.receiver d)) nofun
  | wake d hw => exact hquiet (fun _ => .inl rfl) nofun
  | @handler d e σ ev p s' hm =>
    exact hquiet (fun x => (hm.receiver_or hsh x).imp_right And.left) fun r x hx => hm.step.origin hx
  | sender d e hm =>
    exact hquiet (fun x => .inl (hm.receiver x)) fun r x hx => hm.step.origin hx
  | @receiver d e σ ev p s' hm =>
    refine ⟨fun x => ?_, fun r x hx ho => ?_⟩
    · rw [hm.receiver]
      split
      · exact hm.step.castsUnmarked (h.casts d)
      · exact h.casts x
    · rw [History.after_appended] at hx
      rcases List.mem_append.1 hx with hx | hx
      · exact h.appended r x hx ho
      · obtain ⟨m, rest, hp, -, rfl⟩ := hm.step.appends hx
        have hc := h.casts d
        rw [hp] at hc
        exact hc

theorem Unmarked.reach {G : Server × History → Action → Prop} (h : (observed C).ReachWhen G (s, H)) :
    Unmarked s H :=
  observed_induct (fun s hs => ⟨fun d => by rw [hs.receiver]; trivial, fun r x hx => nomatch hx⟩)
    (fun _ _ _ _ _ hr hi _ hm => hi.step (Shape.reach hr) hm) h

end Relay

/-! ## Agreement -/

open NetworkReceiver NetworkSender Relay

/-- The Arduino's test, for a frame on network 0 and with the relay server's key. -/
theorem handlePing_iff {b : Packed} {rx : NetworkReceiver} {info : NetworkInfo} (now : UInt32)
    (hkey : info.serverKey = Relay.key) (hid : Frame.region (recvd b).wire 9 4 = List.replicate 4 0)
    (hrx : Loaded rx.receivedMessage (recvd b).wire) :
    (handlePingMessage C now rx info).1 = true ↔ verdict C (recvd b) = .ping := by
  rw [handlePingMessage_eq C info now hrx, verdict_ping_iff]
  simp only [Frame.isPing, Frame.isAuthentic, decide_eq_true_iff, hkey, hid, true_and]
  exact and_comm

/-- The Arduino takes a ping for a ping. -/
theorem handlePing_ping {f : List UInt8} (h : IsPingFrame C f) {rx : NetworkReceiver} {info : NetworkInfo}
    (now : UInt32) (hkey : info.serverKey = Relay.key) (hrx : Loaded rx.receivedMessage f) :
    (handlePingMessage C now rx info).1 = true := by
  rw [handlePingMessage_eq C info now hrx]
  refine decide_eq_true ⟨h.marks, ?_⟩
  rw [hkey]
  exact (of_decide_eq_true h.authentic).2

/-- **The two ends agree on what a ping is.**

1. For a frame on network 0, and the same key, the two tests say the same.
2. They take every ping for one.
3. What `create_ping_message` builds is a ping, whatever was on the stack.
4. What `send` writes for type 0x00 without a payload, on network 0, is a ping.
5. When `loop` recognises a ping, the buffer is empty and no message is there after it.
6. In every run of the relay server no frame that it relays is a ping to an Arduino. -/
theorem pings_agree :
    (∀ (b : Packed) rx info now, info.serverKey = Relay.key → Frame.region (recvd b).wire 9 4 = List.replicate 4 0 →
      Loaded rx.receivedMessage (recvd b).wire →
      ((handlePingMessage C now rx info).1 = true ↔ verdict C (recvd b) = .ping)) ∧
    (∀ f, IsPingFrame C f → (∀ b : Packed, slice b 0 f.length = f → verdict C (recvd b) = .ping) ∧
      ∀ rx info now, info.serverKey = Relay.key → Loaded rx.receivedMessage f →
        (handlePingMessage C now rx info).1 = true) ∧
    (∀ stack, IsPingFrame C (createPingMessage C stack).wire) ∧
    (∀ info stack link, info.networkId = 0 → info.serverKey = Relay.key →
      (send C info stack link 0x00 [] 0).1 = true →
      ∃ f, (send C info stack link 0x00 [] 0).2.client.outgoing = info.client.outgoing ++ f ∧ IsPingFrame C f) ∧
    (∀ now rx info, (fill rx info).complete = true →
      (handlePingMessage C now (fill rx info).rx (fill rx info).info).1 = true →
      (loop C now rx info).1.isReceived = false ∧ (loop C now rx info).1.index = 0) ∧
    (∀ s H, (observed C).Reach (s, H) → ∀ r, ∀ x ∈ H.appended r, x.origin ≠ none →
      ∀ rx info now, Loaded rx.receivedMessage x.message.wire → (handlePingMessage C now rx info).1 = false) := by
  refine ⟨fun b rx info now hkey hid hrx => handlePing_iff C now hkey hid hrx,
    fun f hf => ⟨fun b hb => verdict_ping C hf hb, fun rx info now hkey hrx => handlePing_ping C hf now hkey hrx⟩,
    createPingMessage_isPingFrame C, fun info stack link hid hkey hs => ?_, fun now rx info hc hp => ?_,
    fun s H h r x hx ho rx info now hrx => ?_⟩
  · have hn : (0 : UInt8).toNat = ([] : List UInt8).length := rfl
    have hsealed := buildMessage_sealed C info stack 0 hn
    exact ⟨_, send_writes C info stack 0 link hn hs, hsealed.isPingFrame C hid hkey⟩
  · unfold NetworkReceiver.loop NetworkReceiver.finish
    dsimp only
    rw [if_pos hc]
    generalize handlePingMessage C now (fill rx info).rx (fill rx info).info = r at hp
    obtain ⟨ok, rx', info'⟩ := r
    obtain rfl : ok = true := hp
    exact ⟨rfl, rfl⟩
  · obtain ⟨⟨d, k⟩, hd⟩ := Option.ne_none_iff_exists'.1 ho
    obtain ⟨b, hb⟩ := ((Provenance.reach h).appended r x d k hx hd).1.whole
    have hmarks := (Unmarked.reach h).appended r x hx ho
    rw [hb, isPing_recvd, ← hb] at hmarks
    rw [handlePingMessage_eq C info now hrx]
    show Frame.isPing C info x.message.wire = false
    unfold Frame.isPing
    rw [hmarks]
    exact decide_eq_false fun hf => absurd hf.1 (by simp)

/-- The server's ping on its way to a board; and a message that the server has relayed. -/
theorem pings_agree_oneBroadcast :
    let ping := createPingMessage .zero ⟨fun _ => 0, 0⟩
    let board := NetworkInfo.new 0 Relay.key Relay.key 0 0
    let info := { board with client := { board.client with incoming := ping.wire } }
    (verdict .zero (recvd ping.bytes) = .ping ∧
      (loop .zero 0 (NetworkReceiver.new info) info).1.isReceived = false ∧
      (loop .zero 0 (NetworkReceiver.new info) info).1.index = 0) ∧
    ∃ s H x, (observed .zero).Reach (s, H) ∧ x ∈ H.appended 0 ∧ x.origin = some (0, 0) ∧
      ∃ rx, Loaded rx.receivedMessage x.message.wire ∧ (handlePingMessage .zero 0 rx info).1 = false := by
  intro ping board info
  obtain ⟨-, htaken, hping, -, hloop, hrelayed⟩ := pings_agree .zero
  have hframe := hping ⟨fun _ => 0, 0⟩
  refine ⟨⟨(htaken _ hframe).1 ping.bytes rfl, hloop 0 _ info (by decide +kernel) (by decide +kernel)⟩, ?_⟩
  obtain ⟨s, H, hr, x, hx, ho⟩ := reach_oneBroadcast
  have hreach : (observed .zero).Reach (s, H) := hr.mono fun _ _ _ => trivial
  obtain ⟨b, hb⟩ := ((Provenance.reach hreach).appended 0 x 0 0 hx ho).1.whole
  have hload : Loaded x.message.bytes x.message.wire := by
    rw [hb]
    exact loaded_recvd b
  exact ⟨s, H, x, hreach, hx, ho, { NetworkReceiver.new info with receivedMessage := x.message.bytes }, hload,
    hrelayed s H hreach 0 x hx (by rw [ho]; exact nofun) _ info 0 hload⟩

end ServerRoom
