import ServerRoom.Proof.Reassembly
import ServerRoom.Proof.Sealed
import ServerRoom.Proof.Verdict
import ServerRoom.Spec.Handler

/-!
# From one Arduino to another

A frame that `NetworkSender::send` wrote, the relay server's verdict on it, and what a
receiver that reads it in any pieces hands on.

* `feed_deliver`: a frame read in any pieces gives what `deliver` says.
* `deliver_sealed`: what `deliver` says of a sent frame.
* `delivery_exact`: the way from `send` through the relay to `receive`.
* `ids_separate_iff`: for which network identifiers the receiver tells networks apart.
-/

namespace ServerRoom

open ByteMem Framing NetworkReceiver NetworkSender

variable (C : Crypto)

/-! ## A frame in pieces -/

/-- The receiver is between frames, in step with the connection, and all is read. -/
structure Waiting (rx : NetworkReceiver) (info : NetworkInfo) : Prop where
  idle : Idle rx
  synced : rx.connectionNumber = info.connectionNumber
  read : info.client.incoming = []

/-- Once a message is there, calls of `loop` that find no byte leave it. -/
theorem feed_received (rx : NetworkReceiver) (chunks : List (UInt32 × List UInt8)) :
    ∀ {info : NetworkInfo}, rx.connectionNumber = info.connectionNumber → info.client.incoming = [] →
      (chunks.map (·.2)).flatten = [] → (feed C (rx, info) chunks).1 = rx := by
  induction chunks with
  | nil => intro info _ _ _; rfl
  | cons c cs ih =>
    intro info hsync hin hc
    obtain ⟨now, bytes⟩ := c
    rw [List.map_cons, List.flatten_cons] at hc
    obtain ⟨hb, hcs⟩ := List.append_eq_nil_iff.1 hc
    change bytes = [] at hb
    subst hb
    have hfill : fill rx info = ⟨rx, info, false⟩ := by
      unfold fill syncConnection
      simp [hsync, hin]
    have hsame : { info with client := { info.client with incoming := info.client.incoming ++ [] } } = info := by
      rw [List.append_nil]
    have hl : NetworkReceiver.loop C now rx info = (rx, info, []) := by
      unfold NetworkReceiver.loop
      simp [hfill]
    have hfeed : feed C (rx, info) ((now, []) :: cs) =
        feed C ((NetworkReceiver.loop C now rx info).1, (NetworkReceiver.loop C now rx info).2.1) cs := by
      conv_rhs => rw [← hsame]
      rfl
    rw [hfeed, hl]
    exact ih hsync hin hcs

/-- **A frame read in any pieces**: whatever part of it is in the buffer already, once the
rest is read a message is there if and only if `deliver` gives one, and it is that one. -/
theorem feed_deliver (chunks : List (UInt32 × List UInt8)) : ∀ {rx : NetworkReceiver} {info : NetworkInfo},
    Waiting rx info →
    wireFormat.IsFrame (slice rx.receivedMessage 0 rx.index ++ (chunks.map (·.2)).flatten) →
    (feed C (rx, info) chunks).1.isReceived =
        (Frame.deliver C info (slice rx.receivedMessage 0 rx.index ++ (chunks.map (·.2)).flatten)).isSome ∧
      ∀ msg, Frame.deliver C info (slice rx.receivedMessage 0 rx.index ++ (chunks.map (·.2)).flatten) = some msg →
        (feed C (rx, info) chunks).1.receive.1 = msg := by
  induction chunks with
  | nil =>
    intro rx info hw hf
    exact absurd (by simpa using hf.hasFrame) hw.idle.rest
  | cons c cs ih =>
    intro rx info hw hf
    obtain ⟨now, bytes⟩ := c
    -- what this call of `loop` meets
    set info' : NetworkInfo :=
      { info with client := { info.client with incoming := info.client.incoming ++ bytes } } with hinfo'
    have hin : info'.client.incoming = bytes := by
      show info.client.incoming ++ bytes = bytes
      rw [hw.read, List.nil_append]
    have htail : tailFor rx info' = slice rx.receivedMessage 0 rx.index := if_pos hw.synced
    have hdel : ∀ (q : List UInt8) t f, Frame.deliver C
        { info' with client := { info'.client with incoming := q }, lastPokeFromServer := t } f =
        Frame.deliver C info f := fun _ _ _ => rfl
    obtain ⟨hcn, ⟨q, t, h2⟩, hcons, hcases⟩ := loop_spec C info' now hw.idle
    rw [htail] at hcases
    rw [hin, h2] at hcons
    have hfeed : feed C (rx, info) ((now, bytes) :: cs) =
        feed C ((NetworkReceiver.loop C now rx info').1, (NetworkReceiver.loop C now rx info').2.1) cs := rfl
    rw [hfeed]
    simp only [List.map_cons, List.flatten_cons] at hf ⊢
    rw [← List.append_assoc] at hf ⊢
    rcases hcases with ⟨-, -, hidle, hbuf, hrest⟩ | ⟨-, hframe, hres⟩
    · -- the frame is still incomplete: the rest of the pieces completes it
      rw [h2] at hrest
      have hq : q = [] := hrest
      subst hq
      have hbytes : consumed rx info' = bytes := by simpa using hcons.symm
      rw [hbytes] at hbuf
      have hw' : Waiting (NetworkReceiver.loop C now rx info').1 (NetworkReceiver.loop C now rx info').2.1 :=
        ⟨hidle, by rw [hcn, h2], by rw [h2]⟩
      have := ih hw' (by rw [hbuf]; exact hf)
      rw [hbuf, h2, hdel] at this
      rw [h2]
      exact this
    · -- this call completes it, so nothing follows
      have hb : slice rx.receivedMessage 0 rx.index ++ bytes =
          slice rx.receivedMessage 0 rx.index ++ consumed rx info' ++ q := by
        rw [List.append_assoc, ← hcons]
      rw [hb] at hf ⊢
      have hnil : q ++ (cs.map (·.2)).flatten = [] :=
        hframe.append_eq_nil (by rw [← List.append_assoc]; exact hf)
      obtain ⟨hq, hcs⟩ := List.append_eq_nil_iff.1 hnil
      subst hq
      rw [hcs, List.append_nil, List.append_nil]
      rw [feed_received C _ cs (by rw [hcn, h2]) (by rw [h2]) hcs]
      have hd : Frame.deliver C info' (slice rx.receivedMessage 0 rx.index ++ consumed rx info') =
          Frame.deliver C info (slice rx.receivedMessage 0 rx.index ++ consumed rx info') := rfl
      rw [hd] at hres
      cases hmsg : Frame.deliver C info (slice rx.receivedMessage 0 rx.index ++ consumed rx info') with
      | none =>
        rw [hmsg] at hres
        exact ⟨hres.1, by simp⟩
      | some msg =>
        rw [hmsg] at hres
        refine ⟨hres.1, ?_⟩
        intro msg' he
        cases he
        rw [hres.2]

/-! ## A sent frame -/

section Sent

variable {sender receiver : NetworkInfo} {t : UInt8} {payload : List UInt8} {m : Packed}

/-- The bytes of a sealed message on the wire. -/
theorem Sealed.loaded (h : Sealed C sender t payload m) : Loaded m (slice m 0 (48 + payload.length)) := by
  unfold Loaded
  rw [h.length]; rfl

/-- What the signatures of a sealed message cover. -/
theorem Sealed.signed (h : Sealed C sender t payload m) :
    (slice m 0 (48 + payload.length)).drop 8 = slice m 8 (payload.length + 40) := by
  rw [(h.loaded C).signed, h.length]
  congr 1
  show 48 + _ - 8 = _
  omega

/-- The relay takes every sealed frame of network 0 that is signed with its key. -/
theorem Sealed.isAuthentic (h : Sealed C sender t payload m) (hid : sender.networkId = 0)
    (hkey : sender.serverKey = Relay.key) :
    Frame.isAuthentic C (slice m 0 (48 + payload.length)) = true := by
  have hl := h.loaded C
  unfold Frame.isAuthentic Frame.signature
  rw [hl.region (by omega), hl.region (by omega), h.networkId, hid, h.signed, h.server, hkey]
  exact decide_eq_true ⟨rfl, rfl⟩

/-- **A sealed frame that is not a ping looks like one only by accident**: without payload,
and with a network signature of four `0xFF`. -/
theorem Sealed.hasPingMarks (h : Sealed C sender t payload m) (ht : t ≠ 0) :
    Frame.hasPingMarks (slice m 0 (48 + payload.length)) = true ↔
      payload = [] ∧ C.hmac sender.networkKey ((slice m 0 (48 + payload.length)).drop 8) 4 =
        List.replicate 4 0xFF := by
  have hl := h.loaded C
  have hlen : (slice m 0 (48 + payload.length)).getD 8 0 = 0 ↔ payload = [] := by
    rw [hl.getD (by omega), ← List.length_eq_zero_iff, ← h.length]
    exact ⟨fun h0 => by rw [Packed.payloadLength_eq, h0]; rfl,
      fun h0 => UInt8.toNat_inj.1 h0⟩
  have hrev : ∀ bs : List UInt8, bs.reverse = List.replicate 4 0xFF ↔ bs = List.replicate 4 0xFF := by
    intro bs
    rw [List.reverse_eq_iff, List.reverse_replicate]
  unfold Frame.hasPingMarks
  rw [decide_eq_true_iff, hlen, hl.region (by omega), hl.region (by omega), h.network, if_neg ht,
    h.vector, hrev, h.signed]
  exact ⟨fun h => ⟨h.1, h.2.1⟩, fun h => ⟨h.1, h.2, rfl⟩⟩

/-- **A receiver takes a sealed frame exactly if its identifier is the byte reverse of the
sender's**: the sender reverses its identifier, the receiver compares before reversing. -/
theorem Sealed.isValid (h : Sealed C sender t payload m) (ht : t ≠ 0)
    (hnet : receiver.networkKey = sender.networkKey) :
    Frame.isValid C receiver (slice m 0 (48 + payload.length)) = true ↔
      swap32 sender.networkId = receiver.networkId := by
  have hl := h.loaded C
  unfold Frame.isValid Frame.signature
  rw [decide_eq_true_iff, hl.region (by omega), hl.region (by omega), h.networkId, h.network,
    if_neg ht, h.signed, hnet, ← bytes32_swap32]
  exact ⟨fun h => bytes32_inj h.1, fun h => ⟨by rw [h], rfl⟩⟩

/-- What a sent message is to the Arduino that gets it. -/
def sentMessage (t : UInt8) (payload : List UInt8) : Message where
  senderIdentifier := arduinoIdentifier ++ [0]
  messageType := t
  payloadLength := UInt8.ofNat payload.length
  payload := payload ++ List.replicate (maxPayloadLength + 1 - payload.length) 0

/-- Decryption gives back the message that was sent. -/
theorem Sealed.message (h : Sealed C sender t payload m) (hnet : receiver.networkKey = sender.networkKey) :
    Frame.message C receiver (slice m 0 (48 + payload.length)) = sentMessage t payload := by
  have hl := h.loaded C
  have hplain : Frame.plain C receiver (slice m 0 (48 + payload.length)) = plainBytes t payload := by
    unfold Frame.plain
    rw [hl.encrypted, h.length, hl.region (by omega), h.vector, h.encrypted, hnet, Crypto.ctr_ctr]
  have hlen : (slice m 0 (48 + payload.length)).getD 8 0 = UInt8.ofNat payload.length := by
    rw [hl.getD (by omega), ← h.length, UInt8.ofNat_toNat]; rfl
  unfold Frame.message sentMessage
  rw [hplain, hlen]
  rfl

/-- **What `deliver` says of a sent frame.** -/
theorem deliver_sealed (h : Sealed C sender t payload m) (ht : t ≠ 0)
    (hnet : receiver.networkKey = sender.networkKey)
    (hping : Frame.hasPingMarks (slice m 0 (48 + payload.length)) = false) :
    Frame.deliver C receiver (slice m 0 (48 + payload.length)) =
      if swap32 sender.networkId = receiver.networkId then some (sentMessage t payload) else none := by
  have hp : Frame.isPing C receiver (slice m 0 (48 + payload.length)) = false := by
    unfold Frame.isPing; simp [hping]
  unfold Frame.deliver
  rw [hp, h.message C hnet]
  simp only [Bool.false_eq_true, if_false, h.isValid C ht hnet]

end Sent

/-! ## The whole way -/

/-- A receiver at the start of a frame. -/
structure AtFrameStart (rx : NetworkReceiver) (info : NetworkInfo) : Prop extends Waiting rx info where
  index : rx.index = 0

/-- A receiver that has read a sealed frame, in any pieces. -/
theorem feed_sealed {sender receiver : NetworkInfo} {t : UInt8} {payload : List UInt8} {m : Packed}
    {rx : NetworkReceiver} (h : Sealed C sender t payload m) (ht : t ≠ 0)
    (hnet : receiver.networkKey = sender.networkKey) (hrx : AtFrameStart rx receiver)
    (hping : Frame.hasPingMarks (slice m 0 (48 + payload.length)) = false)
    {chunks : List (UInt32 × List UInt8)}
    (hc : (chunks.map (·.2)).flatten = slice m 0 (48 + payload.length)) :
    ((feed C (rx, receiver) chunks).1.isReceived = true ↔ swap32 sender.networkId = receiver.networkId) ∧
      (swap32 sender.networkId = receiver.networkId →
        (feed C (rx, receiver) chunks).1.receive.1 = sentMessage t payload) := by
  have hfeed := feed_deliver C chunks hrx.toWaiting (by
    rw [hrx.index, slice_zero, List.nil_append, hc]; exact (h.loaded C).isFrame)
  rw [hrx.index, slice_zero, List.nil_append, hc, deliver_sealed C h ht hnet hping] at hfeed
  obtain ⟨h1, h2⟩ := hfeed
  by_cases hid : swap32 sender.networkId = receiver.networkId
  · rw [if_pos hid] at h1 h2
    exact ⟨⟨fun _ => hid, fun _ => h1⟩, fun _ => h2 _ rfl⟩
  · rw [if_neg hid] at h1
    exact ⟨⟨fun hr => by rw [h1] at hr; simp at hr, fun hi => absurd hi hid⟩, fun hi => absurd hi hid⟩

/-- `send_message` that sends everything sends the message's bytes. -/
theorem sendMessage_wire {m : Relay.NetworkMessage} {results : List (Option ℕ)}
    (h : (Relay.sendMessage m results).1 = true) : (Relay.sendMessage m results).2 = m.wire := by
  unfold Relay.sendMessage at h ⊢
  dsimp only at h ⊢
  rw [of_decide_eq_true h]
  rfl

/-- **Delivery is exact.** A message other than a ping, sent with network identifier 0 and
the relay's key, is broadcast unchanged by the relay server, and a receiver that reads
the relayed bytes in any pieces hands on exactly that message. The only exception is a
frame that collides with the ping marks; the relay takes it for a ping. -/
theorem delivery_exact (sender receiver : NetworkInfo) (stack : Packed) (link : Link) (t n : UInt8)
    (payload : List UInt8) (hn : n.toNat = payload.length) (ht : t ≠ 0)
    (hid : sender.networkId = 0) (hkey : sender.serverKey = Relay.key)
    (hid' : receiver.networkId = 0) (hnet : receiver.networkKey = sender.networkKey)
    (hs : (send C sender stack link t payload n).1 = true) :
    ∃ f, (send C sender stack link t payload n).2.client.outgoing = sender.client.outgoing ++ f ∧
      ∀ b : Packed, slice b 0 f.length = f →
        if payload = [] ∧ C.hmac sender.networkKey (f.drop 8) 4 = List.replicate 4 0xFF then
          Relay.verdict C (Relay.recvd b) = .ping
        else ∃ m, Relay.verdict C (Relay.recvd b) = .broadcast m 0 ∧ m.wire = f ∧
          ∀ results, (Relay.sendMessage m results).1 = true →
            ∀ rx, AtFrameStart rx receiver →
              ∀ chunks, (chunks.map (·.2)).flatten = (Relay.sendMessage m results).2 →
                (feed C (rx, receiver) chunks).1.isReceived = true ∧
                  (feed C (rx, receiver) chunks).1.receive.1 = sentMessage t payload := by
  have hsealed := buildMessage_sealed C sender stack t hn
  have hout := send_writes C sender stack t link hn hs
  generalize buildMessage C sender stack t payload n = m at hsealed hout
  refine ⟨slice m 0 (48 + payload.length), hout, ?_⟩
  intro b hb
  -- the relay's buffer holds the frame
  have hf : wireFormat.IsFrame (slice m 0 (48 + payload.length)) := (hsealed.loaded C).isFrame
  rw [slice_length] at hb
  obtain ⟨hk, -⟩ := loaded_of_isFrame (m := b) (k := 48 + payload.length) (by rw [hb]; exact hf)
  have hwire : (Relay.recvd b).wire = slice m 0 (48 + payload.length) := by
    rw [← hb, hk]; rfl
  rw [Relay.verdict_eq, hwire, hsealed.isAuthentic C hid hkey]
  have hmarks := hsealed.hasPingMarks C ht
  split
  · rename_i hcol
    rw [hmarks.2 hcol]; rfl
  · rename_i hcol
    have hping : Frame.hasPingMarks (slice m 0 (48 + payload.length)) = false := by
      rw [← Bool.not_eq_true, hmarks]; exact hcol
    refine ⟨Relay.recvd b, by rw [hping]; rfl, hwire, ?_⟩
    intro results hr rx hrx chunks hc
    rw [sendMessage_wire hr, hwire] at hc
    obtain ⟨h1, h2⟩ := feed_sealed C hsealed ht hnet hrx hping hc
    have hzero : swap32 sender.networkId = receiver.networkId := by rw [hid, hid', swap32_zero]
    exact ⟨h1.2 hzero, h2 hzero⟩

/-- One byte of payload, sent and delivered on network 0. -/
theorem delivery_exact_one :
    let info := NetworkInfo.new 0 Relay.key (Vector.replicate 16 1) 0 0
    let sent := send Crypto.zero info (fun _ => 0) ⟨true, fun _ => true⟩ 0x50 [0x31] 1
    ∃ f, sent.2.client.outgoing = [] ++ f ∧
      ∀ b : Packed, slice b 0 f.length = f →
        if [0x31] = ([] : List UInt8) ∧
            Crypto.zero.hmac info.networkKey (f.drop 8) 4 = List.replicate 4 0xFF then
          Relay.verdict Crypto.zero (Relay.recvd b) = .ping
        else ∃ m, Relay.verdict Crypto.zero (Relay.recvd b) = .broadcast m 0 ∧ m.wire = f ∧
          ∀ results, (Relay.sendMessage m results).1 = true →
            ∀ rx, AtFrameStart rx info →
              ∀ chunks, (chunks.map (·.2)).flatten = (Relay.sendMessage m results).2 →
                (feed Crypto.zero (rx, info) chunks).1.isReceived = true ∧
                  (feed Crypto.zero (rx, info) chunks).1.receive.1 = sentMessage 0x50 [0x31] :=
  delivery_exact Crypto.zero (NetworkInfo.new 0 Relay.key (Vector.replicate 16 1) 0 0)
    (NetworkInfo.new 0 Relay.key (Vector.replicate 16 1) 0 0) (fun _ => 0) ⟨true, fun _ => true⟩ 0x50 1
    [0x31] rfl (by decide) rfl rfl rfl rfl (by decide)

/-! ## Network identifiers -/

/-- Where the receiver tells two identifiers apart correctly: it takes its own identifier
only if that reads the same backwards, and another one only if it is its own backwards. -/
def IdsTold (a b : UInt32) : Prop := if a = b then swap32 a = a else swap32 a ≠ b

/-- **When identifiers separate networks.** What a receiver with identifier `b` makes of a
frame sent with identifier `a` is right exactly when `IdsTold a b`. -/
theorem ids_separate_iff (sender receiver : NetworkInfo) (stack : Packed) (link : Link) (t n : UInt8)
    (payload : List UInt8) (hn : n.toNat = payload.length) (hpos : payload ≠ []) (ht : t ≠ 0)
    (hnet : receiver.networkKey = sender.networkKey)
    (hs : (send C sender stack link t payload n).1 = true) :
    ∃ f, (send C sender stack link t payload n).2.client.outgoing = sender.client.outgoing ++ f ∧
      ∀ rx, AtFrameStart rx receiver → ∀ chunks, (chunks.map (·.2)).flatten = f →
        (((feed C (rx, receiver) chunks).1.isReceived = true ↔ sender.networkId = receiver.networkId) ↔
          IdsTold sender.networkId receiver.networkId) := by
  have hsealed := buildMessage_sealed C sender stack t hn
  have hout := send_writes C sender stack t link hn hs
  generalize buildMessage C sender stack t payload n = m at hsealed hout
  refine ⟨slice m 0 (48 + payload.length), hout, ?_⟩
  intro rx hrx chunks hc
  have hping : Frame.hasPingMarks (slice m 0 (48 + payload.length)) = false := by
    rw [← Bool.not_eq_true, hsealed.hasPingMarks C ht]
    exact fun h => hpos h.1
  rw [(feed_sealed C hsealed ht hnet hrx hping hc).1]
  unfold IdsTold
  by_cases hab : sender.networkId = receiver.networkId
  · rw [if_pos hab, ← hab]
    exact ⟨fun h => h.2 rfl, fun h => ⟨fun _ => rfl, fun _ => h⟩⟩
  · rw [if_neg hab]
    exact ⟨fun h hsw => hab (h.1 hsw), fun h => ⟨fun hsw => absurd hsw h, fun he => absurd he hab⟩⟩

/-- Two networks with identifiers 0 and 2, told apart. -/
theorem ids_separate_iff_zero_two :
    let sender := NetworkInfo.new 0 Relay.key Relay.key 0 0
    let receiver := NetworkInfo.new 2 Relay.key Relay.key 0 0
    let sent := send Crypto.zero sender (fun _ => 0) ⟨true, fun _ => true⟩ 0x50 [0x31] 1
    ∃ f, sent.2.client.outgoing = [] ++ f ∧
      ∀ rx, AtFrameStart rx receiver → ∀ chunks, (chunks.map (·.2)).flatten = f →
        (((feed Crypto.zero (rx, receiver) chunks).1.isReceived = true ↔ (0 : UInt32) = 2) ↔ IdsTold 0 2) :=
  ids_separate_iff Crypto.zero (NetworkInfo.new 0 Relay.key Relay.key 0 0)
    (NetworkInfo.new 2 Relay.key Relay.key 0 0) (fun _ => 0) ⟨true, fun _ => true⟩ 0x50 1 [0x31]
    rfl (by decide) (by decide) rfl (by decide)

/-- Both ends have identifier 1, and the receiver does not take the frame. -/
theorem ids_not_separate_one :
    let info := NetworkInfo.new 1 Relay.key Relay.key 0 0
    let sent := send Crypto.zero info (fun _ => 0) ⟨true, fun _ => true⟩ 0x50 [0x31] 1
    sent.1 = true ∧
      (feed Crypto.zero (NetworkReceiver.new info, info) [(0, sent.2.client.outgoing)]).1.isReceived = false := by
  intro info sent
  have hs : sent.1 = true := by decide
  refine ⟨hs, ?_⟩
  have hn : (1 : UInt8).toNat = [(0x31 : UInt8)].length := rfl
  have hout := send_writes Crypto.zero info (fun _ => 0) 0x50 ⟨true, fun _ => true⟩ hn hs
  have hsealed := buildMessage_sealed Crypto.zero info (fun _ => 0) 0x50 hn
  have hrx : AtFrameStart (NetworkReceiver.new info) info :=
    { idle := .of_index_zero rfl rfl, synced := rfl, read := rfl, index := rfl }
  have hping : Frame.hasPingMarks (slice (buildMessage Crypto.zero info (fun _ => 0) 0x50 [0x31] 1) 0
      (48 + [(0x31 : UInt8)].length)) = false := by
    rw [← Bool.not_eq_true, hsealed.hasPingMarks Crypto.zero (by decide)]
    exact fun h => absurd h.1 (by simp)
  have hchunks : ([((0 : UInt32), sent.2.client.outgoing)].map (·.2)).flatten =
      slice (buildMessage Crypto.zero info (fun _ => 0) 0x50 [0x31] 1) 0 (48 + [(0x31 : UInt8)].length) := by
    simpa using hout.trans (List.nil_append _)
  have hfed := (feed_sealed Crypto.zero hsealed (by decide) rfl hrx hping hchunks).1
  rw [← Bool.not_eq_true, hfed]
  decide

end ServerRoom
