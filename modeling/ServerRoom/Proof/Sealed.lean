import ServerRoom.Proof.Receive

/-!
# What `NetworkSender::send` writes

`Sealed` says what the bytes of a sent frame are, region by region, and
`buildMessage_sealed` that `buildMessage` produces it for every message type and every
payload of up to 255 bytes. `send_writes` says which bytes a successful `send` puts on
the wire.
-/

namespace ServerRoom

open ByteMem NetworkSender

variable (C : Crypto) (info : NetworkInfo)

/-- The bytes that are encrypted: the sender, the type, the filler and the payload. -/
def plainBytes (t : UInt8) (payload : List UInt8) : List UInt8 :=
  arduinoIdentifier ++ t :: List.replicate 7 0xFF ++ payload

/-- The bytes of a frame sent with type `t` and the given payload, region by region. -/
structure Sealed (t : UInt8) (payload : List UInt8) (m : Packed) : Prop where
  length : m.payloadLength.toNat = payload.length
  networkId : slice m 9 4 = (bytes32 info.networkId).reverse
  vector : slice m 16 8 = List.replicate 8 0xFF
  encrypted : slice m 32 (payload.length + 16) =
    C.ctr info.networkKey (C.hmac info.networkKey (List.replicate 8 0xFF) 16) (plainBytes t payload)
  server : slice m 0 4 = (C.hmac info.serverKey (slice m 8 (payload.length + 40)) 4).reverse
  network : slice m 4 4 = if t = 0 then List.replicate 4 0xFF else
    (C.hmac info.networkKey (slice m 8 (payload.length + 40)) 4).reverse

variable (stack : Packed) (t : UInt8) {payload : List UInt8} {n : UInt8}

/-- The encrypted region is the sender, the type, the filler and the payload. -/
theorem slice_plain (m : Packed) (k : ℕ) :
    slice m 32 (k + 16) = slice m 32 8 ++ [m 40] ++ slice m 41 7 ++ slice m 48 k := by
  rw [show k + 16 = 8 + 1 + 7 + k by omega, slice_append, slice_append, slice_append]
  rfl

/-- The header and payload before any conversion. -/
theorem generateMessage_spec (hn : n.toNat = payload.length) :
    (generateMessage info stack t payload n).payloadLength = n ∧
      slice (generateMessage info stack t payload n) 9 4 = bytes32 info.networkId ∧
      slice (generateMessage info stack t payload n) 16 8 = List.replicate 8 0xFF ∧
      slice (generateMessage info stack t payload n) 32 (payload.length + 16) =
        plainBytes t payload := by
  have hp : payload.take n.toNat = payload := by rw [hn]; exact List.take_length
  have ha : arduinoIdentifier.length = 8 := rfl
  have hr : ∀ k, (List.replicate k (0xFF : UInt8)).length = k := fun k => List.length_replicate
  unfold generateMessage Packed.setPayload Packed.setFutureUse2 Packed.setAesVector
    Packed.setFutureUse1 Packed.setSenderIdentifier Packed.setUnixTimestamp Packed.setMessageType
    Packed.setNetworkId Packed.setPayloadLength Packed.payloadLength
  rw [hp]
  refine ⟨?_, ?_, ?_, ?_⟩
  · simp (disch := simp [ha]) only [write_of_disj, store64_of_disj, store32_of_disj, put_of_ne, put_self]
  · simp (disch := simp [ha]) only [slice_write_disj, slice_store64_disj, slice_put_disj, slice_store32]
  · simp (disch := simp [ha]) only [slice_write_disj, slice_write_eq]
  · have hsender : ∀ m : Packed, slice (write m 32 arduinoIdentifier) 32 8 = arduinoIdentifier :=
      fun m => slice_write m 32 arduinoIdentifier
    rw [slice_plain]
    simp (disch := simp [ha]) only [slice_write_disj, slice_write_eq, hsender,
      write_of_disj, store64_of_disj, put_self]
    simp [plainBytes]

/-- Conversion to network order, then encryption of everything from byte 32 on. -/
theorem encryptMessage_spec (hn : n.toNat = payload.length) :
    let m := encryptMessage C info (htonHandling (generateMessage info stack t payload n))
    m.payloadLength = n ∧ slice m 9 4 = (bytes32 info.networkId).reverse ∧
      slice m 16 8 = List.replicate 8 0xFF ∧
      slice m 32 (payload.length + 16) =
        C.ctr info.networkKey (C.hmac info.networkKey (List.replicate 8 0xFF) 16)
          (plainBytes t payload) := by
  obtain ⟨h1, h2, h3, h4⟩ := generateMessage_spec info stack t hn
  generalize generateMessage info stack t payload n = g at *
  have hh : htonHandling g = store64 (store32 g 9 (swap32 (load32 g 9))) 24
      (htonll (Packed.unixTimestamp (store32 g 9 (swap32 (load32 g 9))))) := rfl
  have e1 : (htonHandling g).payloadLength = n := by
    rw [← h1, hh]
    rw [Packed.payloadLength_eq, Packed.payloadLength_eq, store64_of_disj _ _ (by omega),
      store32_of_disj _ _ (by omega)]
  have e2 : slice (htonHandling g) 9 4 = (bytes32 info.networkId).reverse := by
    rw [hh, slice_store64_disj _ _ (by omega), slice_store32, bytes32_swap32, bytes32_load32, h2]
  have e3 : (htonHandling g).aesVector = List.replicate 8 0xFF := by
    rw [← h3, hh]
    rw [Packed.aesVector_eq, slice_store64_disj _ _ (by omega), slice_store32_disj _ _ (by omega)]
  have e4 : slice (htonHandling g) 32 (payload.length + 16) = plainBytes t payload := by
    rw [← h4, hh]
    rw [slice_store64_disj _ _ (by omega), slice_store32_disj _ _ (by omega)]
  intro m
  have hm : m = write (htonHandling g) 32
      (C.ctr info.networkKey (C.hmac info.networkKey (List.replicate 8 0xFF) 16)
        (plainBytes t payload)) := by
    simp only [m]
    unfold encryptMessage
    dsimp only
    rw [e1, e3, hn, e4]
  have hl : (plainBytes t payload).length = payload.length + 16 := by
    simp [plainBytes, arduinoIdentifier]
  rw [hm]
  refine ⟨?_, ?_, ?_, slice_write_eq _ _ (by simpa using hl)⟩
  · rw [← e1, Packed.payloadLength_eq, Packed.payloadLength_eq, write_of_lt _ _ (by omega)]
  · rw [slice_write_disj _ _ (by omega), e2]
  · rw [slice_write_disj _ _ (by omega), ← Packed.aesVector_eq, e3]

/-- Both signatures are computed over the bytes from 8 on, which signing leaves alone. -/
theorem signMessage_spec (m : Packed) (hn : m.payloadLength.toNat = payload.length) :
    (signMessage C info m).payloadLength = m.payloadLength ∧
      (∀ off len, 8 ≤ off → slice (signMessage C info m) off len = slice m off len) ∧
      slice (signMessage C info m) 0 4 =
        (C.hmac info.serverKey (slice m 8 (payload.length + 40)) 4).reverse ∧
      slice (signMessage C info m) 4 4 =
        (C.hmac info.networkKey (slice m 8 (payload.length + 40)) 4).reverse := by
  have hl : ∀ key data, (C.hmac key data 4).length = 4 := fun key data => C.hmac_length key data (by omega)
  have hk : headerLength + m.payloadLength.toNat - 8 = payload.length + 40 := by
    rw [hn]; show 48 + _ - 8 = _; omega
  -- after the server signature
  set s : Packed := write m 0 (C.hmac info.serverKey (slice m 8 (payload.length + 40)) 4).reverse with hs
  have hs1 : s.payloadLength = m.payloadLength := by
    rw [hs, Packed.payloadLength_eq, Packed.payloadLength_eq, write_of_ge _ _ (by simp [hl])]
  have hs2 : slice s 8 (payload.length + 40) = slice m 8 (payload.length + 40) :=
    slice_write_disj _ _ (by simp [hl])
  have hsm : signMessage C info m =
      write s 4 (C.hmac info.networkKey (slice m 8 (payload.length + 40)) 4).reverse := by
    have hswap : ∀ (m : Packed) (off : ℕ) (bs : List UInt8), bs.length = 4 →
        store32 (write m off bs) off (swap32 (load32 (write m off bs) off)) = write m off bs.reverse := by
      intro m off bs hb
      rw [store32_swap32, slice_write_eq _ _ hb, write_write _ _ (by simp)]
    have hsrv : Packed.setHmacForServer (write m 0 (C.hmac info.serverKey (slice m 8 (payload.length + 40)) 4))
        (htonl (Packed.hmacForServer (write m 0 (C.hmac info.serverKey (slice m 8 (payload.length + 40)) 4)))) =
        s := hswap m 0 _ (hl _ _)
    unfold signMessage
    dsimp only
    rw [hk, hsrv, hs1, hk, hs2]
    exact hswap s 4 _ (hl _ _)
  rw [hsm]
  refine ⟨?_, ?_, ?_, slice_write_eq _ _ (by simp [hl])⟩
  · rw [← hs1, Packed.payloadLength_eq, Packed.payloadLength_eq, write_of_ge _ _ (by simp [hl])]
  · intro off len h8
    rw [slice_write_disj _ _ (by simp [hl]; omega), hs, slice_write_disj _ _ (by simp [hl]; omega)]
  · rw [slice_write_disj _ _ (by simp), hs]
    exact slice_write_eq _ _ (by simp [hl])

/-- **Every message that `send` builds is sealed.** -/
theorem buildMessage_sealed (hn : n.toNat = payload.length) :
    Sealed C info t payload (buildMessage C info stack t payload n) := by
  obtain ⟨e1, e2, e3, e4⟩ := encryptMessage_spec C info stack t hn
  generalize hm : encryptMessage C info (htonHandling (generateMessage info stack t payload n)) = m at *
  obtain ⟨s1, s2, s3, s4⟩ := signMessage_spec C info m (e1 ▸ hn : m.payloadLength.toNat = payload.length)
  have hb : buildMessage C info stack t payload n =
      if t = 0 then (signMessage C info m).setHmacForNetwork 0xFFFFFFFF else signMessage C info m := by
    unfold buildMessage
    dsimp only
    rw [hm]
  rw [hb]
  by_cases ht : t = 0
  · rw [if_pos ht]
    unfold Packed.setHmacForNetwork
    refine ⟨?_, ?_, ?_, ?_, ?_, ?_⟩
    · rw [Packed.payloadLength_eq, store32_of_disj _ _ (by omega),
        ← Packed.payloadLength_eq (signMessage C info m), s1, e1, hn]
    · rw [slice_store32_disj _ _ (by omega), s2 _ _ (by omega), e2]
    · rw [slice_store32_disj _ _ (by omega), s2 _ _ (by omega), e3]
    · rw [slice_store32_disj _ _ (by omega), s2 _ _ (by omega), e4]
    · rw [slice_store32_disj _ _ (by omega), s3, slice_store32_disj _ _ (by omega), s2 _ _ (by omega)]
    · rw [slice_store32, if_pos ht]; rfl
  · rw [if_neg ht]
    refine ⟨?_, ?_, ?_, ?_, ?_, ?_⟩
    · rw [s1, e1, hn]
    · rw [s2 _ _ (by omega), e2]
    · rw [s2 _ _ (by omega), e3]
    · rw [s2 _ _ (by omega), e4]
    · rw [s3, s2 _ _ (by omega)]
    · rw [s4, s2 _ _ (by omega), if_neg ht]

/-! ## What goes over the wire -/

/-- The loop writes the bytes from `sent` on, one after the other. -/
theorem writeLoop_spec (m : Packed) (len : ℕ) (write : ℕ → Bool) (left : ℕ) : ∀ tries sent, sent ≤ len →
    (writeLoop m len write left tries sent).1 ≤ len ∧
      ∃ k, (writeLoop m len write left tries sent).1 = sent + k ∧
        (writeLoop m len write left tries sent).2 = slice m sent k := by
  induction left with
  | zero => intro tries sent h; exact ⟨h, 0, rfl, rfl⟩
  | succ left ih =>
    intro tries sent h
    unfold writeLoop
    by_cases hs : sent < len
    · rw [if_pos hs]
      cases hw : write tries with
      | false => simpa [hw] using ih (tries + 1) sent h
      | true =>
        obtain ⟨h1, k, h2, h3⟩ := ih (tries + 1) (sent + 1) hs
        refine ⟨by simpa [hw] using h1, 1 + k, by simp [h2]; omega, ?_⟩
        rw [slice_append]
        simp [h3, slice]
    · rw [if_neg hs]
      exact ⟨h, 0, rfl, rfl⟩

/-- **A successful `send` writes exactly the built message.** -/
theorem send_writes (link : Link) (hn : n.toNat = payload.length)
    (hs : (send C info stack link t payload n).1 = true) :
    (send C info stack link t payload n).2.client.outgoing =
      info.client.outgoing ++ slice (buildMessage C info stack t payload n) 0 (48 + payload.length) := by
  have hmax : ¬ n.toNat > maxPayloadLength := by
    have := n.toNat_lt
    show ¬ _ > 255
    omega
  have hlen : (buildMessage C info stack t payload n).payloadLength.toNat + headerLength =
      48 + payload.length := by
    rw [(buildMessage_sealed C info stack t hn).length, Nat.add_comm]; rfl
  obtain ⟨-, k, h1, h2⟩ := writeLoop_spec (buildMessage C info stack t payload n) (48 + payload.length)
    link.write (sendTries * (48 + payload.length)) 0 0 (Nat.zero_le _)
  unfold send ethernetSendMessage at hs ⊢
  rw [if_neg hmax] at hs ⊢
  dsimp only at hs ⊢
  rw [hlen] at hs ⊢
  cases hc : link.connected with
  | false => simp [hc] at hs
  | true =>
    simp only [hc, Bool.not_true, Bool.false_eq_true, if_false, decide_eq_true_eq] at hs ⊢
    rw [h2]
    congr 2
    omega

end ServerRoom
