import ServerRoom.Proof.Receive

/-!
# What the relay server decides about a frame

`handle_recvd_message` swaps two header fields of its copy before the checks and swaps
them back after. On network 0 none of this shows: a received frame is taken exactly if
it is authentic, and what is handed on is the received message itself (`verdict_eq`).
-/

namespace ServerRoom.Relay

open ByteMem

variable (C : Crypto) {b : Packed}

/-- The frame in a received message. -/
theorem loaded_recvd (b : Packed) : Loaded b (recvd b).wire := rfl

/-- The hton conversions undo the ntoh conversions. -/
theorem htonConversions_ntohConversions (m : NetworkMessage) :
    htonConversions (ntohConversions m) = m := by
  obtain ⟨b, n⟩ := m
  have hid : ∀ w, load32 (store32 b 9 w) 0 = load32 b 0 := fun w => load32_store32_disj b w (by omega)
  have hsw : ∀ (b : Packed) o, store32 (store32 b o (swap32 (load32 b o))) o (load32 b o) = b := by
    intro b o
    have := store32_swap32_twice b o
    rwa [load32_store32, swap32_swap32] at this
  unfold htonConversions ntohConversions Packed.setNetworkId Packed.networkId
    Packed.setHmacForServer Packed.hmacForServer htonl ntohl
  dsimp only
  rw [hid, load32_store32_disj _ _ (by omega), load32_store32, swap32_swap32,
    load32_store32_disj _ _ (by omega), load32_store32, swap32_swap32]
  -- the two swaps of the identifier meet once the signature's stores are moved out
  rw [store32_comm _ _ (load32 b 9) (by omega), hsw b 9, hsw b 0]

/-- Network 0 is the same in both byte orders. -/
theorem networkId_ntohConversions (m : NetworkMessage) :
    (ntohConversions m).bytes.networkId = 0 ↔ slice m.bytes 9 4 = List.replicate 4 0 := by
  unfold ntohConversions Packed.setNetworkId Packed.networkId Packed.setHmacForServer ntohl
  dsimp only
  rw [load32_store32_disj _ _ (by omega), load32_store32]
  have hz : bytes32 0 = List.replicate 4 0 := rfl
  rw [← hz, ← load32_eq_iff]
  constructor
  · intro h; rw [← swap32_swap32 (load32 m.bytes 9), h, swap32_zero]
  · intro h; rw [h, swap32_zero]

theorem isSignedBy_digestOf (m : NetworkMessage) : isSignedBy (digestOf C m) m =
    decide (C.hmac key (slice m.bytes 8 (m.messageLength - 8)) 4 = slice m.bytes 0 4) := rfl

/-- **The check of `handle_recvd_message` is the frame's authenticity.** -/
theorem isVerified_eq : isVerified C (ntohConversions (recvd b)) = Frame.isAuthentic C (recvd b).wire := by
  have hl := loaded_recvd b
  have hid := networkId_ntohConversions (recvd b)
  rw [show slice (recvd b).bytes 9 4 = Frame.region (recvd b).wire 9 4 from (hl.region (by omega)).symm] at hid
  unfold isVerified Frame.isAuthentic
  by_cases h0 : (ntohConversions (recvd b)).bytes.networkId = 0
  · -- the identifier is zero, so the signed bytes are those that were received
    have hz : load32 b 9 = 0 := by
      rw [load32_eq_iff]; exact (networkId_ntohConversions (recvd b)).1 h0
    have hb : (ntohConversions (recvd b)).bytes = store32 b 0 (swap32 (load32 b 0)) := by
      have hsame : store32 b 9 (swap32 (load32 b 9)) = b := by
        rw [hz, swap32_zero, ← hz]
        unfold store32
        rw [bytes32_load32, write_slice_self]
      show store32 (store32 b 9 (swap32 (load32 b 9))) 0
        (swap32 (load32 (store32 b 9 (swap32 (load32 b 9))) 0)) = _
      rw [hsame]
    have hcov : slice (ntohConversions (recvd b)).bytes 8 ((ntohConversions (recvd b)).messageLength - 8) =
        (recvd b).wire.drop 8 := by
      rw [hb, slice_store32_disj _ _ (by omega), hl.signed]; rfl
    have hsig : slice (ntohConversions (recvd b)).bytes 0 4 = (Frame.region (recvd b).wire 0 4).reverse := by
      rw [hb, slice_store32, bytes32_swap32, bytes32_load32, hl.region (by omega)]
    rw [if_neg (not_not.2 h0), isSignedBy_digestOf, hcov, hsig]
    refine decide_eq_decide.2 ?_
    rw [signature_eq]
    exact ⟨fun h => ⟨hid.1 h0, h⟩, fun h => h.2⟩
  · rw [if_pos h0]
    exact (decide_eq_false fun h => h0 (hid.2 h.1)).symm

theorem isPing_recvd : isPing (recvd b) = Frame.hasPingMarks (recvd b).wire :=
  (hasPingMarks_loaded (loaded_recvd b)).symm

/-- **What the relay server decides**, by the received bytes alone. A broadcast message is
the received one, unchanged. -/
theorem verdict_eq : verdict C (recvd b) =
    if Frame.isAuthentic C (recvd b).wire then
      if Frame.hasPingMarks (recvd b).wire then .ping else .broadcast (recvd b) 0
    else .rejected := by
  unfold verdict
  dsimp only
  rw [isVerified_eq, htonConversions_ntohConversions, isPing_recvd]
  by_cases ha : Frame.isAuthentic C (recvd b).wire = true
  · have hz : (recvd b).bytes.networkId = 0 := by
      have hreg := (of_decide_eq_true ha).1
      rw [(loaded_recvd b).region (by omega)] at hreg
      exact load32_eq_iff.2 hreg
    rw [ha, hz]; rfl
  · rw [Bool.not_eq_true] at ha
    rw [ha]; rfl

end ServerRoom.Relay
