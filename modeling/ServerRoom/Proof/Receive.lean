import ServerRoom.Spec.Frame

/-!
# Processing one frame

When the buffer holds the complete frame `f` (`Loaded`), `finish` does with it exactly
what the abstract side says: it leaves a received message in the buffer if and only if
`deliver f` is one, and `receive` then returns that message (`finish_deliver`).
Otherwise the buffer is empty again.
-/

namespace ServerRoom

open ByteMem

variable (C : Crypto) (info : NetworkInfo) {rx : NetworkReceiver} {m : Packed} {f : List UInt8}

/-- The memory `m` holds the frame `f`. -/
def Loaded (m : Packed) (f : List UInt8) : Prop :=
  f = slice m 0 (headerLength + m.payloadLength.toNat)

namespace Loaded

theorem length (h : Loaded m f) : f.length = 48 + m.payloadLength.toNat := by
  rw [h, slice_length]; rfl

theorem region (h : Loaded m f) {off len : ℕ} (hle : off + len ≤ 48 + m.payloadLength.toNat) :
    Frame.region f off len = slice m off len := by
  have hn : headerLength + m.payloadLength.toNat = 48 + m.payloadLength.toNat := rfl
  unfold Frame.region
  rw [h, slice_drop _ _ (by omega), slice_take _ _ (by omega), Nat.zero_add]

theorem getD (h : Loaded m f) {i : ℕ} (hi : i < 48 + m.payloadLength.toNat) : f.getD i 0 = m i := by
  have hl := h.length
  have hg : f[i]? = (slice m 0 (headerLength + m.payloadLength.toNat))[i]? := congrArg (·[i]?) h
  rw [List.getD_eq_getElem?_getD, hg]
  simp [slice, List.getElem?_range (show i < headerLength + m.payloadLength.toNat from hi)]

/-- What both signatures cover. -/
theorem signed (h : Loaded m f) : f.drop 8 = slice m 8 (headerLength + m.payloadLength.toNat - 8) := by
  have hn : headerLength = 48 := rfl
  rw [h, slice_drop _ _ (by omega), Nat.zero_add]

/-- What is encrypted. -/
theorem encrypted (h : Loaded m f) : f.drop 32 = slice m 32 (m.payloadLength.toNat + 16) := by
  have hn : headerLength = 48 := rfl
  rw [h, slice_drop _ _ (by omega), Nat.zero_add]
  congr 1; omega

theorem isFrame (h : Loaded m f) : wireFormat.IsFrame f := by
  have hl := h.length
  have h8 : (f.take 48).getD 8 0 = m 8 := by
    rw [← h.getD (by omega), List.getD_eq_getElem _ _ (by simp; omega),
      List.getD_eq_getElem _ _ (by omega), List.getElem_take]
  show f.length = 48 + ((f.take 48).getD 8 0).toNat
  rw [h8, hl]; rfl

end Loaded

/-- Comparing a signature with four reversed bytes is comparing its reverse with them. -/
theorem signature_eq {key : Key} {bs : List UInt8} :
    C.hmac key (f.drop 8) 4 = bs.reverse ↔ bs = Frame.signature C key f := by
  unfold Frame.signature
  constructor
  · intro h; rw [h, List.reverse_reverse]
  · intro h; rw [h, List.reverse_reverse]

/-- The marks of a ping, read off the buffer. -/
theorem hasPingMarks_loaded (h : Loaded m f) :
    Frame.hasPingMarks f = decide (m.payloadLength = 0x00 ∧ m.hmacForNetwork = 0xFFFFFFFF ∧
      m.aesVectorWord = 0xFFFFFFFFFFFFFFFF) := by
  have hlen : f.getD 8 0 = m.payloadLength := h.getD (by omega)
  have hmark : m.hmacForNetwork = 0xFFFFFFFF ↔ Frame.region f 4 4 = List.replicate 4 0xFF := by
    rw [h.region (by omega)]; exact load32_eq_iff
  have hvec : m.aesVectorWord = 0xFFFFFFFFFFFFFFFF ↔
      Frame.region f 16 8 = List.replicate 8 0xFF := by
    rw [h.region (by omega)]; exact load64_eq_iff
  unfold Frame.hasPingMarks
  refine decide_eq_decide.2 ?_
  rw [hlen, hmark, hvec]

/-- An authenticated ping, read off the buffer. -/
theorem isPing_loaded (h : Loaded m f) :
    Frame.isPing C info f = decide (m.payloadLength = 0x00 ∧ m.hmacForNetwork = 0xFFFFFFFF ∧
      m.aesVectorWord = 0xFFFFFFFFFFFFFFFF ∧
      C.hmac info.serverKey (f.drop 8) 4 = (slice m 0 4).reverse) := by
  unfold Frame.isPing
  refine decide_eq_decide.2 ?_
  rw [hasPingMarks_loaded h, decide_eq_true_iff, ← h.region (by omega), signature_eq]
  simp only [and_assoc]

/-- **`handle_ping_message` recognises exactly the authenticated pings**, and leaves the
buffer as it was. -/
theorem handlePingMessage_eq (now : UInt32) (h : Loaded rx.receivedMessage f) :
    NetworkReceiver.handlePingMessage C now rx info =
      (Frame.isPing C info f, rx,
        if Frame.isPing C info f then { info with lastPokeFromServer := now } else info) := by
  obtain ⟨m, r, cn, i⟩ := rx
  -- the signature is swapped and swapped back, so the buffer is what it was
  have hback : (m.setHmacForServer (ntohl m.hmacForServer)).setHmacForServer
      (htonl (m.setHmacForServer (ntohl m.hmacForServer)).hmacForServer) = m :=
    store32_swap32_twice m 0
  have hrev : slice (m.setHmacForServer (ntohl m.hmacForServer)) 0 4 = (slice m 0 4).reverse := by
    show slice (store32 m 0 (swap32 (load32 m 0))) 0 4 = _
    rw [slice_store32, bytes32_swap32, bytes32_load32]
  rw [isPing_loaded C info h]
  unfold NetworkReceiver.handlePingMessage
  dsimp only
  rw [hback, hrev, ← h.signed]
  by_cases h1 : m.payloadLength = 0x00
  · by_cases h2 : m.hmacForNetwork = 0xFFFFFFFF
    · by_cases h3 : m.aesVectorWord = 0xFFFFFFFFFFFFFFFF
      · by_cases h4 : C.hmac info.serverKey (f.drop 8) 4 = (slice m 0 4).reverse <;>
          simp [h1, h2, h3, h4]
      · simp [h1, h2, h3]
    · simp [h1, h2]
  · simp [h1]

/-- The buffer after `is_valid_message` accepted it: the network signature is swapped. -/
def afterValid (m : Packed) : Packed := m.setHmacForNetwork (ntohl m.hmacForNetwork)

/-- **`is_valid_message` accepts exactly the messages of this network.** -/
theorem isValidMessage_eq (h : Loaded rx.receivedMessage f) (hi : rx.index = f.length) :
    (NetworkReceiver.isValidMessage C rx info).1 = Frame.isValid C info f ∧
      (NetworkReceiver.isValidMessage C rx info).2.1.connectionNumber = rx.connectionNumber ∧
      (Frame.isValid C info f = true → (NetworkReceiver.isValidMessage C rx info).2.1 =
        { rx with receivedMessage := afterValid rx.receivedMessage }) := by
  obtain ⟨m, r, cn, i⟩ := rx
  simp only at h hi
  subst hi
  have hlen := h.length
  have hid : info.networkId = m.networkId ↔ Frame.region f 9 4 = bytes32 info.networkId := by
    rw [h.region (by omega), ← load32_eq_iff]; exact eq_comm
  have hrev : slice (afterValid m) 4 4 = (Frame.region f 4 4).reverse := by
    rw [h.region (by omega)]
    show slice (store32 m 4 (swap32 (load32 m 4))) 4 4 = _
    rw [slice_store32, bytes32_swap32, bytes32_load32]
  have hpl : (afterValid m).payloadLength = m.payloadLength := by
    show store32 m 4 (ntohl m.hmacForNetwork) 8 = m 8
    exact store32_of_disj m _ (by omega)
  have hcov : slice (afterValid m) 8 (headerLength + (afterValid m).payloadLength.toNat - 8) =
      f.drop 8 := by
    rw [hpl, h.signed]; exact slice_store32_disj m _ (by omega)
  have hrun : NetworkReceiver.isValidMessage C ⟨m, r, cn, f.length⟩ info =
      if info.networkId ≠ m.networkId then
        (false, ⟨m, r, cn, f.length⟩, ["Error in received message, Not my network id."])
      else if C.hmac info.networkKey (f.drop 8) 4 ≠ (Frame.region f 4 4).reverse then
        (false, ⟨afterValid m, r, cn, f.length⟩, ["FAILED IN MESSAGE HASH RECEIVED!!"])
      else (true, ⟨afterValid m, r, cn, f.length⟩, []) := by
    rw [← hcov, ← hrev]
    unfold NetworkReceiver.isValidMessage
    dsimp only
    rw [if_neg (show ¬ f.length < headerLength by rw [hlen]; exact Nat.not_lt.2 (Nat.le_add_right _ _))]
    rfl
  have hv : Frame.isValid C info f = decide (info.networkId = m.networkId ∧
      C.hmac info.networkKey (f.drop 8) 4 = (Frame.region f 4 4).reverse) := by
    unfold Frame.isValid
    refine decide_eq_decide.2 ?_
    rw [hid, signature_eq]
  rw [hrun, hv]
  by_cases h1 : info.networkId = m.networkId
  · by_cases h2 : C.hmac info.networkKey (f.drop 8) 4 = (Frame.region f 4 4).reverse <;> simp [h1, h2]
  · simp [h1]

/-- The buffer that `receive` reads: the accepted message in host order, decrypted. -/
def afterLoop (C : Crypto) (info : NetworkInfo) (m : Packed) : Packed :=
  NetworkReceiver.decryptMessage C info (NetworkReceiver.ntohHandling (afterValid m))

/-- The swaps touch only the signatures, the identifier and the timestamp. -/
theorem slice_ntohHandling {off len : ℕ} (h : 13 ≤ off ∧ off + len ≤ 24 ∨ 32 ≤ off) :
    slice (NetworkReceiver.ntohHandling (afterValid m)) off len = slice m off len := by
  unfold NetworkReceiver.ntohHandling afterValid Packed.setHmacForServer Packed.setNetworkId
    Packed.setUnixTimestamp Packed.setHmacForNetwork
  simp (disch := omega) only [slice_store64_disj, slice_store32_disj]

theorem payloadLength_ntohHandling :
    (NetworkReceiver.ntohHandling (afterValid m)).payloadLength = m.payloadLength := by
  unfold NetworkReceiver.ntohHandling afterValid Packed.setHmacForServer Packed.setNetworkId
    Packed.setUnixTimestamp Packed.setHmacForNetwork Packed.payloadLength
  simp (disch := omega) only [store64_of_disj, store32_of_disj]

/-- **The decrypted buffer**: its length byte, and the plain bytes of the frame. -/
theorem afterLoop_spec (h : Loaded m f) :
    (afterLoop C info m).payloadLength = f.getD 8 0 ∧
      slice (afterLoop C info m) 32 (m.payloadLength.toNat + 16) = Frame.plain C info f := by
  have henc : slice (NetworkReceiver.ntohHandling (afterValid m)) 32 (m.payloadLength.toNat + 16) =
      f.drop 32 := by
    rw [h.encrypted]; exact slice_ntohHandling (by omega)
  have hvec : (NetworkReceiver.ntohHandling (afterValid m)).aesVector = Frame.region f 16 8 := by
    rw [h.region (by omega)]; exact slice_ntohHandling (by omega)
  have hM : afterLoop C info m =
      write (NetworkReceiver.ntohHandling (afterValid m)) 32 (Frame.plain C info f) := by
    unfold afterLoop NetworkReceiver.decryptMessage
    rw [hvec, payloadLength_ntohHandling, henc]; rfl
  have hlen : (Frame.plain C info f).length = m.payloadLength.toNat + 16 := by
    unfold Frame.plain; rw [Crypto.ctr_length, ← henc, slice_length]
  constructor
  · rw [hM]
    show write _ 32 _ 8 = _
    rw [write_of_lt _ _ (by omega), h.getD (by omega)]
    exact payloadLength_ntohHandling
  · rw [hM]; exact slice_write_eq _ _ hlen

/-- **`receive` returns the message of the frame**, and empties the buffer. -/
theorem receive_afterLoop (h : Loaded m f) (cn : UInt8) (i : ℕ) :
    NetworkReceiver.receive ⟨afterLoop C info m, true, cn, i⟩ =
      (Frame.message C info f, ⟨afterLoop C info m, false, cn, 0⟩) := by
  obtain ⟨hpl, hplain⟩ := afterLoop_spec C info h
  have hn : m.payloadLength = f.getD 8 0 := (h.getD (by omega)).symm
  have hsender : (afterLoop C info m).senderIdentifier = Frame.region (Frame.plain C info f) 0 8 := by
    show slice _ 32 8 = _
    unfold Frame.region
    rw [← hplain, List.drop_zero, slice_take _ _ (by omega)]
  have htype : (afterLoop C info m).messageType = (Frame.plain C info f).getD 8 0 := by
    rw [← hplain, List.getD_eq_getElem?_getD]
    simp [slice, Packed.messageType]
  have hpay : (afterLoop C info m).payload = (Frame.plain C info f).drop 16 := by
    show slice _ 48 (afterLoop C info m).payloadLength.toNat = _
    rw [← hplain, slice_drop _ _ (by omega), hpl, hn]
    congr 1
  unfold NetworkReceiver.receive NetworkReceiver.isReceived NetworkReceiver.getReceivedMessage
  simp only [Bool.not_true, Bool.false_eq_true, if_false]
  unfold Frame.message
  rw [hsender, htype, hpl, hpay]

/-- **Processing a frame.** Afterwards a received message is in the buffer if and only
if `deliver` gives one, and then `receive` returns it; otherwise the buffer is empty.
The client and the keys are untouched. -/
theorem finish_deliver (now : UInt32) (h : Loaded rx.receivedMessage f) (hi : rx.index = f.length) :
    (NetworkReceiver.finish C now rx info).1.connectionNumber = rx.connectionNumber ∧
      (∃ t, (NetworkReceiver.finish C now rx info).2.1 = { info with lastPokeFromServer := t }) ∧
      match Frame.deliver C info f with
      | none => (NetworkReceiver.finish C now rx info).1.isMessageReceived = false ∧
          (NetworkReceiver.finish C now rx info).1.index = 0
      | some msg => (NetworkReceiver.finish C now rx info).1.isMessageReceived = true ∧
          (NetworkReceiver.finish C now rx info).1.receive =
            (msg, { (NetworkReceiver.finish C now rx info).1 with isMessageReceived := false, index := 0 }) := by
  obtain ⟨hv, hcn, hrx⟩ := isValidMessage_eq C info h hi
  unfold NetworkReceiver.finish Frame.deliver
  rw [handlePingMessage_eq C info now h]
  by_cases hp : Frame.isPing C info f = true
  · simp only [hp, if_true]
    exact ⟨trivial, ⟨now, rfl⟩, trivial, trivial⟩
  simp only [hp, if_false, Bool.false_eq_true]
  generalize hr : NetworkReceiver.isValidMessage C rx info = r at hv hcn hrx
  obtain ⟨ok, rx', reports⟩ := r
  simp only at hv hcn hrx
  subst hv
  by_cases hok : Frame.isValid C info f = true
  · have hrx' := hrx hok
    subst hrx'
    simp only [hok, if_true]
    exact ⟨trivial, ⟨info.lastPokeFromServer, rfl⟩, trivial, receive_afterLoop C info h _ _⟩
  · simp only [hok, if_false, Bool.false_eq_true]
    exact ⟨hcn, ⟨info.lastPokeFromServer, rfl⟩, trivial, trivial⟩

end ServerRoom
