import ServerRoom.Proof.Waveform
import ServerRoom.Spec.Main

/-!
# Received orders

A message from `NetworkHandler::receive` whose payload is the numeral of a server's index
names that server (`atoi_numeral`), and `processing_unit` calls the handler with that index.
For types 0x51 and 0x52 it calls `turnOff` and `restart`, which is the other way round than in
the protocol: `processing_prescribed` says on which messages nobody can tell.
-/

namespace ServerRoom

/-- A decimal numeral, and the number that it stands for. -/
def IsNumeral (s : List UInt8) (k : ℕ) : Prop := s ≠ [] ∧ (∀ b ∈ s, isDigit b = true) ∧ leadingDigits 0 s = k

/-- The payload of a message. -/
def Message.text (m : Message) : List UInt8 := m.payload.take m.payloadLength.toNat

/-- The number that a string starts with, after white space and a sign; 0 if there is none. -/
def leadingNumeral (s : List UInt8) : ℤ :=
  match s.dropWhile isSpace with
  | 45 :: s => -leadingDigits 0 s
  | 43 :: s => leadingDigits 0 s
  | s => leadingDigits 0 s

/-- The zero byte at the end is no digit. -/
theorem leadingDigits_append (n : ℕ) (s rest : List UInt8) :
    leadingDigits n (s ++ 0 :: rest) = leadingDigits n s := by
  induction s generalizing n with
  | nil => exact if_neg (by decide)
  | cons b s ih =>
    rw [List.cons_append]
    unfold leadingDigits
    rw [ih]

/-- **`atoi` reads a number** up to the zero byte that ends the string. -/
theorem atoi_eq (s rest : List UInt8) : atoi (s ++ 0 :: rest) = .ofInt (leadingNumeral s) := by
  -- the zero byte is no white space either
  have hdrop : (s ++ 0 :: rest).dropWhile isSpace = s.dropWhile isSpace ++ 0 :: rest := by
    rw [List.dropWhile_append]
    split
    · rename_i hnil
      rw [List.isEmpty_iff.1 hnil]
      exact List.dropWhile_cons_of_neg (by decide)
    · rfl
  unfold atoi leadingNumeral
  rw [hdrop]
  cases s.dropWhile isSpace with
  | nil => rfl
  | cons b s =>
    by_cases hminus : b = 45
    · subst hminus
      exact congrArg (fun n : ℕ => Int16.ofInt (-n)) (leadingDigits_append 0 s rest)
    · by_cases hplus : b = 43
      · subst hplus
        exact congrArg (fun n : ℕ => Int16.ofInt n) (leadingDigits_append 0 s rest)
      · have hdigits := leadingDigits_append 0 (b :: s) rest
        rw [List.cons_append] at hdigits ⊢
        simp [hminus, hplus, hdigits]

theorem IsNumeral.leadingNumeral_eq {s : List UInt8} {k : ℕ} (h : IsNumeral s k) : leadingNumeral s = k := by
  obtain ⟨hne, hdigits, hval⟩ := h
  obtain ⟨b, s, rfl⟩ := List.exists_cons_of_ne_nil hne
  have hb : isDigit b = true := hdigits b (.head _)
  have hrange : 48 ≤ b.toNat ∧ b.toNat ≤ 57 := by
    simpa [isDigit, UInt8.le_iff_toNat_le] using hb
  have hspace : isSpace b = false := by
    simp only [isSpace, Bool.or_eq_false_iff, decide_eq_false_iff_not, Bool.and_eq_false_iff,
      UInt8.le_iff_toNat_le, ← UInt8.toNat_inj]
    simp
    omega
  unfold leadingNumeral
  rw [List.dropWhile_cons_of_neg (by simp [hspace])]
  -- a digit is no sign
  split
  · rename_i heq
    cases heq
    simp at hrange
  · rename_i heq
    cases heq
    simp at hrange
  · rw [hval]

open NetworkReceiver in
/-- The payload of a received message ends with a zero byte. -/
theorem receive_payload (rx : NetworkReceiver) :
    ∃ rest, (receive rx).1.payload = (receive rx).1.text ++ 0 :: rest := by
  unfold receive Message.text
  split
  · exact ⟨_, rfl⟩
  · have hlen : rx.receivedMessage.payload.length = rx.receivedMessage.payloadLength.toNat := by
      simp [Packed.payload]
    have hlt := rx.receivedMessage.payloadLength.toNat_lt
    obtain ⟨n, hn⟩ : ∃ n, maxPayloadLength + 1 - rx.receivedMessage.payload.length = n + 1 :=
      ⟨255 - rx.receivedMessage.payload.length, by unfold maxPayloadLength; omega⟩
    refine ⟨List.replicate n 0, ?_⟩
    simp only [getReceivedMessage, hn, List.replicate_succ]
    rw [← hlen, List.take_left']
    rfl

/-- What is left, in 8 bits, of the number that a message starts with. -/
def Message.serverNumber (m : Message) : ℕ := (leadingNumeral m.text % 256).toNat

open NetworkReceiver in
/-- **The index that `processing_unit` takes.** -/
theorem serverNumber_eq (rx : NetworkReceiver) :
    UInt8.ofInt (atoi (receive rx).1.payload).toInt = UInt8.ofNat (receive rx).1.serverNumber := by
  obtain ⟨rest, hp⟩ := receive_payload rx
  generalize (receive rx).1 = m at hp ⊢
  -- 16 bits of the number hold its last 8
  have hlast : (leadingNumeral m.text).bmod Int16.size % 256 = leadingNumeral m.text % 256 := by
    rw [← Int.emod_emod_of_dvd _ (by decide : (256 : ℤ) ∣ (Int16.size : ℤ)), Int.bmod_emod,
      Int.emod_emod_of_dvd _ (by decide)]
  rw [hp, atoi_eq, Int16.toInt_ofInt]
  unfold Message.serverNumber
  rw [← hlast]
  rfl

theorem IsNumeral.serverNumber_eq {m : Message} {k : ℕ} (h : IsNumeral m.text k) (hk : k < 256) :
    m.serverNumber = k := by
  unfold Message.serverNumber
  rw [h.leadingNumeral_eq]
  omega

namespace ServersHandler

/-- Only the operation tells what an accepted `turnOff` from an accepted `restart`. -/
theorem turnOff_eq_restart_iff (h : ServersHandler) (index : UInt8) (t₀ t₁ : ℕ) :
    (h.turnOff index t₀ t₁).2 = (h.restart index t₀ t₁).2 ↔ ¬ h.Accepts .turnOff index.toNat t₀ := by
  have hiff : h.Accepts .restart index.toNat t₀ ↔ h.Accepts .turnOff index.toNat t₀ := by simp [Accepts]
  have hoff := execute_eq (h := h) .turnOff index t₀ t₁
  have hre := execute_eq (h := h) .restart index t₀ t₁
  rw [if_congr hiff rfl rfl] at hre
  show (h.execute .turnOff index t₀ t₁).2 = (h.execute .restart index t₀ t₁).2 ↔ _
  rw [hoff, hre]
  by_cases ha : h.Accepts .turnOff index.toNat t₀
  · rw [if_pos ha, if_pos ha]
    refine iff_of_false (fun he => ?_) fun hn => hn ha
    have hop := congrFun (congrArg serversOperation he) index.toNat
    simp [setTimer, setOperation, Order.operation] at hop
  · rw [if_neg ha, if_neg ha]
    exact iff_of_true rfl ha

end ServersHandler

open NetworkReceiver in
/-- **Orders.** A received message that names server `k` does what the protocol says exactly
when its type is neither 0x51 nor 0x52, or server `k` accepts neither of `turnOff` and `restart`. -/
theorem processing_prescribed (h : ServersHandler) (rx : NetworkReceiver) {k : ℕ}
    (hk : k < h.serversCount.toNat) (hm : IsNumeral (receive rx).1.text k) (t₀ t₁ : ℕ) :
    processingUnit h (receive rx).1 t₀ t₁ = prescribed h (receive rx).1.messageType (UInt8.ofNat k) t₀ t₁ ↔
      ((receive rx).1.messageType ≠ 0x51 ∧ (receive rx).1.messageType ≠ 0x52) ∨ ¬ h.Accepts .turnOff k t₀ := by
  have hlt : k < 256 := hk.trans (UInt8.toNat_lt _)
  have hto : (UInt8.ofNat k).toNat = k := UInt8.toNat_ofNat_of_lt' hlt
  have hswap := h.turnOff_eq_restart_iff (UInt8.ofNat k) t₀ t₁
  rw [hto] at hswap
  unfold processingUnit
  rw [serverNumber_eq, hm.serverNumber_eq hlt]
  generalize (receive rx).1.messageType = type
  by_cases h1 : type = 0x51
  · subst h1
    simpa [prescribed] using hswap
  · by_cases h2 : type = 0x52
    · subst h2
      simpa [prescribed, eq_comm] using hswap
    · refine iff_of_true ?_ (.inl ⟨h1, h2⟩)
      unfold prescribed
      split <;> simp_all

/-- The receiver of server 0's shutdown order. -/
def shutdownOrder : NetworkReceiver where
  receivedMessage := ((Packed.setPayload (fun _ => 0) [48]).setPayloadLength 1).setMessageType 0x52
  isMessageReceived := true
  connectionNumber := 0
  index := 49

theorem shutdownOrder_numeral : IsNumeral shutdownOrder.receive.1.text 0 := by
  refine ⟨?_, ?_, ?_⟩ <;> decide +kernel

/-- After 60 s without a ping server 0 counts as off, and refuses the order either way. -/
theorem processing_prescribed_main :
    processingUnit .main shutdownOrder.receive.1 60000 60000 = prescribed .main 0x52 0 60000 60000 :=
  (processing_prescribed .main shutdownOrder (by decide) shutdownOrder_numeral 60000 60000).2 (.inr (by decide))

/-- **A shutdown order powers the server up again.** Server 0 is on, and the order for it is of
type 0x52: its relay is closed, opened and closed again. -/
theorem shutdown_restarts :
    IsNumeral shutdownOrder.receive.1.text 0 ∧ shutdownOrder.receive.1.messageType = 0x52 ∧
      processingUnit .main shutdownOrder.receive.1 10 10 ≠ prescribed .main 0x52 0 10 10 ∧
      let h := processingUnit .main shutdownOrder.receive.1 10 10
      let h := h.loop fun _ => ⟨[], 5011, 5011⟩
      let h := h.loop fun _ => ⟨[], 10012, 10012⟩
      h.pins.written (Wiring.main.relayPin 0) = [.low, .high, .low] := by
  refine ⟨shutdownOrder_numeral, by decide +kernel, fun he => ?_, by decide +kernel⟩
  have hop := congrArg (fun h => h.serversOperation 0) he
  revert hop
  decide +kernel

/-! ## Which server a message touches -/

namespace ServerState

variable {v v' : ServerState} {i : ℕ} {p : Place} {cmd : Command} {o : Order} {index : UInt8} {t t₀ t₁ : ℕ}

theorem Moves.eq_of_not_concerns (h : v.Moves i p cmd v') (hne : ¬ Concerns i p cmd) : v' = v := by
  cases h with
  | elsewhere | released | waits | refused => rfl
  | pressed | ends => exact absurd rfl hne
  | accepted o index t₀ t₁ he | pinged index t he => exact absurd he hne

theorem Moves.order_eq_iff (h : v.Moves i .idle (.order o index t₀ t₁) v') (he : index.toNat = i) :
    v' = v ↔ ¬ v.Accepts o t₀ := by
  cases h with
  | elsewhere hne => exact absurd he hne
  | refused _ _ _ _ _ hno => exact iff_of_true rfl hno
  | accepted _ _ _ _ _ ha =>
    refine iff_of_false (fun heq => ?_) fun hn => hn ha
    have hop := (congrArg operation heq).trans ha.1
    cases o <;> cases hop

theorem Moves.ping_eq_iff (h : v.Moves i .idle (.pingFromServer index t) v') (he : index.toNat = i) :
    v' = v ↔ v.lastPing = millis t := by
  cases h with
  | elsewhere hne => exact absurd he hne
  | pinged => simp [ServerState.ext_iff, eq_comm]

end ServerState

namespace ServersHandler

variable {w : Wiring} {h : ServersHandler} {i : ℕ}

/-- A message of this type that names server `i` changes something about it. -/
def Affects (h : ServersHandler) (messageType : UInt8) (i t : ℕ) : Prop :=
  match messageType with
  | 0x50 => h.Accepts .turnOn i t
  | 0x51 => h.Accepts .turnOff i t
  | 0x52 => h.Accepts .restart i t
  | 0x30 => i < h.serversCount.toNat ∧ h.serversLastPing i ≠ millis t
  | _ => False

theorem Affects.lt {messageType : UInt8} {t : ℕ} (ha : h.Affects messageType i t) : i < h.serversCount.toNat := by
  unfold Affects at ha
  split at ha
  · exact ha.1
  · exact ha.1
  · exact ha.1
  · exact ha.1
  · exact ha.elim

theorem execute_server_iff (hw : Wired w h) (hi : i < w.serversCount.toNat) (o : Order) (index : UInt8) (t₀ t₁ : ℕ) :
    (h.execute o index t₀ t₁).2.server w i = h.server w i ↔ ¬ (index.toNat = i ∧ h.Accepts o i t₀) := by
  have hm := execute_moves hw hi o index t₀ t₁
  by_cases he : index.toNat = i
  · rw [hm.order_eq_iff he, accepts_iff hw hi, and_iff_right he]
  · exact iff_of_true (hm.eq_of_not_concerns he) fun hc => he hc.1

theorem pingFromServer_server_iff (hw : Wired w h) (hi : i < w.serversCount.toNat) (index : UInt8) (t : ℕ) :
    (h.pingFromServer index t).server w i = h.server w i ↔ ¬ (index.toNat = i ∧ h.serversLastPing i ≠ millis t) := by
  have hm := pingFromServer_moves hw hi index t
  by_cases he : index.toNat = i
  · rw [hm.ping_eq_iff he, and_iff_right he, not_not]
    rfl
  · exact iff_of_true (hm.eq_of_not_concerns he) fun hc => he hc.1

open NetworkReceiver in
/-- **What `processing_unit` changes**: the server of the index that it takes, or nothing. -/
theorem processing_server_iff (hw : Wired w h) (hi : i < w.serversCount.toNat) (rx : NetworkReceiver) (t₀ t₁ : ℕ) :
    (processingUnit h (receive rx).1 t₀ t₁).server w i = h.server w i ↔
      ¬ ((receive rx).1.serverNumber = i ∧ h.Affects (receive rx).1.messageType i t₀) := by
  have hto : (UInt8.ofNat (receive rx).1.serverNumber).toNat = (receive rx).1.serverNumber := by
    refine UInt8.toNat_ofNat_of_lt' ?_
    unfold Message.serverNumber
    simp only [UInt8.size]
    omega
  have hcount : i < h.serversCount.toNat := hw.count.symm ▸ hi
  have horder := fun o => execute_server_iff hw hi o (UInt8.ofNat (receive rx).1.serverNumber) t₀ t₁
  have hping := pingFromServer_server_iff hw hi (UInt8.ofNat (receive rx).1.serverNumber) t₀
  rw [hto] at hping
  simp only [hto] at horder
  unfold processingUnit
  rw [serverNumber_eq]
  generalize (receive rx).1.messageType = type
  dsimp only
  split
  · exact horder .turnOn
  · exact horder .turnOff
  · exact horder .restart
  · rw [hping]
    exact not_congr (and_congr_right fun _ => (and_iff_right hcount).symm)
  · refine iff_of_true rfl fun hc => ?_
    have ha := hc.2
    unfold Affects at ha
    split at ha <;> simp_all

/-- A message touches a server only if it names it. -/
structure TouchesNamed (w : Wiring) (h h' : ServersHandler) (text : List UInt8) : Prop where
  unnamed : (¬ ∃ k < w.serversCount.toNat, IsNumeral text k) → ∀ i < w.serversCount.toNat, h'.server w i = h.server w i
  others : ∀ k < w.serversCount.toNat, IsNumeral text k →
    ∀ i < w.serversCount.toNat, i ≠ k → h'.server w i = h.server w i

open NetworkReceiver in
/-- **A message that names no server** leaves the servers alone exactly when the index that is
left of its payload is not a server's, or that server does not answer to the message. -/
theorem touchesNamed_iff (hr : (serversHandler w).Reach (h, .idle)) (rx : NetworkReceiver) (t₀ t₁ : ℕ) :
    TouchesNamed w h (processingUnit h (receive rx).1 t₀ t₁) (receive rx).1.text ↔
      (∃ k < w.serversCount.toNat, IsNumeral (receive rx).1.text k) ∨
        ¬ h.Affects (receive rx).1.messageType (receive rx).1.serverNumber t₀ := by
  have hw : Wired w h := (Ready.reach hr).wired
  by_cases hnamed : ∃ k < w.serversCount.toNat, IsNumeral (receive rx).1.text k
  · -- a numeral of a server is the index
    refine iff_of_true ⟨fun hn => absurd hnamed hn, fun k hk hm i hi hne => ?_⟩ (.inl hnamed)
    have hindex := hm.serverNumber_eq (hk.trans (UInt8.toNat_lt _))
    exact (processing_server_iff hw hi rx t₀ t₁).2 fun hc => hne (hc.1.symm.trans hindex)
  · rw [or_iff_right hnamed]
    constructor
    · intro ht ha
      have hi : (receive rx).1.serverNumber < w.serversCount.toNat := hw.count ▸ ha.lt
      exact (processing_server_iff hw hi rx t₀ t₁).1 (ht.unnamed hnamed _ hi) ⟨rfl, ha⟩
    · intro hno
      refine ⟨fun _ i hi => ?_, fun k hk hm => absurd ⟨k, hk, hm⟩ hnamed⟩
      refine (processing_server_iff hw hi rx t₀ t₁).2 fun ⟨he, ha⟩ => hno ?_
      rw [he]
      exact ha

end ServersHandler

/-- The receiver of a message of this type. -/
def received (messageType : UInt8) (payload : List UInt8) : NetworkReceiver where
  receivedMessage :=
    ((Packed.setPayload (fun _ => 0) payload).setPayloadLength (UInt8.ofNat payload.length)).setMessageType messageType
  isMessageReceived := true
  connectionNumber := 0
  index := 48 + payload.length

/-- `-3` leaves the index 253. -/
theorem touchesNamed_minus_three :
    ServersHandler.TouchesNamed Wiring.main .main (processingUnit .main (received 0x50 [45, 51]).receive.1 60000 60000)
      (received 0x50 [45, 51]).receive.1.text :=
  (ServersHandler.touchesNamed_iff (.init ServersHandler.main_starts) (received 0x50 [45, 51]) 60000 60000).2
    (.inr fun ha => absurd ha.lt (by decide +kernel))

/-- **Any JSON is a ping from server 0, and 256 is server 0 too.** -/
theorem touches_unnamed :
    (serversHandler .main).Reach (.main, .idle) ∧
    ¬ ServersHandler.TouchesNamed .main .main (processingUnit .main (received 0x30 [123, 125]).receive.1 10 10)
      (received 0x30 [123, 125]).receive.1.text ∧
    ¬ ServersHandler.TouchesNamed .main .main (processingUnit .main (received 0x50 [50, 53, 54]).receive.1 60000 60000)
      (received 0x50 [50, 53, 54]).receive.1.text := by
  have hjson : (received 0x30 [123, 125]).receive.1.text = [123, 125] := by decide +kernel
  have h256 : (received 0x50 [50, 53, 54]).receive.1.text = [50, 53, 54] := by decide +kernel
  refine ⟨.init ServersHandler.main_starts, fun ht => ?_, fun ht => ?_⟩
  · rw [hjson] at ht
    have hsame := ht.unnamed (fun ⟨k, _, hm⟩ => absurd (hm.2.1 123 (.head _)) (by decide)) 0 (by decide)
    have hping := congrArg ServerState.lastPing hsame
    revert hping
    decide +kernel
  · rw [h256] at ht
    have hsame := ht.unnamed (fun ⟨k, hk, hm⟩ => ?_) 0 (by decide)
    · have hop := congrArg ServerState.operation hsame
      revert hop
      decide +kernel
    · have hval : 256 = k := hm.2.2
      have h3 : k < 3 := hk
      omega

end ServerRoom
