import ServerRoom.Proof.Reassembly
import ServerRoom.Spec.Handler

/-!
# The Arduino's incoming stream over whole runs

A run of the main loop may reconnect in any iteration, up to three times in one, and
bytes may arrive in any pieces. `StreamOk` ties the buffer, the 8-bit connection
number and the history together and is kept by every iteration
(`StreamOk.iterate`). From it:

* `reassembly_exact`: on each connection the processed frames are those of the unique
  decomposition of the bytes read on it, and the messages handed on are what
  `deliver` makes of the processed frames, each once and in order.
-/

namespace ServerRoom

open ByteMem Framing NetworkReceiver NetworkHandler

variable (C : Crypto)

/-- Two states of the connection data with the same identifier and keys. -/
structure SameNetwork (info info' : NetworkInfo) : Prop where
  networkId : info'.networkId = info.networkId
  serverKey : info'.serverKey = info.serverKey
  networkKey : info'.networkKey = info.networkKey

theorem SameNetwork.refl (info : NetworkInfo) : SameNetwork info info := ⟨rfl, rfl, rfl⟩

theorem SameNetwork.trans {a b c : NetworkInfo} (h : SameNetwork a b) (h' : SameNetwork b c) :
    SameNetwork a c :=
  ⟨h'.networkId.trans h.networkId, h'.serverKey.trans h.serverKey, h'.networkKey.trans h.networkKey⟩

/-- What a frame means depends on the identifier and the keys only. -/
theorem SameNetwork.deliver {info info' : NetworkInfo} (h : SameNetwork info info') (f : List UInt8) :
    Frame.deliver C info' f = Frame.deliver C info f := by
  unfold Frame.deliver Frame.isPing Frame.isValid Frame.message Frame.plain
  rw [h.networkId, h.serverKey, h.networkKey]

/-- Between two states the client was connected anew `k` times. -/
structure Moved (k : ℕ) (info info' : NetworkInfo) : Prop where
  same : SameNetwork info info'
  connection : info'.client.connection = info.client.connection + k
  number : info'.connectionNumber = info.connectionNumber + UInt8.ofNat k

theorem Moved.trans {j k : ℕ} {a b c : NetworkInfo} (h : Moved j a b) (h' : Moved k b c) :
    Moved (j + k) a c := by
  refine ⟨h.same.trans h'.same, by rw [h'.connection, h.connection, Nat.add_assoc], ?_⟩
  rw [h'.number, h.number, UInt8.ofNat_add, UInt8.add_assoc]

theorem Moved.refl (info : NetworkInfo) : Moved 0 info info := ⟨.refl info, rfl, by simp⟩

theorem closeAndConnect_moved (t₀ t₁ : UInt32) (info : NetworkInfo) :
    Moved 1 info (NetworkConnection.closeAndConnect t₀ t₁ info) :=
  ⟨⟨rfl, rfl, rfl⟩, rfl, rfl⟩

theorem send_moved (info : NetworkInfo) (stack : Packed) (link : Link) (t : UInt8) (p : List UInt8)
    (n : UInt8) : Moved 0 info (NetworkSender.send C info stack link t p n).2 := by
  unfold NetworkSender.send NetworkSender.ethernetSendMessage
  split
  · exact .refl info
  · dsimp only
    split
    · exact .refl info
    · exact ⟨⟨rfl, rfl, rfl⟩, rfl, by simp⟩

/-- **`keep_connected` connects anew at most three times**: far fewer than the 256 that
the connection number tells apart. -/
theorem keepConnected_moved (e : LoopEnv) (info : NetworkInfo) :
    ∃ k ≤ 3, Moved k info (NetworkConnection.keepConnected C e info) := by
  unfold NetworkConnection.keepConnected
  dsimp only
  generalize h₁ : NetworkConnection.keepConnection e.connected (e.millis 0) (e.millis 1) info = i₁
  have m₁ : ∃ k ≤ 1, Moved k info i₁ := by
    unfold NetworkConnection.keepConnection at h₁
    split at h₁
    · exact ⟨1, Nat.le_refl 1, h₁ ▸ closeAndConnect_moved _ _ _⟩
    · exact ⟨0, Nat.zero_le _, h₁ ▸ .refl info⟩
  generalize h₂ : (if e.millis 2 - i₁.lastPokeFromServer > recievePokeTime then
      NetworkConnection.closeAndConnect (e.millis 3) (e.millis 4) i₁ else i₁) = i₂
  have m₂ : ∃ k ≤ 1, Moved k i₁ i₂ := by
    split at h₂
    · exact ⟨1, Nat.le_refl 1, h₂ ▸ closeAndConnect_moved _ _ _⟩
    · exact ⟨0, Nat.zero_le _, h₂ ▸ .refl i₁⟩
  obtain ⟨j, hj, m₁⟩ := m₁
  obtain ⟨k, hk, m₂⟩ := m₂
  have m₁₂ := m₁.trans m₂
  split
  · have ms := send_moved C i₂ e.stack e.link 0x00 [] 0
    split <;> rename_i i₃ heq <;> rw [heq] at ms
    · refine ⟨j + k, by omega, ?_⟩
      have := m₁₂.trans ms
      exact ⟨⟨this.same.networkId, this.same.serverKey, this.same.networkKey⟩, this.connection,
        this.number⟩
    · exact ⟨j + k + 0 + 1, by omega, (m₁₂.trans ms).trans (closeAndConnect_moved _ _ _)⟩
  · exact ⟨j + k, by omega, m₁₂⟩

/-- Up to three reconnections are always seen in the connection number. -/
theorem Moved.number_eq_iff {k : ℕ} {info info' : NetworkInfo} (h : Moved k info info') (hk : k ≤ 3) :
    info.connectionNumber = info'.connectionNumber ↔ k = 0 := by
  rw [h.number]
  constructor
  · intro he
    have hn := congrArg UInt8.toNat he
    have hlt := info.connectionNumber.toNat_lt
    rw [UInt8.toNat_add, UInt8.toNat_ofNat'] at hn
    omega
  · rintro rfl; simp

/-- Receiving a message, when there is one, empties the buffer; otherwise the handler
is as it was. -/
theorem drain_spec (h : NetworkHandler) :
    h.drain.1.info = h.info ∧ h.drain.1.receiver.connectionNumber = h.receiver.connectionNumber ∧
      (h.receiver.isMessageReceived = false → h.drain = (h, none)) := by
  unfold NetworkHandler.drain NetworkReceiver.isReceived
  cases hr : h.receiver.isMessageReceived with
  | false => exact ⟨by simp, by simp, by simp⟩
  | true =>
    refine ⟨by simp, ?_, by simp⟩
    simp [NetworkReceiver.receive, NetworkReceiver.isReceived, hr, NetworkReceiver.getReceivedMessage]

/-- **The invariant of a run.** Between iterations the buffer holds the incomplete tail of
the current connection; every connection's processed frames are the complete frames of
what was read on it; connections to come have read nothing. -/
structure StreamOk (info₀ : NetworkInfo) (h : NetworkHandler) (H : History) : Prop where
  same : SameNetwork info₀ h.info
  idle : Idle h.receiver
  synced : h.receiver.connectionNumber = h.info.connectionNumber
  tail : Decomposes wireFormat (H.read h.info.client.connection)
    (H.framesOn h.info.client.connection) (slice h.receiver.receivedMessage 0 h.receiver.index)
  past : ∀ c, ∃ t, Decomposes wireFormat (H.read c) (H.framesOn c) t
  future : ∀ c, h.info.client.connection < c → H.read c = [] ∧ H.framesOn c = []
  messages : H.messages = H.frames.filterMap fun p => Frame.deliver C info₀ p.2

/-- A constructed handler, before any iteration. -/
theorem StreamOk.new (networkId : UInt32) (serverKey networkKey : Key) (t₀ t₁ : UInt32) :
    StreamOk C (.new networkId serverKey networkKey t₀ t₁)
      (.new (.new networkId serverKey networkKey t₀ t₁)) .empty where
  same := .refl _
  idle := .of_index_zero rfl rfl
  synced := rfl
  tail := Decomposes.nil
  past _ := ⟨[], Decomposes.nil⟩
  future _ _ := ⟨rfl, rfl⟩
  messages := rfl

theorem framesOn_record (H : History) (h : NetworkHandler) (e : IterEnv) (c : ℕ) :
    (H.record C h e).framesOn c = H.framesOn c ++
      if (ready C e.toLoopEnv h).client.connection = c then
        (h.receiver.processed (ready C e.toLoopEnv h)).toList else [] := by
  unfold History.framesOn History.record
  simp only [List.filter_append, List.map_append]
  congr 1
  cases h.receiver.processed (ready C e.toLoopEnv h) with
  | none => simp
  | some f =>
    by_cases hc : (ready C e.toLoopEnv h).client.connection = c <;> simp [hc]

/-- What the handler is after the bytes were read and before the message is taken out. -/
def beforeDrain (h : NetworkHandler) (e : IterEnv) : NetworkHandler :=
  match e.report with
  | none => (h.loop C e.toLoopEnv).1
  | some c => ((h.loop C e.toLoopEnv).1.send C c).2

theorem iterate_eq (h : NetworkHandler) (e : IterEnv) : h.iterate C e = (beforeDrain C h e).drain := rfl

/-- Reporting touches neither the receiver nor what identifies the connection. -/
theorem beforeDrain_spec (h : NetworkHandler) (e : IterEnv) :
    (beforeDrain C h e).receiver = (h.loop C e.toLoopEnv).1.receiver ∧
      Moved 0 (h.loop C e.toLoopEnv).1.info (beforeDrain C h e).info := by
  unfold beforeDrain
  split
  · exact ⟨rfl, .refl _⟩
  · exact ⟨rfl, send_moved C _ _ _ _ _ _⟩

/-- What the receiver meets: the tail of the connection it is now on. -/
theorem StreamOk.at_ready {info₀ : NetworkInfo} {h : NetworkHandler} {H : History}
    (hok : StreamOk C info₀ h H) (e : LoopEnv) :
    SameNetwork info₀ (ready C e h) ∧
      h.info.client.connection ≤ (ready C e h).client.connection ∧
      Decomposes wireFormat (H.read (ready C e h).client.connection)
        (H.framesOn (ready C e h).client.connection) (tailFor h.receiver (ready C e h)) := by
  obtain ⟨k, hk, hm⟩ := keepConnected_moved C e h.info
  have hm' : Moved k h.info (ready C e h) :=
    ⟨⟨hm.same.networkId, hm.same.serverKey, hm.same.networkKey⟩, hm.connection, hm.number⟩
  have hiff := hm'.number_eq_iff hk
  refine ⟨hok.same.trans hm'.same, by rw [hm'.connection]; omega, ?_⟩
  unfold tailFor
  rw [hok.synced]
  by_cases h0 : k = 0
  · rw [if_pos (hiff.2 h0), hm'.connection, h0]; exact hok.tail
  · -- a new connection: nothing has been read on it
    rw [if_neg (hiff.not.2 h0)]
    obtain ⟨h1, h2⟩ := hok.future (ready C e h).client.connection
      (by rw [hm'.connection]; omega)
    rw [h1, h2]; exact Decomposes.nil

/-- **One iteration**: what the connection's stream and the received message become. -/
theorem iterate_spec {info₀ : NetworkInfo} {h : NetworkHandler} {H : History}
    (hok : StreamOk C info₀ h H) (e : IterEnv) :
    let info := NetworkHandler.ready C e.toLoopEnv h
    let h' := (h.iterate C e).1
    SameNetwork info₀ h'.info ∧ h'.info.client.connection = info.client.connection ∧
      Idle h'.receiver ∧ h'.receiver.connectionNumber = h'.info.connectionNumber ∧
      (h.iterate C e).2 = (h.receiver.processed info).bind (Frame.deliver C info₀) ∧
      Decomposes wireFormat (H.read info.client.connection ++ h.receiver.consumed info)
        (H.framesOn info.client.connection ++ (h.receiver.processed info).toList)
        (slice h'.receiver.receivedMessage 0 h'.receiver.index) := by
  intro info h'
  obtain ⟨hsame, -, htail⟩ := hok.at_ready C e.toLoopEnv
  change SameNetwork info₀ info at hsame
  change Decomposes wireFormat (H.read info.client.connection) (H.framesOn info.client.connection)
    (tailFor h.receiver info) at htail
  obtain ⟨hcn, ⟨q, t, hinfo⟩, -, hcases⟩ := loop_spec C info (e.millis 8) hok.idle
  obtain ⟨hrx, hmv⟩ := beforeDrain_spec C h e
  change (beforeDrain C h e).receiver = (NetworkReceiver.loop C (e.millis 8) h.receiver info).1 at hrx
  have hloop : (h.loop C e.toLoopEnv).1.info = (NetworkReceiver.loop C (e.millis 8) h.receiver info).2.1 :=
    rfl
  rw [hloop, hinfo] at hmv
  obtain ⟨hdi, hdc, hdn⟩ := drain_spec (beforeDrain C h e)
  have hinfo' : h'.info = (beforeDrain C h e).info := hdi
  have hnum : info.connectionNumber = (beforeDrain C h e).info.connectionNumber := by
    rw [hmv.number]; simp
  refine ⟨?_, ?_, ?_⟩
  · rw [hinfo']
    exact hsame.trans ⟨hmv.same.networkId, hmv.same.serverKey, hmv.same.networkKey⟩
  · rw [hinfo', hmv.connection]; rfl
  have hsync : h'.receiver.connectionNumber = h'.info.connectionNumber := by
    rw [hinfo', ← hnum, ← hcn, ← hrx]; exact hdc
  rcases hcases with ⟨hp, hf, hidle, hbuf, -⟩ | ⟨hp, hf, hdel⟩
  · -- no frame yet: nothing to take out
    have hd : h.iterate C e = (beforeDrain C h e, none) := hdn (by rw [hrx]; exact hidle.received)
    have hrx' : h'.receiver = (NetworkReceiver.loop C (e.millis 8) h.receiver info).1 := by
      rw [← hrx]; show (h.iterate C e).1.receiver = _; rw [hd]
    rw [hp, hrx', hbuf, hd]
    refine ⟨hidle, by rw [← hrx']; exact hsync, rfl, ?_⟩
    rw [Option.toList_none, List.append_nil]
    exact htail.extend hf
  · have hdec := htail.complete hf
    have hmsg := hsame.deliver C (tailFor h.receiver info ++ h.receiver.consumed info)
    rw [hmsg] at hdel
    rw [hp]
    -- either way the buffer is empty afterwards
    have hend : h'.receiver.isMessageReceived = false ∧ h'.receiver.index = 0 ∧
        (h.iterate C e).2 = Frame.deliver C info₀ (tailFor h.receiver info ++ h.receiver.consumed info) := by
      cases hd : Frame.deliver C info₀ (tailFor h.receiver info ++ h.receiver.consumed info) with
      | none =>
        rw [hd] at hdel
        have hit : h.iterate C e = (beforeDrain C h e, none) := hdn (by rw [hrx]; exact hdel.1)
        refine ⟨?_, ?_, by rw [hit]⟩ <;> show _ = _ <;> simp only [h', hit, hrx, hdel.1, hdel.2]
      | some msg =>
        rw [hd] at hdel
        obtain ⟨hr1, hr2⟩ := hdel
        rw [← hrx] at hr1 hr2
        have hit : h.iterate C e = ({ beforeDrain C h e with receiver := (beforeDrain C h e).receiver.receive.2 },
            some (beforeDrain C h e).receiver.receive.1) := by
          rw [iterate_eq]; unfold NetworkHandler.drain NetworkReceiver.isReceived; simp [hr1]
        refine ⟨?_, ?_, by rw [hit, hr2]⟩ <;> simp only [h', hit, hr2]
    refine ⟨.of_index_zero hend.1 hend.2.1, hsync, by rw [hend.2.2]; rfl, ?_⟩
    rw [hend.2.1, slice_zero, Option.toList_some]
    exact hdec

/-- **Every iteration keeps the invariant.** -/
theorem StreamOk.iterate {info₀ : NetworkInfo} {h : NetworkHandler} {H : History}
    (hok : StreamOk C info₀ h H) (e : IterEnv) :
    StreamOk C info₀ (h.iterate C e).1 (H.record C h e) := by
  obtain ⟨hsame, hconn, hidle, hsync, hmsg, hdec⟩ := iterate_spec C hok e
  obtain ⟨-, hle, -⟩ := hok.at_ready C e.toLoopEnv
  generalize hinfo : ready C e.toLoopEnv h = info at *
  have hread : ∀ c, (H.record C h e).read c =
      if info.client.connection = c then H.read c ++ h.receiver.consumed info else H.read c := by
    intro c
    unfold History.record
    simp only [hinfo, Function.update_apply]
    by_cases hc : info.client.connection = c
    · rw [if_pos hc, if_pos hc.symm, hc]
    · rw [if_neg hc, if_neg (Ne.symm hc)]
  have hframes : ∀ c, (H.record C h e).framesOn c = H.framesOn c ++
      if info.client.connection = c then (h.receiver.processed info).toList else [] := by
    intro c; rw [framesOn_record, hinfo]
  have htail : Decomposes wireFormat ((H.record C h e).read info.client.connection)
      ((H.record C h e).framesOn info.client.connection)
      (slice (h.iterate C e).1.receiver.receivedMessage 0 (h.iterate C e).1.receiver.index) := by
    rw [hread, hframes, if_pos rfl, if_pos rfl]; exact hdec
  refine ⟨hsame, hidle, hsync, by rw [hconn]; exact htail, ?_, ?_, ?_⟩
  · intro c
    by_cases hc : info.client.connection = c
    · exact ⟨_, hc ▸ htail⟩
    · rw [hread, hframes, if_neg hc, if_neg hc, List.append_nil]; exact hok.past c
  · intro c hc
    rw [hconn] at hc
    have hne : info.client.connection ≠ c := by omega
    rw [hread, hframes, if_neg hne, if_neg hne, List.append_nil]
    exact hok.future c (by omega)
  · unfold History.record
    simp only [hinfo, hmsg, hok.messages, List.filterMap_append]
    congr 1
    cases h.receiver.processed info <;> simp [List.filterMap_cons]
    cases Frame.deliver C info₀ _ <;> rfl

/-- The invariant holds along a whole run. -/
theorem StreamOk.run {info₀ : NetworkInfo} (es : List IterEnv) : ∀ {h : NetworkHandler} {H : History},
    StreamOk C info₀ h H → StreamOk C info₀ (run C (h, H) es).1 (run C (h, H) es).2 := by
  induction es with
  | nil => intro h H hok; exact hok
  | cons e es ih => intro h H hok; exact ih (hok.iterate C e)

/-- A frame processed on a connection is a contiguous part of what was read on it. -/
theorem StreamOk.frame_infix {info₀ : NetworkInfo} {h : NetworkHandler} {H : History}
    (hok : StreamOk C info₀ h H) {c : ℕ} {f : List UInt8} (hf : (c, f) ∈ H.frames) :
    f <:+: H.read c := by
  obtain ⟨t, hd⟩ := hok.past c
  have hm : f ∈ H.framesOn c := List.mem_map.2 ⟨(c, f), List.mem_filter.2 ⟨hf, by simp⟩, rfl⟩
  obtain ⟨a, b, hab⟩ := List.append_of_mem hm
  refine ⟨a.flatten, b.flatten ++ t, ?_⟩
  rw [hd.eq, hab]; simp

/-- **Reassembly does not depend on fragmentation, and never mixes connections.** For
every run of the main loop: the frames processed on each connection are the complete
frames of the unique decomposition of the bytes read on it; each is a contiguous part of
those bytes; the messages handed on are what `deliver` makes of the processed frames
(the decryption of each that is not an authenticated ping and is valid), each once and
in order; and the buffer index never exceeds 303, whatever arrives next. -/
theorem reassembly_exact (networkId : UInt32) (serverKey networkKey : Key) (t₀ t₁ : UInt32)
    (es : List IterEnv) :
    let info₀ := NetworkInfo.new networkId serverKey networkKey t₀ t₁
    let r := run C (.new info₀, .empty) es
    (∀ c, ∃ tail, Decomposes wireFormat (r.2.read c) (r.2.framesOn c) tail ∧
        ∀ fs t, Decomposes wireFormat (r.2.read c) fs t → fs = r.2.framesOn c ∧ t = tail) ∧
      (∀ c f, (c, f) ∈ r.2.frames → f <:+: r.2.read c) ∧
      r.2.messages = (r.2.frames.map (·.2)).filterMap (Frame.deliver C info₀) ∧
      ∀ info, (fill r.1.receiver info).rx.index ≤ 303 := by
  intro info₀ r
  have hok : StreamOk C info₀ r.1 r.2 := (StreamOk.new C networkId serverKey networkKey t₀ t₁).run C es
  refine ⟨?_, fun c f hf => hok.frame_infix C hf, ?_, fun info => (fill_spec info hok.idle).2.2.1⟩
  · intro c
    obtain ⟨tail, hd⟩ := hok.past c
    exact ⟨tail, hd, fun fs t h => h.unique hd⟩
  · rw [hok.messages, List.filterMap_map]; rfl

end ServerRoom
