import ServerRoom.Lib.Agreement
import ServerRoom.Proof.Promptness
import ServerRoom.System.Delivery

/-!
# Uninitialised memory stays where it is

Both programs build their messages in local variables that they do not initialise: `NetworkSender::send` on
the Arduino, and `handle_device` with `create_ping_message` on the relay server. What such a variable held
before does not get onto the network.

* `buildMessage_eqOn`, `send_stack`: what `send` writes and returns does not depend on it.
* `Board.run_cleared`: a run of the sketch is the same when all these variables are cleared first.
* `Relay.createPingMessage_wire`: the server's ping is always the same 48 bytes; `Relay.signPing_drop`: with
  another digest it differs in the signature only.
* `Relay.passed_known`: what the relay server writes is of such a ping, or of a frame that it received and
  that passed its check.
-/

namespace ServerRoom

open ByteMem Framing NetworkSender NetworkHandler

variable {C : Crypto} {info : NetworkInfo} {stack stack' m m' : Packed} {t : UInt8} {payload : List UInt8} {n : UInt8}

/-! ## The Arduino's messages -/

/-- The signed part of a message with `n` bytes of payload: everything from byte 8 on. -/
def signedPart (n : UInt8) : Set ℕ := Set.Ico 8 (48 + n.toNat)

theorem header_subset {off len : ℕ} (hoff : 8 ≤ off) (hlen : off + len ≤ 48) :
    Set.Ico off (off + len) ⊆ signedPart n :=
  Set.Ico_subset_Ico hoff (hlen.trans (Nat.le_add_right _ _))

theorem payloadLength_eq_of_eqOn (h : Set.EqOn m m' (signedPart n)) : m.payloadLength = m'.payloadLength :=
  h ⟨Nat.le_refl 8, by omega⟩

/-- **`send` writes the whole signed part.** -/
theorem generateMessage_eqOn (info : NetworkInfo) (stack stack' : Packed) (t : UInt8)
    (hn : n.toNat ≤ payload.length) :
    Set.EqOn (generateMessage info stack t payload n) (generateMessage info stack' t payload n) (signedPart n) := by
  have hlen : (payload.take n.toNat).length = n.toNat := by
    rw [List.length_take]
    exact Nat.min_eq_left hn
  have h : Set.EqOn stack stack' ∅ := fun i hi => hi.elim
  have h := eqOn_put h 8 n
  have h := eqOn_store32 h 9 info.networkId
  have h := eqOn_put h 40 t
  have h := eqOn_store64 h 24 0xFFFFFFFFFFFFFFFF
  have h := eqOn_write h 32 arduinoIdentifier
  have h := eqOn_write h 13 (List.replicate 3 0xFF)
  have h := eqOn_write h 16 (List.replicate 8 0xFF)
  have h := eqOn_write h 41 (List.replicate 7 0xFF)
  have h := eqOn_write h 48 (payload.take n.toNat)
  -- together these are the bytes from 8 on
  refine h.mono fun i hi => ?_
  have hid : arduinoIdentifier.length = 8 := rfl
  unfold signedPart at hi
  simp only [Set.mem_union, Set.mem_insert_iff, Set.mem_Ico, Set.mem_empty_iff_false, List.length_replicate, hlen,
    hid] at hi ⊢
  omega

theorem htonHandling_eqOn (h : Set.EqOn m m' (signedPart n)) :
    Set.EqOn (htonHandling m) (htonHandling m') (signedPart n) := by
  have hid : m.networkId = m'.networkId := load32_eq_of_eqOn h (header_subset (by omega) (by omega))
  have h := eqOn_store32 h 9 (htonl m.networkId)
  have htime : (m.setNetworkId (htonl m.networkId)).unixTimestamp =
      (m'.setNetworkId (htonl m.networkId)).unixTimestamp :=
    load64_eq_of_eqOn h ((header_subset (by omega) (by omega)).trans Set.subset_union_left)
  have h := eqOn_store64 h 24 (htonll (m.setNetworkId (htonl m.networkId)).unixTimestamp)
  have hm' : htonHandling m' = store64 (store32 m' 9 (htonl m'.networkId)) 24
      (htonll (m'.setNetworkId (htonl m'.networkId)).unixTimestamp) := rfl
  rw [hm', ← hid, ← htime]
  exact h.mono fun i hi => .inl (.inl hi)

theorem encryptMessage_eqOn (C : Crypto) (info : NetworkInfo) (hlen : m.payloadLength = n)
    (h : Set.EqOn m m' (signedPart n)) :
    Set.EqOn (encryptMessage C info m) (encryptMessage C info m') (signedPart n) := by
  have hlen' : m'.payloadLength = n := (payloadLength_eq_of_eqOn h).symm.trans hlen
  have hvector : m.aesVector = m'.aesVector := slice_eq_of_eqOn h (header_subset (by omega) (by omega))
  have hplain : slice m 32 (n.toNat + 16) = slice m' 32 (n.toNat + 16) :=
    slice_eq_of_eqOn h (Set.Ico_subset_Ico (by omega) (by omega))
  unfold encryptMessage
  dsimp only
  rw [hlen, hlen', hvector, hplain]
  exact (eqOn_write h 32 _).mono Set.subset_union_left

/-- Both signatures are made of the signed part. -/
theorem signMessage_eqOn (C : Crypto) (info : NetworkInfo) (hlen : m.payloadLength = n)
    (h : Set.EqOn m m' (signedPart n)) :
    Set.EqOn (signMessage C info m) (signMessage C info m') (Set.Iio (48 + n.toNat)) := by
  have hspec : ∀ {x : Packed}, x.payloadLength = n →
      slice (signMessage C info x) 8 (n.toNat + 40) = slice x 8 (n.toNat + 40) ∧
        slice (signMessage C info x) 0 4 = (C.hmac info.serverKey (slice x 8 (n.toNat + 40)) 4).reverse ∧
        slice (signMessage C info x) 4 4 = (C.hmac info.networkKey (slice x 8 (n.toNat + 40)) 4).reverse := by
    intro x hx
    have hzeros : x.payloadLength.toNat = (List.replicate n.toNat (0 : UInt8)).length := by simp [hx]
    obtain ⟨-, hkept, hserver, hnetwork⟩ := signMessage_spec C info x hzeros
    rw [List.length_replicate] at hserver hnetwork
    exact ⟨hkept 8 _ (by omega), hserver, hnetwork⟩
  obtain ⟨h1, h2, h3⟩ := hspec hlen
  obtain ⟨h1', h2', h3'⟩ := hspec ((payloadLength_eq_of_eqOn h).symm.trans hlen)
  have hsigned : slice m 8 (n.toNat + 40) = slice m' 8 (n.toNat + 40) :=
    slice_eq_of_eqOn h (Set.Ico_subset_Ico (by omega) (by omega))
  rw [hsigned] at h1 h2 h3
  have hrest := slice_eq_iff_eqOn.1 (h1.trans h1'.symm)
  have hserver := slice_eq_iff_eqOn.1 (h2.trans h2'.symm)
  have hnetwork := slice_eq_iff_eqOn.1 (h3.trans h3'.symm)
  refine ((hserver.union hnetwork).union hrest).mono fun i hi => ?_
  simp only [Set.mem_union, Set.mem_Ico, Set.mem_Iio] at hi ⊢
  omega

/-- **The message is made of what `send` was given.** Of the memory that the local variable takes, nothing
is left in it. -/
theorem buildMessage_eqOn (hn : n.toNat ≤ payload.length) :
    Set.EqOn (buildMessage C info stack t payload n) (buildMessage C info stack' t payload n)
      (Set.Iio (48 + n.toNat)) := by
  have hconverted := htonHandling_eqOn (generateMessage_eqOn info stack stack' t hn)
  have hlen := (htonHandling_payloadLength _).trans (generateMessage_payloadLength info stack t payload n)
  have hencrypted := encryptMessage_eqOn C info hlen hconverted
  have hsigned := signMessage_eqOn C info ((encryptMessage_payloadLength info _).trans hlen) hencrypted
  unfold buildMessage
  dsimp only
  by_cases ht : t = 0
  · rw [if_pos ht, if_pos ht]
    exact (eqOn_store32 hsigned 4 _).mono Set.subset_union_left
  · rw [if_neg ht, if_neg ht]
    exact hsigned

/-! ## `send` -/

theorem writeLoop_eqOn {len : ℕ} (h : Set.EqOn m m' (Set.Iio len)) (write : ℕ → Bool) (left : ℕ) :
    ∀ tries sent, writeLoop m len write left tries sent = writeLoop m' len write left tries sent := by
  induction left with
  | zero => exact fun _ _ => rfl
  | succ left ih =>
    intro tries sent
    unfold writeLoop
    rw [ih, ih]
    by_cases hs : sent < len
    · rw [h hs]
    · rw [if_neg hs, if_neg hs]

theorem ethernetSendMessage_eqOn (hlen : m.payloadLength = n) (h : Set.EqOn m m' (Set.Iio (48 + n.toNat)))
    (info : NetworkInfo) (link : Link) : ethernetSendMessage info link m = ethernetSendMessage info link m' := by
  have hlen' : m'.payloadLength = n := (h (Set.mem_Iio.2 (by omega : 8 < 48 + n.toNat))).symm.trans hlen
  rw [Nat.add_comm] at h
  unfold ethernetSendMessage
  dsimp only
  rw [hlen, hlen', show n.toNat + headerLength = n.toNat + 48 from rfl, writeLoop_eqOn h]

/-- What a call hands over, and what it writes of that, are slices of the message. -/
theorem attempt_eqOn (hlen : m.payloadLength = n) (h : Set.EqOn m m' (Set.Iio (48 + n.toNat))) (link : Link) :
    attempt (m, link) = attempt (m', link) := by
  have hlen' : m'.payloadLength = n := (h (Set.mem_Iio.2 (by omega : 8 < 48 + n.toNat))).symm.trans hlen
  have hthrough : through (m, link) = through (m', link) := by
    unfold through messageLength
    rw [hlen, hlen']
  have hslice : ∀ k ≤ 48 + n.toNat, slice m 0 k = slice m' 0 k := fun k hk =>
    slice_eq_of_eqOn h fun i hi => Set.mem_Iio.2 (by have := hi.2; omega)
  have hwhole : messageLength m = n.toNat + 48 := by
    unfold messageLength
    rw [hlen]
    rfl
  have hwhole' : messageLength m' = n.toNat + 48 := by
    unfold messageLength
    rw [hlen']
    rfl
  have hle : through (m, link) ≤ messageLength m := by
    simpa [attempt] using (attempt (m, link)).isPrefix.length_le
  unfold attempt
  dsimp only
  congr 1
  · rw [hwhole, hwhole', hslice _ (Nat.le_of_eq (Nat.add_comm _ _))]
  · rw [← hthrough, hslice _ (by omega)]

theorem handed_stack (info : NetworkInfo) (stack stack' : Packed) (link : Link) (t : UInt8)
    (hn : n.toNat ≤ payload.length) :
    (handed C info stack link t payload n).map attempt = (handed C info stack' link t payload n).map attempt := by
  unfold handed
  split
  · rfl
  · rw [List.map_singleton, List.map_singleton,
      attempt_eqOn (buildMessage_payloadLength info stack t payload n) (buildMessage_eqOn hn) link]

/-- **`send` does not depend on the memory of its local variable**, in what it writes and returns. -/
theorem send_stack (info : NetworkInfo) (stack stack' : Packed) (link : Link) (t : UInt8)
    (hn : n.toNat ≤ payload.length) :
    NetworkSender.send C info stack link t payload n = NetworkSender.send C info stack' link t payload n := by
  unfold NetworkSender.send
  split
  · rfl
  · exact ethernetSendMessage_eqOn (buildMessage_payloadLength info stack t payload n) (buildMessage_eqOn hn) info link

/-! ## The sketch -/

/-- The poke carries no payload. -/
theorem ready_stack (e : LoopEnv) (stack : Packed) (h : NetworkHandler) :
    ready C { e with stack := stack } h = ready C e h := by
  have hpoke : ∀ info : NetworkInfo, NetworkSender.send C info stack e.link 0x00 [] 0 =
      NetworkSender.send C info e.stack e.link 0x00 [] 0 :=
    fun info => send_stack info stack e.stack e.link 0x00 (Nat.zero_le _)
  have hkeep : NetworkConnection.keepConnected C { e with stack := stack } h.info =
      NetworkConnection.keepConnected C e h.info := by
    unfold NetworkConnection.keepConnected
    simp only [hpoke]
  unfold ready
  simp only [hkeep]

theorem loop_stack (e : LoopEnv) (stack : Packed) (h : NetworkHandler) :
    h.loop C { e with stack := stack } = h.loop C e := by
  unfold NetworkHandler.loop
  rw [ready_stack]

namespace Board

variable {V : Type} {format : Reading V → String}

/-- The same iteration, with the local variables of `send` cleared before it is called. -/
def Env.cleared (e : Env V) : Env V :=
  { e with network := { e.network with stack := fun _ => 0 }, stack := fun _ => 0 }

/-- A report is at least as long as the length it is sent with, which is cut to 8 bits. -/
theorem sendCall_length (stack : Packed) (link : Link) (payload : String) :
    (sendCall stack link payload).payloadLength.toNat ≤ (sendCall stack link payload).payload.length := by
  unfold sendCall
  rw [UInt8.toNat_ofNat']
  exact Nat.mod_le _ _

theorem send_report (h : NetworkHandler) (stack stack' : Packed) (link : Link) (payload : String) :
    h.send C (sendCall stack link payload) = h.send C (sendCall stack' link payload) := by
  have hn := sendCall_length stack link payload
  unfold NetworkHandler.send
  dsimp only [sendCall] at hn ⊢
  rw [send_stack h.info stack stack' link 0x20 hn]

theorem loop_cleared (b : Board V) (e : Env V) : b.loop C format e.cleared = b.loop C format e := by
  unfold loop Env.cleared
  simp only [loop_stack]
  cases h : ((b.sensors.sense e.sensors).reportDataToServer
    (reporting format (b.temperatureHumidityHandler.loop e.measurement).1 e.sensors)).2 with
  | none => rfl
  | some payload => simp only [send_report _ (fun _ => 0) e.stack]

/-- The report of an iteration, with cleared memory. -/
theorem iterEnv_cleared (b : Board V) (e : Env V) : b.iterEnv format e.cleared =
    { e.network with
      stack := fun _ => 0
      report := (b.payload format e).map (sendCall (fun _ => 0) e.link) } := rfl

theorem iterate_cleared (h : NetworkHandler) (b : Board V) (e : Env V) :
    h.iterate C (b.iterEnv format e.cleared) = h.iterate C (b.iterEnv format e) := by
  rw [iterEnv_cleared]
  unfold iterate iterEnv
  simp only [loop_stack]
  cases b.payload format e with
  | none => rfl
  | some payload => simp only [Option.map_some, send_report _ (fun _ => 0) e.stack]

/-- What a log shows: the frames and messages that were read, what was handed over on each connection and
what was written of each message, and the buttons. -/
def Log.seen (L : Log) : NetworkHandler.History × (ℕ → List (Attempt UInt8)) × (ℕ → List (List Level)) :=
  (L.history, L.transcript.attempts, L.buttons)

theorem record_history (H : NetworkHandler.History) (h : NetworkHandler) (b : Board V) (e : Env V) :
    H.record C h (b.iterEnv format e.cleared) = H.record C h (b.iterEnv format e) := by
  have hready : ready C (b.iterEnv format e.cleared).toLoopEnv h = ready C (b.iterEnv format e).toLoopEnv h :=
    ready_stack e.network (fun _ => 0) h
  unfold NetworkHandler.History.record
  rw [hready, iterate_cleared]

theorem record_congr {T T' : Transcript} {h : NetworkHandler} {a a' : Call} (hT : T.attempts = T'.attempts)
    (hc : (h.hands C a).1 = (h.hands C a').1) (ha : (h.hands C a).2.map attempt = (h.hands C a').2.map attempt) :
    (T.record C h a).attempts = (T'.record C h a').attempts := by
  funext c
  rw [record_attempts, record_attempts, hT, hc, ha]

/-- The calls of an iteration hand over the same bytes. -/
theorem transcribe_cleared {T T' : Transcript} (hT : T.attempts = T'.attempts) (h : NetworkHandler) (b : Board V)
    (e : Env V) : (transcribe C T h (b.iterEnv format e.cleared)).attempts =
      (transcribe C T' h (b.iterEnv format e)).attempts := by
  have hloop : (T.record C h (.loop { e.network with stack := fun _ => 0 })).attempts =
      (T'.record C h (.loop e.network)).attempts := by
    refine record_congr hT rfl ?_
    have hpoke := handed_stack (C := C) (n := 0) (NetworkConnection.beforePoke e.network h.info) (fun _ => 0)
      e.network.stack e.network.link 0x00 (Nat.zero_le ([] : List UInt8).length)
    have hcleared : (h.hands C (.loop { e.network with stack := fun _ => 0 })).2 =
        if NetworkConnection.Pokes e.network h.info then
          handed C (NetworkConnection.beforePoke e.network h.info) (fun _ => 0) e.network.link 0x00 [] 0
        else [] := rfl
    rw [hcleared]
    by_cases hp : NetworkConnection.Pokes e.network h.info
    · simpa only [hands, if_pos hp] using hpoke
    · simp only [hands, if_neg hp]
  rw [iterEnv_cleared]
  unfold transcribe iterEnv
  simp only [loop_stack]
  cases b.payload format e with
  | none => exact hloop
  | some payload =>
    exact record_congr hloop rfl (handed_stack _ _ _ e.link 0x20 (sendCall_length e.stack e.link payload))

theorem record_cleared {L L' : Log} (hL : L.seen = L'.seen) (b : Board V) (e : Env V) :
    (L.record C format b e.cleared).seen = (L'.record C format b e).seen := by
  simp only [Log.seen, Prod.mk.injEq] at hL ⊢
  obtain ⟨hhistory, hattempts, hbuttons⟩ := hL
  refine ⟨?_, transcribe_cleared hattempts b.networkHandler b e, ?_⟩
  · unfold Log.record
    rw [hhistory]
    exact record_history L'.history b.networkHandler b e
  · unfold Log.record Env.cleared
    rw [hbuttons]

theorem logged_cleared [Zero V] {L L' : Log} (hL : L.seen = L'.seen) (b : Board V) (es : List (Env V)) :
    ((logged C format).run (b, L) (es.map Env.cleared)).map (fun p => (p.1, p.2.seen)) =
      ((logged C format).run (b, L') es).map fun p => (p.1, p.2.seen) := by
  induction es generalizing b L L' with
  | nil => exact congrArg (fun seen => some (b, seen)) hL
  | cons e es ih =>
    have hstep : ∀ (L : Log) (e : Env V) es, (logged C format).run (b, L) (e :: es) =
        (logged C format).run ((b.loop C format e).1, L.record C format b e) es := fun _ _ _ => rfl
    rw [List.map_cons, hstep, hstep, loop_cleared]
    exact ih (record_cleared hL b e) _

/-- **Uninitialised memory has no effect.** Whatever the local variables of `send` hold in the iterations of
a run, the board ends as if they had been cleared, and so does what is seen of the run: on every connection
the same messages were handed over, and the same bytes of each were written. -/
theorem run_cleared [Zero V] (C : Crypto) (format : Reading V → String) (b : Board V) (es : List (Env V)) :
    (board C format).run b (es.map Env.cleared) = (board C format).run b es ∧
      ∀ L, ((logged C format).run (b, L) (es.map Env.cleared)).map (fun p => (p.1, p.2.seen)) =
        ((logged C format).run (b, L) es).map fun p => (p.1, p.2.seen) := by
  refine ⟨?_, fun L => logged_cleared rfl b es⟩
  induction es generalizing b with
  | nil => rfl
  | cons e es ih =>
    have hstep : ∀ (e : Env V) es, (board C format).run b (e :: es) =
        (board C format).run (b.loop C format e).1 es := fun _ _ => rfl
    rw [List.map_cons, hstep, hstep, loop_cleared]
    exact ih _

end Board

/-! ## The relay server -/

namespace Relay

open Runs

variable {s : Server} {H : History} {G : Server × History → Action → Prop}

/-- `create_ping_message` writes everything but the signature. -/
theorem unsignedPing_eqOn (stack stack' : NetworkMessage) :
    Set.EqOn (unsignedPing stack).bytes (unsignedPing stack').bytes (Set.Ico 4 48) := by
  have h : Set.EqOn stack.bytes stack'.bytes ∅ := fun i hi => hi.elim
  have h := eqOn_put h 8 0x0
  have h := eqOn_store32 h 9 0x0
  have h := eqOn_store64 h 24 0xFFFFFFFFFFFFFFFF
  have h := eqOn_put h 40 0xFF
  have h := eqOn_store32 h 4 0xFFFFFFFF
  have h := eqOn_write h 13 (List.replicate 3 0xFF)
  have h := eqOn_write h 41 (List.replicate 7 0xFF)
  have h := eqOn_write h 16 (List.replicate 8 0xFF)
  have h := eqOn_write h 32 (List.replicate 8 0xFF)
  refine h.mono fun i hi => ?_
  simp only [Set.mem_union, Set.mem_insert_iff, Set.mem_Ico, Set.mem_empty_iff_false, List.length_replicate] at hi ⊢
  omega

theorem signPing_wire (digest : List UInt8) (stack stack' : NetworkMessage) :
    (signPing digest (unsignedPing stack)).wire = (signPing digest (unsignedPing stack')).wire := by
  refine slice_eq_of_eqOn (eqOn_store32 (unsignedPing_eqOn stack stack') 0 _) fun i hi => ?_
  have hi' : i < 48 := hi.2
  simp only [Set.mem_union, Set.mem_Ico]
  omega

/-- **The server's ping is always the same 48 bytes**, when it is signed with its own digest. -/
theorem createPingMessage_wire (C : Crypto) (stack stack' : NetworkMessage) :
    (createPingMessage C stack).wire = (createPingMessage C stack').wire := by
  -- the digest is that of bytes which `create_ping_message` writes
  have hdigest : digestOf C (unsignedPing stack) = digestOf C (unsignedPing stack') := by
    have hcovered : slice (unsignedPing stack).bytes 8 (headerLength - 8) =
        slice (unsignedPing stack').bytes 8 (headerLength - 8) :=
      slice_eq_of_eqOn (unsignedPing_eqOn stack stack') (Set.Ico_subset_Ico (by omega) le_rfl)
    exact congrArg (fun data => (C.hmacSha256 key.toList data).toList) hcovered
  unfold createPingMessage
  rw [hdigest]
  exact signPing_wire _ stack stack'

/-- Another digest changes the signature only. -/
theorem signPing_drop (digest digest' : List UInt8) (stack : NetworkMessage) :
    (signPing digest (unsignedPing stack)).wire.drop 4 = (signPing digest' (unsignedPing stack)).wire.drop 4 := by
  have hwire : ∀ d : List UInt8, (signPing d (unsignedPing stack)).wire.drop 4 =
      slice (unsignedPing stack).bytes 4 44 := by
    intro d
    have hdrop := slice_drop (signPing d (unsignedPing stack)).bytes 0 (show 4 ≤ headerLength by decide)
    exact hdrop.trans (signPing_slice d (unsignedPing stack) (by omega))
  rw [hwire, hwire]

/-- **Everything the server sends is known.** What a call of `send_message` writes is of a ping, whose bytes
after the signature are the same whatever the memory held that it is built in, or of a frame that the server
received and that passed its check. If no thread has called `HMAC` between another one's call and its use of
the digest, it is of the one ping, signed with its own digest, or of an authentic frame. -/
theorem passed_known (h : (observed C).ReachWhen G (s, H)) {d : ℕ} {call : NetworkMessage × List (Option ℕ)}
    (hc : call ∈ H.passed d) (stack : NetworkMessage) :
    ((∃ f, f.length = 48 ∧ f.drop 4 = (createPingMessage C stack).wire.drop 4 ∧ History.written call <+: f) ∨
      ∃ d', ∃ f ∈ H.received d', f ∈ H.verified d' ∧ History.written call <+: f) ∧
    ((observed C).ReachWhen (fun p a => SparesPings p.1 a ∧ SparesChecks p.1 a) (s, H) →
      History.written call <+: (createPingMessage C stack).wire ∨
        ∃ d', ∃ f ∈ H.received d', Frame.isAuthentic C f = true ∧ History.written call <+: f) := by
  obtain ⟨x, hx, hmsg⟩ := List.mem_map.1 ((passed_begins h d).subset (List.mem_map_of_mem hc))
  rw [written_eq, ← hmsg]
  have hbegins : ∀ f : List UInt8, x.message.wire = f → x.message.wire.take (taken call.2) <+: f := by
    rintro f rfl
    exact List.take_prefix _ _
  cases ho : x.origin with
  | none =>
    obtain ⟨stack', digest, heq⟩ := appended_ping h hx ho
    refine ⟨.inl ⟨_, ?_, ?_, hbegins _ rfl⟩, fun hspares => .inl (hbegins _ ?_)⟩
    · rw [heq]
      exact slice_length _ _ _
    · rw [heq, signPing_wire digest stack' stack]
      exact signPing_drop digest _ stack
    · obtain ⟨stack', heq⟩ := appended_signed (fun _ _ hg => hg.1) hspares hx ho
      rw [heq]
      exact createPingMessage_wire C stack' stack
  | some o =>
    have hprov := Provenance.reach h
    obtain ⟨hverified, -⟩ := hprov.appended d x o.1 o.2 hx ho
    have hreceived := (hprov.verified o.1 _ hverified.mem).1
    exact ⟨.inr ⟨o.1, _, hreceived, hverified.mem, hbegins _ rfl⟩, fun hspares =>
      .inr ⟨o.1, _, hreceived, verified_authentic (fun _ _ hg => hg.2) hspares o.1 _ hverified.mem, hbegins _ rfl⟩⟩

/-- Device 0 has joined, and its sender has sent a message. -/
theorem passed_known_broadcastSelf : ∃ s H call,
    (observed Crypto.zero).ReachWhen (fun p a => SparesPings p.1 a ∧ SparesChecks p.1 a) (s, H) ∧ call ∈ H.passed 0 ∧
    (History.written call <+: (createPingMessage Crypto.zero ⟨fun _ => 0, 0⟩).wire ∨
      ∃ d', ∃ f ∈ H.received d', Frame.isAuthentic Crypto.zero f = true ∧ History.written call <+: f) := by
  have hrun : ((observed Crypto.zero).runWhen (fun p a => SparesPings p.1 a ∧ SparesChecks p.1 a)
      (Server.fresh, .empty) (broadcastSelf ++ .replicate 6 (.sender 0 { results := [some 48] }))).any
        (fun p => (p.2.passed 0).length = 1) = true := by
    decide +kernel
  obtain ⟨⟨s, H⟩, hr, hs⟩ := Machine.exists_reachWhen (observed_init _ Server.fresh_starts) hrun
  obtain ⟨call, hcall⟩ := List.length_eq_one_iff.1 (of_decide_eq_true hs)
  have hmem : call ∈ H.passed 0 := by rw [hcall]; exact List.mem_singleton_self _
  exact ⟨s, H, call, hr, hmem, (passed_known hr hmem _).2 hr⟩

end Relay

end ServerRoom
