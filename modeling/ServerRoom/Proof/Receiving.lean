import ServerRoom.Proof.Reassembly
import ServerRoom.Proof.Verdict
import ServerRoom.Spec.Receiving

/-!
# Reading a connection in pieces

`receiveLoop_spec` says what `receive_message` takes from the stream and where it puts it,
however `recv` splits the stream, and `readRound_spec` what a round of the reading loop makes
of it. `readMessages_spec` follows by induction on the rounds: the messages passed on are
complete frames at the front of the stream. `reassembly_split` compares them with the
decomposition of the stream.
-/

namespace ServerRoom.Relay

open ByteMem Framing

variable {buffer : ℕ} {recvLength recvCounter : UInt16} {m : Packed} {incoming : List UInt8} {polls : List Poll}

/-! ## `receive_message` -/

/-- No time is up, and no call of `recv` returns -1. -/
def Undisturbed (polls : List Poll) : Prop := ∀ p ∈ polls, ∃ k, p = .finds k

/-- **What `receive_message` has done** from the counter `c` on: it took `bytes` from the stream
and stored them in their place. It succeeded only if the buffer is full, and undisturbed it
failed only at the end of the stream. -/
structure Takes (buffer : ℕ) (recvLength : UInt16) (c : ℕ) (m : Packed) (incoming : List UInt8)
    (polls : List Poll) (r : Reception) (bytes : List UInt8) : Prop where
  stream : incoming = bytes ++ r.incoming
  mem : r.mem = write m (buffer + c) bytes
  fits : c + bytes.length ≤ recvLength.toNat
  success : ∀ v, r.result = some v → v ≠ -1 → c + bytes.length = recvLength.toNat
  failure : r.result = some (-1) → Undisturbed polls → r.incoming = [] ∧ c + bytes.length < recvLength.toNat

/-- The number of bytes received is not taken for an error. -/
theorem toInt16_ne (hn : recvLength.toNat < 2 ^ 15) : recvLength.toInt16 ≠ -1 := by
  intro he
  have hmax : recvLength = 65535 := congrArg Int16.toUInt16 he
  rw [hmax] at hn
  exact absurd hn (by decide)

/-- Adding -1 to the counter does not make it the length. -/
theorem counter_ne (hn : recvLength.toNat < 2 ^ 15) (hc : recvCounter.toNat ≤ recvLength.toNat) :
    recvCounter + UInt16.ofInt (-1) ≠ recvLength := by
  intro he
  have hsum := congrArg UInt16.toNat he
  rw [UInt16.toNat_add, show (UInt16.ofInt (-1)).toNat = 65535 from rfl] at hsum
  omega

/-- A round in which `recv` returns -1. -/
theorem receiveLoop_fails (hn : recvLength.toNat < 2 ^ 15) (hc : recvCounter.toNat ≤ recvLength.toNat)
    (buffer : ℕ) (m : Packed) (incoming : List UInt8) (polls : List Poll) :
    receiveLoop buffer recvLength m incoming recvCounter (.fails :: polls) = ⟨m, incoming, some (-1)⟩ := by
  show (⟨m, incoming, some (if _ then _ else _)⟩ : Reception) = _
  rw [if_neg (counter_ne hn hc)]

/-- A round that gives up takes nothing. -/
theorem Takes.gives_up (hc : recvCounter.toNat ≤ recvLength.toNat) {poll : Poll} (hp : ∀ k, poll ≠ .finds k) :
    Takes buffer recvLength recvCounter.toNat m incoming (poll :: polls) ⟨m, incoming, some (-1)⟩ [] where
  stream := rfl
  mem := (write_slice_self m _ 0).symm
  fits := hc
  success v hv hne := by
    cases hv
    exact absurd rfl hne
  failure _ hu := by
    obtain ⟨k, hk⟩ := hu poll (.head _)
    exact absurd hk (hp k)

/-- A round in which `recv` does not fail: it takes `bytes`, at least one if the buffer is not
full and the stream is not at its end. -/
theorem receiveLoop_finds (hn : recvLength.toNat < 2 ^ 15) (hc : recvCounter.toNat ≤ recvLength.toNat)
    (buffer k : ℕ) (m : Packed) (incoming : List UInt8) (polls : List Poll) :
    ∃ bytes, bytes ++ incoming.drop bytes.length = incoming ∧
      recvCounter.toNat + bytes.length ≤ recvLength.toNat ∧
      (recvCounter + UInt16.ofNat bytes.length).toNat = recvCounter.toNat + bytes.length ∧
      (bytes = [] → recvCounter.toNat < recvLength.toNat → incoming = []) ∧
      receiveLoop buffer recvLength m incoming recvCounter (.finds k :: polls) =
        if recvCounter + UInt16.ofNat bytes.length = recvLength then
          ⟨write m (buffer + recvCounter.toNat) bytes, incoming.drop bytes.length, some recvLength.toInt16⟩
        else if bytes = [] then
          ⟨write m (buffer + recvCounter.toNat) bytes, incoming.drop bytes.length, some (-1)⟩
        else receiveLoop buffer recvLength (write m (buffer + recvCounter.toNat) bytes)
          (incoming.drop bytes.length) (recvCounter + UInt16.ofNat bytes.length) polls := by
  refine ⟨incoming.take (min (k + 1) ((recvLength.toNat : ℤ) - recvCounter.toNat).toNat), ?_, ?_, ?_, ?_, rfl⟩
  · exact List.prefix_iff_eq_append.1 (List.take_prefix _ _)
  · rw [List.length_take]
    omega
  · rw [UInt16.toNat_add, UInt16.toNat_ofNat', List.length_take]
    omega
  · intro hnil hlt
    rcases List.take_eq_nil_iff.1 hnil with hz | he
    · omega
    · exact he

theorem receiveLoop_spec (hn : recvLength.toNat < 2 ^ 15) (polls : List Poll) :
    ∀ (m : Packed) (incoming : List UInt8) (recvCounter : UInt16), recvCounter.toNat ≤ recvLength.toNat →
      ∃ bytes, Takes buffer recvLength recvCounter.toNat m incoming polls
        (receiveLoop buffer recvLength m incoming recvCounter polls) bytes := by
  induction polls with
  | nil =>
    intro m incoming c hc
    exact ⟨[], rfl, (write_slice_self m _ 0).symm, hc, nofun, nofun⟩
  | cons poll polls ih =>
    intro m incoming c hc
    cases poll with
    | late => exact ⟨[], .gives_up hc fun k hk => by cases hk⟩
    | fails =>
      rw [receiveLoop_fails hn hc]
      exact ⟨[], .gives_up hc fun k hk => by cases hk⟩
    | finds k =>
      obtain ⟨bytes, hsplit, hlen, hsum, hnil, hr⟩ := receiveLoop_finds hn hc buffer k m incoming polls
      rw [hr]
      split
      · -- the buffer is full
        rename_i hfull
        rw [← UInt16.toNat_inj, hsum] at hfull
        exact ⟨bytes, hsplit.symm, rfl, hlen, fun _ _ _ => hfull,
          fun he => absurd (Option.some.inj he) (toInt16_ne hn)⟩
      · rename_i hne
        rw [← UInt16.toNat_inj, hsum] at hne
        split
        · -- `recv` returned 0 although the buffer is not full
          rename_i hbytes
          subst hbytes
          have hlt : c.toNat < recvLength.toNat := Nat.lt_of_le_of_ne hc hne
          refine ⟨[], rfl, rfl, hc, fun v hv hv1 => ?_, fun _ _ => ⟨hnil rfl hlt, hlt⟩⟩
          cases hv
          exact absurd rfl hv1
        · obtain ⟨more, h⟩ := ih (write m (buffer + c.toNat) bytes) (incoming.drop bytes.length)
            (c + UInt16.ofNat bytes.length) (by rw [hsum]; exact hlen)
          rw [hsum] at h
          refine ⟨bytes ++ more, ?_, ?_, ?_, fun v hv hv1 => ?_, fun he hu => ?_⟩
          · rw [List.append_assoc, ← h.stream]
            exact hsplit.symm
          · rw [h.mem, ← write_append, Nat.add_assoc]
          · rw [List.length_append, ← Nat.add_assoc]
            exact h.fits
          · rw [List.length_append, ← Nat.add_assoc]
            exact h.success v hv hv1
          · rw [List.length_append, ← Nat.add_assoc]
            exact h.failure he fun p hp => hu p (.tail _ hp)

/-- **`receive_message` returns**, undisturbed and with more rounds than bytes are missing. -/
theorem receiveLoop_returns (hn : recvLength.toNat < 2 ^ 15) (polls : List Poll) :
    ∀ (m : Packed) (incoming : List UInt8) (recvCounter : UInt16), recvCounter.toNat ≤ recvLength.toNat →
      Undisturbed polls → recvLength.toNat < recvCounter.toNat + polls.length →
      (receiveLoop buffer recvLength m incoming recvCounter polls).result ≠ none := by
  induction polls with
  | nil =>
    intro m incoming c hc _ hlen
    simp only [List.length_nil] at hlen
    omega
  | cons poll polls ih =>
    intro m incoming c hc hu hlen
    obtain ⟨k, rfl⟩ := hu _ (.head _)
    obtain ⟨bytes, -, hle, hsum, -, hr⟩ := receiveLoop_finds hn hc buffer k m incoming polls
    rw [hr]
    split
    · simp
    · split
      · simp
      · rename_i hne
        have hpos : 0 < bytes.length := List.length_pos_iff.2 hne
        refine ih _ _ _ (by rw [hsum]; exact hle) (fun p hp => hu p (.tail _ hp)) ?_
        rw [hsum]
        rw [List.length_cons] at hlen
        omega

theorem receiveMessage_spec (hn : recvLength.toNat < 2 ^ 15) (buffer : ℕ) (m : Packed) (incoming : List UInt8)
    (polls : List Poll) :
    ∃ bytes, Takes buffer recvLength 0 m incoming polls (receiveMessage buffer recvLength m incoming polls) bytes :=
  receiveLoop_spec hn polls m incoming 0 (Nat.zero_le _)

/-! ## The reading loop -/

/-- Nothing cuts the reading short. -/
def Smooth (rounds : List Round) : Prop :=
  ∀ r ∈ rounds, r.inTime = true ∧ Undisturbed r.header ∧ Undisturbed r.payload

/-- **What the reading loop has done**: it passed on complete frames, after which it has taken
`started`. -/
structure Reads (message : Packed) (incoming : List UInt8) (rounds : List Round) (r : Reading)
    (started : List UInt8) : Prop where
  stream : incoming = (r.passed.map NetworkMessage.wire).flatten ++ (started ++ r.incoming)
  frame : ∀ x ∈ r.passed, (∃ b, x = recvd b) ∧ wireFormat.IsFrame x.wire
  outside : ∀ i, maxMessageLength ≤ i → r.message i = message i
  ended : r.left = true → Smooth rounds → r.incoming = [] ∧ ¬ wireFormat.HasFrame started

/-- A header and its payload in the buffer. -/
theorem payload_mem {h p : List UInt8} (m : Packed) (hh : h.length = 48) :
    slice (write (write m 0 h) 48 p) 0 (48 + p.length) = h ++ p ∧
      Packed.payloadLength (write (write m 0 h) 48 p) = Packed.payloadLength (write m 0 h) := by
  constructor
  · rw [show write (write m 0 h) 48 p = write (write m 0 h) (0 + h.length) p by rw [hh], write_append]
    exact slice_write_eq _ _ (by rw [List.length_append, hh])
  · exact write_of_lt _ _ (by omega)

/-- Nothing is stored outside the message. -/
theorem payload_outside {h p : List UInt8} (m : Packed) (hh : h.length ≤ 48) (hp : p.length ≤ 255) {i : ℕ}
    (hi : maxMessageLength ≤ i) : write (write m 0 h) 48 p i = m i := by
  have hmax : maxMessageLength = 303 := rfl
  rw [write_of_ge _ _ (by omega), write_of_ge _ _ (by omega)]

/-- How a round of the loop ends: a call of `recv` has not returned, the loop is left, or a
message is passed on. -/
inductive Ending
  | waits
  | leaves
  | passes

/-- **One round of the loop**: the memory and the stream after it, and how it ends. -/
def readRound (message : Packed) (incoming : List UInt8) (round : Round) : Packed × List UInt8 × Ending :=
  if !round.inTime then (message, incoming, .leaves)
  else
    let header := receiveMessage 0 48 message incoming round.header
    match header.result with
    | none => (header.mem, header.incoming, .waits)
    | some headerLen =>
      if headerLen = -1 then (header.mem, header.incoming, .leaves)
      else
        let payload := receiveMessage headerLength header.mem.payloadLength.toUInt16 header.mem header.incoming
          round.payload
        match payload.result with
        | none => (payload.mem, payload.incoming, .waits)
        | some payloadLen => (payload.mem, payload.incoming, if payloadLen = -1 then .leaves else .passes)

theorem readMessages_cons (message : Packed) (incoming : List UInt8) (round : Round) (rounds : List Round) :
    readMessages message incoming (round :: rounds) =
      match readRound message incoming round with
      | (m, rest, .waits) => ⟨m, rest, [], false⟩
      | (m, rest, .leaves) => ⟨m, rest, [], true⟩
      | (m, rest, .passes) =>
        { readMessages m rest rounds with passed := recvd m :: (readMessages m rest rounds).passed } := by
  rw [readMessages, readRound]
  split
  · rfl
  · dsimp only
    generalize receiveMessage 0 48 message incoming round.header = header
    cases header.result with
    | none => rfl
    | some headerLen =>
      by_cases hfail : headerLen = -1
      · simp only [if_pos hfail]
      · simp only [if_neg hfail]
        generalize receiveMessage headerLength _ _ _ round.payload = payload
        cases payload.result with
        | none => rfl
        | some payloadLen => by_cases hfail' : payloadLen = -1 <;> simp [hfail']

/-- What a round has done, in which it took `bytes` from the stream. -/
structure ReadsRound (message : Packed) (incoming : List UInt8) (round : Round)
    (o : Packed × List UInt8 × Ending) (bytes : List UInt8) : Prop where
  stream : incoming = bytes ++ o.2.1
  outside : ∀ i, maxMessageLength ≤ i → o.1 i = message i
  passes : o.2.2 = .passes → (recvd o.1).wire = bytes
  leaves : o.2.2 = .leaves → round.inTime = true → Undisturbed round.header → Undisturbed round.payload →
    o.2.1 = [] ∧ ¬ wireFormat.HasFrame bytes

/-- A round that comes to the payload: `receive_message` has read the header, and then `p`. -/
theorem ReadsRound.of_payload {message : Packed} {round : Round} {header payload : Reception} {h p : List UInt8}
    {ending : Ending} (hh : Takes 0 48 0 message incoming round.header header h) (h48 : h.length = 48)
    (hp : Takes headerLength header.mem.payloadLength.toUInt16 0 header.mem header.incoming round.payload payload p)
    (hpass : ending = .passes → ∃ v, payload.result = some v ∧ v ≠ -1)
    (hleave : ending = .leaves → payload.result = some (-1)) :
    ReadsRound message incoming round (payload.mem, payload.incoming, ending) (h ++ p) := by
  have hto : header.mem.payloadLength.toUInt16.toNat = header.mem.payloadLength.toNat := UInt8.toNat_toUInt16 _
  have hbyte := header.mem.payloadLength.toNat_lt
  have hmem : header.mem = write message 0 h := hh.mem
  have hpmem : payload.mem = write (write message 0 h) 48 p := by rw [hp.mem, hmem]; rfl
  have hfits : p.length ≤ header.mem.payloadLength.toNat := by
    have := hp.fits
    omega
  -- the payload does not overwrite the length that the header has for it
  obtain ⟨hslice, hkeep⟩ := payload_mem (p := p) message h48
  rw [← hpmem] at hslice hkeep
  rw [← hmem] at hkeep
  refine ⟨?_, fun i hi => ?_, fun he => ?_, fun he _ _ hu => ?_⟩
  · rw [hh.stream, hp.stream, List.append_assoc]
  · show payload.mem i = message i
    rw [hpmem, payload_outside message (Nat.le_of_eq h48) (by omega) hi]
  · -- a whole message is in the buffer
    obtain ⟨v, hv, hne⟩ := hpass he
    have hfull : p.length = header.mem.payloadLength.toNat := by
      have := hp.success v hv hne
      omega
    show slice payload.mem 0 (48 + payload.mem.payloadLength.toNat) = h ++ p
    rw [hkeep, ← hfull, hslice]
  · obtain ⟨hend, hlt⟩ := hp.failure (hleave he) hu
    refine ⟨hend, fun hf => ?_⟩
    rw [← hslice, hasFrame_slice, hkeep] at hf
    omega

theorem readRound_spec (message : Packed) (incoming : List UInt8) (round : Round) :
    ∃ bytes, ReadsRound message incoming round (readRound message incoming round) bytes := by
  unfold readRound
  by_cases hin : round.inTime = true
  · rw [if_neg (by simp [hin])]
    dsimp only
    obtain ⟨h, hh⟩ := receiveMessage_spec (show (48 : UInt16).toNat < 2 ^ 15 by decide) 0 message incoming
      round.header
    generalize receiveMessage 0 48 message incoming round.header = header at hh
    have hlen : h.length ≤ 48 := by simpa using hh.fits
    have houtside : ∀ i, maxMessageLength ≤ i → header.mem i = message i := by
      intro i hi
      rw [hh.mem]
      exact write_of_ge _ _ (by unfold maxMessageLength headerLength maxPayloadLength at hi; omega)
    cases hres : header.result with
    | none => exact ⟨h, hh.stream, houtside, nofun, nofun⟩
    | some headerLen =>
      dsimp only
      by_cases hfail : headerLen = -1
      · -- the stream ended in the header
        rw [if_pos hfail]
        refine ⟨h, hh.stream, houtside, nofun, fun _ _ hu _ => ?_⟩
        obtain ⟨hend, hlt⟩ := hh.failure (hfail ▸ hres) hu
        refine ⟨hend, fun hf => ?_⟩
        have h48 : 48 ≤ h.length := hf.1
        have hlt : 0 + h.length < 48 := hlt
        omega
      · rw [if_neg hfail]
        have h48 : h.length = 48 := by simpa using hh.success _ hres hfail
        have hbyte := header.mem.payloadLength.toNat_lt
        have hto : header.mem.payloadLength.toUInt16.toNat = header.mem.payloadLength.toNat := UInt8.toNat_toUInt16 _
        obtain ⟨p, hp⟩ := receiveMessage_spec (show header.mem.payloadLength.toUInt16.toNat < 2 ^ 15 by omega)
          headerLength header.mem header.incoming round.payload
        generalize receiveMessage headerLength header.mem.payloadLength.toUInt16 header.mem header.incoming
          round.payload = payload at hp
        refine ⟨h ++ p, ?_⟩
        cases hres' : payload.result with
        | none => exact .of_payload hh h48 hp nofun nofun
        | some payloadLen =>
          dsimp only
          by_cases hfail' : payloadLen = -1
          · rw [if_pos hfail']
            exact .of_payload hh h48 hp nofun fun _ => hfail' ▸ hres'
          · rw [if_neg hfail']
            exact .of_payload hh h48 hp (fun _ => ⟨payloadLen, hres', hfail'⟩) nofun
  · rw [if_pos (by simp [hin])]
    exact ⟨[], rfl, fun _ _ => rfl, nofun, fun _ h => absurd h hin⟩

theorem readMessages_spec (rounds : List Round) : ∀ (message : Packed) (incoming : List UInt8),
    ∃ started, Reads message incoming rounds (readMessages message incoming rounds) started := by
  induction rounds with
  | nil => exact fun message incoming => ⟨[], rfl, nofun, fun _ _ => rfl, nofun⟩
  | cons round rounds ih =>
    intro message incoming
    rw [readMessages_cons]
    obtain ⟨bytes, ho⟩ := readRound_spec message incoming round
    generalize readRound message incoming round = o at ho
    obtain ⟨m, rest, ending⟩ := o
    cases ending with
    | waits => exact ⟨bytes, ho.stream, nofun, ho.outside, nofun⟩
    | leaves =>
      refine ⟨bytes, ho.stream, nofun, ho.outside, fun _ hs => ?_⟩
      obtain ⟨hin, hheader, hpayload⟩ := hs _ (.head _)
      exact ho.leaves rfl hin hheader hpayload
    | passes =>
      have hwire : (recvd m).wire = bytes := ho.passes rfl
      obtain ⟨started, hr⟩ := ih m rest
      refine ⟨started, ?_, fun x hx => ?_, fun i hi => ?_, fun hleft hs => ?_⟩
      · rw [List.map_cons, List.flatten_cons, hwire, List.append_assoc, ← hr.stream]
        exact ho.stream
      · rcases List.mem_cons.1 hx with rfl | hx
        · exact ⟨⟨_, rfl⟩, (loaded_recvd m).isFrame⟩
        · exact hr.frame x hx
      · exact (hr.outside i hi).trans (ho.outside i hi)
      · exact hr.ended hleft fun r hr => hs r (.tail _ hr)

/-- Once the loop is left, nothing more is read. -/
theorem readMessages_left (rounds more : List Round) : ∀ (message : Packed) (incoming : List UInt8),
    (readMessages message incoming rounds).left = true →
      readMessages message incoming (rounds ++ more) = readMessages message incoming rounds := by
  induction rounds with
  | nil => exact fun _ _ h => nomatch h
  | cons round rounds ih =>
    intro message incoming h
    rw [readMessages_cons] at h
    rw [List.cons_append, readMessages_cons, readMessages_cons]
    generalize readRound message incoming round = o at h
    obtain ⟨m, rest, ending⟩ := o
    cases ending with
    | waits => rfl
    | leaves => rfl
    | passes =>
      have hleft : (readMessages m rest rounds).left = true := h
      simp only [ih m rest hleft]

/-- Each call of `recv` that a message can need finds something. -/
def Ample (rounds : List Round) : Prop := ∀ r ∈ rounds, 48 < r.header.length ∧ 255 < r.payload.length

/-- With enough calls of `recv` a round ends. -/
theorem readRound_returns {round : Round} (message : Packed) (incoming : List UInt8)
    (hheader : Undisturbed round.header) (hpayload : Undisturbed round.payload)
    (hlen : 48 < round.header.length) (hlen' : 255 < round.payload.length) :
    (readRound message incoming round).2.2 ≠ .waits := by
  unfold readRound
  split
  · simp
  · dsimp only
    have hreturns : (receiveMessage 0 48 message incoming round.header).result ≠ none := by
      refine receiveLoop_returns (by decide) _ _ _ 0 (Nat.zero_le _) hheader ?_
      show 48 < 0 + round.header.length
      omega
    generalize receiveMessage 0 48 message incoming round.header = header at hreturns
    have hto : header.mem.payloadLength.toUInt16.toNat = header.mem.payloadLength.toNat := UInt8.toNat_toUInt16 _
    have hbyte := header.mem.payloadLength.toNat_lt
    have hreturns' : (receiveMessage headerLength header.mem.payloadLength.toUInt16 header.mem header.incoming
        round.payload).result ≠ none := by
      refine receiveLoop_returns (by omega) _ _ _ 0 (Nat.zero_le _) hpayload ?_
      show _ < 0 + round.payload.length
      omega
    generalize receiveMessage headerLength header.mem.payloadLength.toUInt16 header.mem header.incoming
      round.payload = payload at hreturns'
    obtain ⟨headerLen, hres⟩ := Option.ne_none_iff_exists'.1 hreturns
    obtain ⟨payloadLen, hres'⟩ := Option.ne_none_iff_exists'.1 hreturns'
    simp only [hres, hres']
    split
    · simp
    · split <;> simp

/-- **The loop goes on or is left**: it does not hang. -/
theorem readMessages_progress (rounds : List Round) : ∀ (message : Packed) (incoming : List UInt8),
    Smooth rounds → Ample rounds → (readMessages message incoming rounds).left = true ∨
      (readMessages message incoming rounds).passed.length = rounds.length := by
  induction rounds with
  | nil => exact fun _ _ _ _ => .inr rfl
  | cons round rounds ih =>
    intro message incoming hs ha
    obtain ⟨-, hheader, hpayload⟩ := hs round (.head _)
    obtain ⟨hlen, hlen'⟩ := ha round (.head _)
    have hreturns := readRound_returns message incoming hheader hpayload hlen hlen'
    rw [readMessages_cons]
    generalize readRound message incoming round = o at hreturns
    obtain ⟨m, rest, ending⟩ := o
    cases ending with
    | waits => exact absurd rfl hreturns
    | leaves => exact .inl rfl
    | passes =>
      rcases ih m rest (fun r hr => hs r (.tail _ hr)) (fun r hr => ha r (.tail _ hr)) with h | h
      · exact .inl h
      · exact .inr (congrArg Nat.succ h)

/-- **Reassembly does not depend on the splitting.** Of every stream, however `recv` splits it
and whatever fails:

1. the messages passed on are the first complete frames of the stream, in their order;
2. each has 48 and its `payload_length` as its `message_length`;
3. nothing is stored outside the first 303 bytes of the buffer;
4. if nothing cuts the reading short, all complete frames are passed on when the loop is left,
5. which happens when there are enough rounds for them;
6. after the loop is left nothing is read. -/
theorem reassembly_split (message : Packed) (incoming : List UInt8) (rounds : List Round) :
    let r := readMessages message incoming rounds
    ∃ frames tail, Decomposes wireFormat incoming frames tail ∧
      r.passed.map NetworkMessage.wire <+: frames ∧
      (∀ x ∈ r.passed, x.messageLength = headerLength + x.bytes.payloadLength.toNat) ∧
      (∀ i, maxMessageLength ≤ i → r.message i = message i) ∧
      (Smooth rounds → r.left = true → r.passed.map NetworkMessage.wire = frames) ∧
      (Smooth rounds → Ample rounds → frames.length < rounds.length → r.left = true) ∧
      (r.left = true → ∀ more, readMessages message incoming (rounds ++ more) = r) := by
  intro r
  obtain ⟨frames, tail, hd⟩ := decomposes_exists (F := wireFormat) incoming
  obtain ⟨started, hr⟩ := readMessages_spec rounds message incoming
  have hframes : ∀ f ∈ r.passed.map NetworkMessage.wire, wireFormat.IsFrame f := by
    intro f hf
    obtain ⟨x, hx, rfl⟩ := List.mem_map.1 hf
    exact (hr.frame x hx).2
  have hprefix : r.passed.map NetworkMessage.wire <+: frames := by
    refine Decomposes.isPrefix hframes (t := tail) (l := started ++ r.incoming) ?_
    rw [← hr.stream]
    exact hd
  refine ⟨frames, tail, hd, hprefix, fun x hx => ?_, hr.outside, fun hs hleft => ?_, fun hs ha hlen => ?_,
    fun hleft more => readMessages_left rounds more message incoming hleft⟩
  · obtain ⟨⟨b, rfl⟩, -⟩ := hr.frame x hx
    rfl
  · obtain ⟨hend, hrest⟩ := hr.ended hleft hs
    have hall : Decomposes wireFormat incoming (r.passed.map NetworkMessage.wire) started := by
      refine ⟨?_, hframes, hrest⟩
      have hstream := hr.stream
      rw [hend, List.append_nil] at hstream
      exact hstream
    exact (hall.unique hd).1
  · rcases readMessages_progress rounds message incoming hs ha with h | h
    · exact h
    · have hle := hprefix.length_le
      rw [List.length_map] at hle
      have hr : r.passed.length = rounds.length := h
      omega

end ServerRoom.Relay
