import ServerRoom.Proof.Receive

/-!
# Reading bytes into the buffer

The buffer of the receiver always holds the incomplete tail `slice mem 0 index` of the
stream. `max_value_to_be_read` starts at 303 in every call and is corrected once a
header byte has been read; `MaxOk` says which values it can have, and is what the
reading loop keeps.

* `readBytes_spec`: the loop reads until the tail is exactly one frame, or until no
  byte is left.
* `fill_spec`: the same for a call of `loop`, with the reset on a new connection.
-/

namespace ServerRoom

open ByteMem Framing NetworkReceiver

variable (C : Crypto) (info : NetworkInfo) {rx : NetworkReceiver} {m : Packed} {f : List UInt8}

theorem size_slice {k : ℕ} (hk : 48 ≤ k) : wireFormat.size (slice m 0 k) = 48 + m.payloadLength.toNat := by
  show 48 + (((slice m 0 k).take 48).getD 8 0).toNat = _
  rw [slice_take _ _ hk, List.getD_eq_getElem?_getD]
  simp [slice, Packed.payloadLength]

theorem hasFrame_slice {k : ℕ} :
    wireFormat.HasFrame (slice m 0 k) ↔ 48 ≤ k ∧ 48 + m.payloadLength.toNat ≤ k := by
  have h : wireFormat.HasFrame (slice m 0 k) ↔ 48 ≤ k ∧ wireFormat.size (slice m 0 k) ≤ k := by
    unfold Format.HasFrame
    rw [slice_length]; rfl
  rw [h]
  constructor <;> rintro ⟨h1, h2⟩ <;> refine ⟨h1, ?_⟩
  · rwa [size_slice h1] at h2
  · rwa [size_slice h1]

/-- A frame in the buffer is loaded. -/
theorem loaded_of_isFrame {k : ℕ} (h : wireFormat.IsFrame (slice m 0 k)) :
    k = 48 + m.payloadLength.toNat ∧ Loaded m (slice m 0 k) := by
  have h1 : 48 ≤ k := by have := h.hdr_le; rwa [slice_length] at this
  have h2 : k = wireFormat.size (slice m 0 k) := by
    have := h; unfold Format.IsFrame at this; rwa [slice_length] at this
  rw [size_slice h1] at h2
  refine ⟨h2, ?_⟩
  show slice m 0 k = slice m 0 (48 + m.payloadLength.toNat)
  rw [← h2]

/-- What `max_value_to_be_read` can be while the tail is incomplete: 303 from the start
of the call, or the size of the frame once its header is there. -/
structure MaxOk (m : Packed) (k max : ℕ) : Prop where
  rest : ¬ wireFormat.HasFrame (slice m 0 k)
  eq : max = maxMessageLength ∨ 48 ≤ k ∧ max = 48 + m.payloadLength.toNat

theorem MaxOk.lt {k max : ℕ} (h : MaxOk m k max) : k < max ∧ max ≤ 303 := by
  have hr := hasFrame_slice.not.1 h.rest
  have hb := m.payloadLength.toNat_lt
  have hm : maxMessageLength = 303 := rfl
  rcases h.eq with h1 | ⟨h1, h2⟩ <;> omega

/-- One byte: the loop's invariant holds again, or the tail is now a frame and the loop
stops at it. -/
theorem MaxOk.step {k max : ℕ} (h : MaxOk m k max) (b : UInt8) :
    let m' : Packed := put m k b
    let max' := if headerLength ≤ k + 1 then headerLength + m'.payloadLength.toNat else max
    MaxOk m' (k + 1) max' ∨ (wireFormat.IsFrame (slice m' 0 (k + 1)) ∧ k + 1 = max') := by
  intro m' max'
  have hsl : slice m' 0 (k + 1) = slice m 0 k ++ [b] := slice_put m k b
  have hh : headerLength = 48 := rfl
  by_cases hk : 48 ≤ k + 1
  · have hmax : max' = 48 + m'.payloadLength.toNat := by simp only [max', hh, if_pos hk]
    rcases snoc_cases h.rest b with hc | hc
    · exact Or.inl ⟨by rw [hsl]; exact hc, Or.inr ⟨hk, hmax⟩⟩
    · rw [← hsl] at hc
      exact Or.inr ⟨hc, by rw [hmax]; exact (loaded_of_isFrame hc).1⟩
  · have hmax : max' = max := by simp only [max', hh, if_neg hk]
    refine Or.inl ⟨hasFrame_slice.not.2 (by omega), ?_⟩
    rcases h.eq with h1 | ⟨h1, -⟩
    · exact Or.inl (hmax.trans h1)
    · omega

/-- At `max_value_to_be_read` the loop stops. -/
theorem readBytes_stop (k : ℕ) (q : List UInt8) : readBytes m k k q = ⟨m, k, k, q⟩ := by
  cases q with
  | nil => rfl
  | cons b bs => simp [readBytes]

/-- **The reading loop** reads until the tail is exactly one frame, or to the end. -/
theorem readBytes_spec (q : List UInt8) : ∀ {m : Packed} {k max : ℕ}, MaxOk m k max →
    ∃ read, q = read ++ (readBytes m k max q).rest ∧
      slice (readBytes m k max q).mem 0 (readBytes m k max q).index = slice m 0 k ++ read ∧
      (readBytes m k max q).index ≤ 303 ∧
      (wireFormat.IsFrame (slice m 0 k ++ read) ∧
          (readBytes m k max q).index = (readBytes m k max q).max ∨
        ¬ wireFormat.HasFrame (slice m 0 k ++ read) ∧ (readBytes m k max q).rest = [] ∧
          (readBytes m k max q).index ≠ (readBytes m k max q).max) := by
  induction q with
  | nil =>
    intro m k max h
    have hlt := h.lt
    exact ⟨[], rfl, by simp [readBytes], by simp only [readBytes]; omega,
      Or.inr ⟨by simpa using h.rest, rfl, by simp only [readBytes]; omega⟩⟩
  | cons b bs ih =>
    intro m k max h
    have hsl : slice (put m k b) 0 (k + 1) = slice m 0 k ++ [b] := slice_put m k b
    simp only [readBytes, if_pos h.lt.1]
    rcases h.step b with hok | ⟨hf, hmax⟩
    · obtain ⟨read, h1, h2, h3, h4⟩ := ih hok
      rw [hsl] at h2 h4
      refine ⟨b :: read, ?_, ?_, h3, ?_⟩
      · rw [List.cons_append, ← h1]
      · rw [h2]; simp
      · simpa using h4
    · -- the frame is complete: the loop stops whatever is left
      rw [← hmax, readBytes_stop]
      have hle : k + 1 ≤ 303 := by have := h.lt; omega
      exact ⟨[b], rfl, hsl, hle, Or.inl ⟨by rw [← hsl]; exact hf, rfl⟩⟩

/-- The tail that a call of `loop` continues: none on a new connection. -/
def tailFor (rx : NetworkReceiver) (info : NetworkInfo) : List UInt8 :=
  if rx.connectionNumber = info.connectionNumber then slice rx.receivedMessage 0 rx.index else []

/-- Between calls the buffer holds an incomplete tail and no message. -/
structure Idle (rx : NetworkReceiver) : Prop where
  received : rx.isMessageReceived = false
  rest : ¬ wireFormat.HasFrame (slice rx.receivedMessage 0 rx.index)

theorem Idle.tailFor (h : Idle rx) : ¬ wireFormat.HasFrame (tailFor rx info) := by
  unfold ServerRoom.tailFor
  split
  · exact h.rest
  · exact Decomposes.nil.rest

theorem Idle.index_lt (h : Idle rx) : rx.index < 303 := by
  have hr := hasFrame_slice.not.1 h.rest
  have hb := rx.receivedMessage.payloadLength.toNat_lt
  omega

/-- A new connection starts with an empty tail. -/
theorem syncConnection_spec (h : Idle rx) :
    Idle (syncConnection rx info) ∧
      (syncConnection rx info).connectionNumber = info.connectionNumber ∧
      slice (syncConnection rx info).receivedMessage 0 (syncConnection rx info).index =
        tailFor rx info := by
  unfold syncConnection tailFor
  by_cases hc : rx.connectionNumber = info.connectionNumber
  · simp only [hc, ne_eq, not_true, if_false, if_true]
    exact ⟨h, trivial, trivial⟩
  · simp only [hc, ne_eq, not_false_iff, if_true, if_false]
    exact ⟨⟨rfl, Decomposes.nil.rest⟩, trivial, rfl⟩

theorem resetReceived_idle (h : Idle rx) : resetReceived rx = rx := by
  unfold resetReceived; simp [h.received]

/-- **One call of `loop`, up to the processing**: it reads on from the tail until the
tail is exactly one frame, or to the end of what is there. -/
theorem fill_spec (h : Idle rx) :
    (fill rx info).rx.isMessageReceived = false ∧
      (fill rx info).rx.connectionNumber = info.connectionNumber ∧
      (fill rx info).rx.index ≤ 303 ∧
      (∃ q, (fill rx info).info = { info with client := { info.client with incoming := q } }) ∧
      info.client.incoming = consumed rx info ++ (fill rx info).info.client.incoming ∧
      slice (fill rx info).rx.receivedMessage 0 (fill rx info).rx.index =
        tailFor rx info ++ consumed rx info ∧
      ((fill rx info).complete = true ∧ wireFormat.IsFrame (tailFor rx info ++ consumed rx info) ∨
        (fill rx info).complete = false ∧
          ¬ wireFormat.HasFrame (tailFor rx info ++ consumed rx info) ∧
          (fill rx info).info.client.incoming = []) := by
  obtain ⟨hs, hcn, htail⟩ := syncConnection_spec info h
  -- `consumed` is whatever precedes the rest
  have hcons : ∀ read, info.client.incoming = read ++ (fill rx info).info.client.incoming →
      consumed rx info = read := by
    intro read hr
    have hl := congrArg List.length hr
    rw [List.length_append] at hl
    unfold consumed
    rw [show info.client.incoming.length - (fill rx info).info.client.incoming.length = read.length by
      omega]
    conv_lhs => rw [hr]
    exact List.take_left' rfl
  by_cases hq : info.client.incoming = []
  · have hf : fill rx info = ⟨syncConnection rx info, info, false⟩ := by
      unfold fill; simp only [hq, if_true]
    have hc : consumed rx info = [] := hcons [] (by rw [hf]; rfl)
    rw [hc, hf]
    refine ⟨hs.received, hcn, Nat.le_of_lt hs.index_lt, ⟨info.client.incoming, rfl⟩, rfl, ?_, Or.inr ?_⟩
    · rw [htail, List.append_nil]
    · exact ⟨rfl, by rw [List.append_nil]; exact h.tailFor info, hq⟩
  · have hok : MaxOk (syncConnection rx info).receivedMessage (syncConnection rx info).index
        maxMessageLength := ⟨hs.rest, Or.inl rfl⟩
    obtain ⟨read, h1, h2, h3, h4⟩ := readBytes_spec info.client.incoming hok
    have hf : fill rx info =
        ⟨{ syncConnection rx info with
            receivedMessage := (readBytes (syncConnection rx info).receivedMessage
              (syncConnection rx info).index maxMessageLength info.client.incoming).mem
            index := (readBytes (syncConnection rx info).receivedMessage
              (syncConnection rx info).index maxMessageLength info.client.incoming).index },
          { info with client := { info.client with
            incoming := (readBytes (syncConnection rx info).receivedMessage
              (syncConnection rx info).index maxMessageLength info.client.incoming).rest } },
          (readBytes (syncConnection rx info).receivedMessage
              (syncConnection rx info).index maxMessageLength info.client.incoming).index =
            (readBytes (syncConnection rx info).receivedMessage
              (syncConnection rx info).index maxMessageLength info.client.incoming).max⟩ := by
      unfold fill; simp only [hq, if_false, resetReceived_idle hs]
    have hc : consumed rx info = read := hcons read (by rw [hf]; exact h1)
    rw [htail] at h2 h4
    rw [hc, hf]
    refine ⟨hs.received, hcn, h3, ⟨_, rfl⟩, h1, h2, ?_⟩
    rcases h4 with ⟨h4, h5⟩ | ⟨h4, h5, h6⟩
    · exact Or.inl ⟨decide_eq_true h5, h4⟩
    · exact Or.inr ⟨decide_eq_false h6, h4, h5⟩

theorem Idle.of_index_zero (h : rx.isMessageReceived = false) (hi : rx.index = 0) : Idle rx :=
  ⟨h, by rw [hi]; exact Decomposes.nil.rest⟩

/-- **One call of `loop`.** Either nothing is processed, all bytes are read and the tail
is still incomplete; or exactly one frame is processed, as `deliver` says. -/
theorem loop_spec (now : UInt32) (h : Idle rx) :
    (loop C now rx info).1.connectionNumber = info.connectionNumber ∧
      (∃ q t, (loop C now rx info).2.1 =
        { info with client := { info.client with incoming := q }, lastPokeFromServer := t }) ∧
      info.client.incoming = consumed rx info ++ (loop C now rx info).2.1.client.incoming ∧
      ((processed rx info = none ∧ ¬ wireFormat.HasFrame (tailFor rx info ++ consumed rx info) ∧
          Idle (loop C now rx info).1 ∧
          slice (loop C now rx info).1.receivedMessage 0 (loop C now rx info).1.index =
            tailFor rx info ++ consumed rx info ∧
          (loop C now rx info).2.1.client.incoming = []) ∨
        (processed rx info = some (tailFor rx info ++ consumed rx info) ∧
          wireFormat.IsFrame (tailFor rx info ++ consumed rx info) ∧
          match Frame.deliver C info (tailFor rx info ++ consumed rx info) with
          | none => (loop C now rx info).1.isMessageReceived = false ∧ (loop C now rx info).1.index = 0
          | some msg => (loop C now rx info).1.isMessageReceived = true ∧
              (loop C now rx info).1.receive =
                (msg, { (loop C now rx info).1 with isMessageReceived := false, index := 0 }))) := by
  obtain ⟨hrec, hcn, -, ⟨q, hinfo⟩, hcons, hbuf, hcases⟩ := fill_spec info h
  rcases hcases with ⟨hc, hf⟩ | ⟨hc, hf, hrest⟩
  · -- a whole frame is in the buffer
    obtain ⟨hidx, hload⟩ := loaded_of_isFrame (m := (fill rx info).rx.receivedMessage)
      (k := (fill rx info).rx.index) (by rw [hbuf]; exact hf)
    rw [hbuf] at hload
    have hlen : (fill rx info).rx.index = (tailFor rx info ++ consumed rx info).length := by
      rw [hload.length, hidx]
    have hl : loop C now rx info = finish C now (fill rx info).rx (fill rx info).info := by
      unfold loop; simp [hc]
    have hp : processed rx info = some (tailFor rx info ++ consumed rx info) := by
      unfold processed; simp [hc, hbuf]
    obtain ⟨h1, ⟨t, h2⟩, h3⟩ := finish_deliver C (fill rx info).info now hload hlen
    have hd : Frame.deliver C (fill rx info).info (tailFor rx info ++ consumed rx info) =
        Frame.deliver C info (tailFor rx info ++ consumed rx info) := by rw [hinfo]; rfl
    rw [hd] at h3
    rw [hl]
    refine ⟨h1.trans hcn, ⟨q, t, by rw [h2, hinfo]⟩, ?_, Or.inr ⟨hp, hf, h3⟩⟩
    rw [h2]; exact hcons
  · have hl : loop C now rx info = ((fill rx info).rx, (fill rx info).info, []) := by
      unfold loop; simp [hc]
    have hp : processed rx info = none := by unfold processed; simp [hc]
    rw [hl]
    exact ⟨hcn, ⟨q, info.lastPokeFromServer, hinfo⟩, hcons,
      Or.inl ⟨hp, hf, ⟨hrec, by rw [hbuf]; exact hf⟩, hbuf, hrest⟩⟩

end ServerRoom
