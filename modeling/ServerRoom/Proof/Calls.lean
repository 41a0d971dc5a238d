import ServerRoom.Proof.Receiving

/-!
# The calls of `recv`

`receive_exact`: whatever the calls of `recv` return, `receive_message` returns the length
exactly if the calls have delivered that many bytes and none returned -1, and stores them in
order and nowhere else. The step is `receiveCalls_stored`: the counter of 16 bits does not
wrap. A call that returns -1 makes it wrap once, but never to the length, and then the loop
ends (`receiveCalls_none`).
-/

namespace ServerRoom.Relay

open ByteMem

variable {buffer c : ℕ} {recvLength recvCounter : UInt16} {m : Packed} {turns : List Turn}

/-- The call that `receive_message` makes when it has `recvCounter` bytes. -/
abbrev nextCall (recvLength recvCounter : UInt16) (stored : Option (List UInt8)) : RecvCall :=
  ⟨recvCounter.toNat, (recvLength.toNat : ℤ) - recvCounter.toNat, stored⟩

/-- A request for what is missing is met with at most that. -/
theorem length_le (hc : recvCounter.toNat ≤ recvLength.toNat) {bytes : List UInt8}
    (hl : (nextCall recvLength recvCounter (some bytes)).Legal) :
    recvCounter.toNat + bytes.length ≤ recvLength.toNat := by
  have hlen : (bytes.length : ℤ) ≤ ((recvLength.toNat : ℤ) - recvCounter.toNat) % 2 ^ 64 := hl
  have hmax := recvLength.toNat_lt
  omega

/-- `recv` returns -1. -/
theorem receiveCalls_none (hn : recvLength.toNat < 2 ^ 15) (hc : recvCounter.toNat ≤ recvLength.toNat) :
    receiveCalls buffer recvLength m recvCounter (.returns none :: turns) =
      ⟨m, [nextCall recvLength recvCounter none], some (-1)⟩ := by
  have hne : recvCounter + (-1 : Int16).toUInt16 ≠ recvLength := counter_ne hn hc
  have hnil : write m (buffer + recvCounter.toNat) [] = m := write_slice_self m _ 0
  rw [receiveCalls]
  simp only [RecvCall.recvTemp, RecvCall.bytes, Option.getD_none, hnil]
  rw [if_neg hne, if_neg (by decide)]

/-- **`recv` stores bytes**: the counter does not wrap. -/
theorem receiveCalls_stored (hn : recvLength.toNat < 2 ^ 15) {bytes : List UInt8}
    (hfit : recvCounter.toNat + bytes.length ≤ recvLength.toNat) (buffer : ℕ) (m : Packed) (turns : List Turn) :
    (recvCounter + UInt16.ofNat bytes.length).toNat = recvCounter.toNat + bytes.length ∧
    receiveCalls buffer recvLength m recvCounter (.returns (some bytes) :: turns) =
      if recvCounter.toNat + bytes.length = recvLength.toNat then
        ⟨write m (buffer + recvCounter.toNat) bytes, [nextCall recvLength recvCounter (some bytes)],
          some recvLength.toInt16⟩
      else if bytes = [] then
        ⟨write m (buffer + recvCounter.toNat) bytes, [nextCall recvLength recvCounter (some bytes)], some (-1)⟩
      else
        let r := receiveCalls buffer recvLength (write m (buffer + recvCounter.toNat) bytes)
          (recvCounter + UInt16.ofNat bytes.length) turns
        { r with calls := nextCall recvLength recvCounter (some bytes) :: r.calls } := by
  have hsum : (recvCounter + UInt16.ofNat bytes.length).toNat = recvCounter.toNat + bytes.length := by
    rw [UInt16.toNat_add, UInt16.toNat_ofNat']
    omega
  refine ⟨hsum, ?_⟩
  have htemp : (Int16.ofNat bytes.length).toUInt16 = UInt16.ofNat bytes.length := rfl
  have hfull : recvCounter + UInt16.ofNat bytes.length = recvLength ↔
      recvCounter.toNat + bytes.length = recvLength.toNat := by
    rw [← UInt16.toNat_inj, hsum]
  have hpos : Int16.ofNat bytes.length > 0 ↔ bytes ≠ [] := by
    rw [gt_iff_lt, Int16.lt_iff_toInt_lt, Int16.toInt_ofNat_of_lt (by omega), ← List.length_pos_iff]
    exact Int.natCast_pos
  rw [receiveCalls]
  simp only [RecvCall.recvTemp, RecvCall.bytes, Option.getD_some, htemp]
  rw [if_congr hfull rfl rfl, if_congr hpos rfl rfl, ite_not]

/-- The calls of a run of the loop, that starts with `c` bytes in the buffer and meets `rounds`
rounds. -/
structure Counts (buffer : ℕ) (recvLength : UInt16) (c : ℕ) (m : Packed) (rounds : ℕ) (r : ReceiveRun) : Prop where
  returns : recvLength.toNat < c + rounds → r.result ≠ none
  result : ∀ v, r.result = some v → v = recvLength.toInt16 ∨ v = -1
  calls : ∀ call ∈ r.calls, 0 ≤ call.request ∧ call.offset + call.bytes.length ≤ recvLength.toNat
  mem : r.mem = write m (buffer + c) r.delivered
  fits : c + r.delivered.length ≤ recvLength.toNat
  success : r.result = some recvLength.toInt16 ↔
    r.calls ≠ [] ∧ (∀ call ∈ r.calls, call.stored ≠ none) ∧ c + r.delivered.length = recvLength.toNat

/-- A loop that ends without a call. -/
theorem Counts.uncalled (hn : recvLength.toNat < 2 ^ 15) (hc : c ≤ recvLength.toNat) {rounds : ℕ}
    {result : Option Int16} (hr : result = none ∧ rounds = 0 ∨ result = some (-1)) :
    Counts buffer recvLength c m rounds ⟨m, [], result⟩ where
  returns hlt := by
    rcases hr with ⟨-, rfl⟩ | rfl
    · omega
    · exact Option.some_ne_none _
  result v hv := by
    rcases hr with ⟨rfl, -⟩ | rfl
    · cases hv
    · exact .inr (Option.some.inj hv).symm
  calls := nofun
  mem := (write_slice_self m _ 0).symm
  fits := hc
  success := by
    refine iff_of_false ?_ fun h => h.1 rfl
    rcases hr with ⟨rfl, -⟩ | rfl
    · exact nofun
    · exact fun h => toInt16_ne hn (Option.some.inj h).symm

/-- A loop that ends with a call. -/
theorem Counts.last (hn : recvLength.toNat < 2 ^ 15) (stored : Option (List UInt8))
    (hfit : recvCounter.toNat + (stored.getD []).length ≤ recvLength.toNat) {result : Int16}
    (hr : result = if stored ≠ none ∧ recvCounter.toNat + (stored.getD []).length = recvLength.toNat then
      recvLength.toInt16 else -1) (rounds : ℕ) :
    Counts buffer recvLength recvCounter.toNat m rounds
      ⟨write m (buffer + recvCounter.toNat) (stored.getD []), [nextCall recvLength recvCounter stored],
        some result⟩ where
  returns _ := Option.some_ne_none _
  result v hv := by
    rw [← Option.some.inj hv, hr]
    split
    · exact .inl rfl
    · exact .inr rfl
  calls call hcall := by
    rw [List.mem_singleton.1 hcall]
    refine ⟨?_, hfit⟩
    show 0 ≤ (recvLength.toNat : ℤ) - recvCounter.toNat
    omega
  mem := by simp [ReceiveRun.delivered, RecvCall.bytes]
  fits := by simpa [ReceiveRun.delivered, RecvCall.bytes] using hfit
  success := by
    by_cases hfull : stored ≠ none ∧ recvCounter.toNat + (stored.getD []).length = recvLength.toNat
    · simp [hr, hfull, ReceiveRun.delivered, RecvCall.bytes]
    · simp [hr, hfull, ReceiveRun.delivered, RecvCall.bytes, (toInt16_ne hn).symm]

/-- A call that leaves something missing, and the calls after it. -/
theorem Counts.cons {bytes : List UInt8} {r : ReceiveRun} {c' rounds : ℕ} (hne : bytes ≠ [])
    (hlt : recvCounter.toNat + bytes.length < recvLength.toNat) (hc' : c' = recvCounter.toNat + bytes.length)
    (h : Counts buffer recvLength c' (write m (buffer + recvCounter.toNat) bytes) rounds r) :
    Counts buffer recvLength recvCounter.toNat m (rounds + 1)
      { r with calls := nextCall recvLength recvCounter (some bytes) :: r.calls } := by
  subst hc'
  have hdel : (ReceiveRun.mk r.mem (nextCall recvLength recvCounter (some bytes) :: r.calls) r.result).delivered =
      bytes ++ r.delivered := rfl
  have hadd : recvCounter.toNat + (bytes ++ r.delivered).length =
      recvCounter.toNat + bytes.length + r.delivered.length := by
    rw [List.length_append, Nat.add_assoc]
  refine ⟨fun hmore => h.returns ?_, h.result, ?_, ?_, ?_, ?_⟩
  · have hpos : 0 < bytes.length := List.length_pos_iff.2 hne
    omega
  · intro call hcall
    rcases List.mem_cons.1 hcall with rfl | hcall
    · refine ⟨?_, Nat.le_of_lt hlt⟩
      show 0 ≤ (recvLength.toNat : ℤ) - recvCounter.toNat
      omega
    · exact h.calls call hcall
  · rw [hdel, ← write_append, Nat.add_assoc]
    exact h.mem
  · rw [hdel, hadd]
    exact h.fits
  · rw [hdel, hadd, h.success]
    constructor
    · rintro ⟨-, hall, hlen⟩
      refine ⟨List.cons_ne_nil _ _, fun call hcall => ?_, hlen⟩
      rcases List.mem_cons.1 hcall with rfl | hcall
      · exact Option.some_ne_none bytes
      · exact hall call hcall
    · rintro ⟨-, hall, hlen⟩
      refine ⟨fun hnil => ?_, fun call hcall => hall call (.tail _ hcall), hlen⟩
      -- without another call the rest is missing
      have hzero : r.delivered = [] := by simp [ReceiveRun.delivered, hnil]
      rw [hzero, List.length_nil] at hlen
      omega

theorem nextCall_mem (stored : Option (List UInt8)) :
    nextCall recvLength recvCounter stored ∈
      (receiveCalls buffer recvLength m recvCounter (.returns stored :: turns)).calls := by
  rw [receiveCalls]
  dsimp only
  split
  · exact .head _
  · split <;> exact .head _

/-- **The loop of `receive_message`**, from any counter on: by induction on the rounds. -/
theorem receiveCalls_counts (hn : recvLength.toNat < 2 ^ 15) (buffer : ℕ) (turns : List Turn) :
    ∀ (m : Packed) (recvCounter : UInt16), recvCounter.toNat ≤ recvLength.toNat →
      (∀ call ∈ (receiveCalls buffer recvLength m recvCounter turns).calls, call.Legal) →
      Counts buffer recvLength recvCounter.toNat m turns.length
        (receiveCalls buffer recvLength m recvCounter turns) := by
  induction turns with
  | nil =>
    intro m c hc _
    exact .uncalled hn hc (.inl ⟨rfl, rfl⟩)
  | cons turn turns ih =>
    intro m c hc hl
    cases turn with
    | late => exact .uncalled hn hc (.inr rfl)
    | returns stored =>
      cases stored with
      | none =>
        -- nothing is stored, and the loop ends
        have hnil : write m (buffer + c.toNat) [] = m := write_slice_self m _ 0
        have hlast : Counts buffer recvLength c.toNat m (turns.length + 1) _ := .last hn none hc rfl _
        rw [receiveCalls_none hn hc]
        rw [Option.getD_none, hnil] at hlast
        exact hlast
      | some bytes =>
        have hfit := length_le hc (hl _ (nextCall_mem (some bytes)))
        obtain ⟨hsum, hr⟩ := receiveCalls_stored hn hfit buffer m turns
        rw [hr] at hl ⊢
        by_cases hfull : c.toNat + bytes.length = recvLength.toNat
        · rw [if_pos hfull]
          exact .last hn (some bytes) hfit (if_pos ⟨Option.some_ne_none _, hfull⟩).symm _
        · rw [if_neg hfull] at hl ⊢
          by_cases hnil : bytes = []
          · rw [if_pos hnil]
            exact .last hn (some bytes) hfit (if_neg fun h => hfull h.2).symm _
          · rw [if_neg hnil] at hl ⊢
            -- the counter has grown and is below the length
            refine .cons hnil (Nat.lt_of_le_of_ne hfit hfull) hsum (ih _ _ (hsum ▸ hfit) fun call hcall => hl call ?_)
            exact .tail _ hcall

/-- **What `receive_message` is to do**: it returns the length if its calls of `recv` stored that
many bytes, at the buffer and in their order, and none returned -1; else it returns -1. -/
structure Exact (buffer : ℕ) (recvLength : UInt16) (m : Packed) (rounds : ℕ) (r : ReceiveRun) : Prop where
  success : r.result.map Int16.toInt = some (recvLength.toNat : ℤ) ↔
    r.calls ≠ [] ∧ (∀ call ∈ r.calls, call.stored ≠ none) ∧ r.delivered.length = recvLength.toNat
  stored : r.result.map Int16.toInt = some (recvLength.toNat : ℤ) → slice r.mem buffer recvLength.toNat = r.delivered
  failure : ∀ v, r.result = some v → v.toInt ≠ recvLength.toNat → v = -1
  returns : recvLength.toNat < rounds → r.result ≠ none
  calls : ∀ call ∈ r.calls, 0 ≤ call.request ∧ call.offset + call.bytes.length ≤ recvLength.toNat
  outside : ∀ i, i < buffer ∨ buffer + recvLength.toNat ≤ i → r.mem i = m i

theorem Counts.exact (hn : recvLength.toNat < 2 ^ 15) {rounds : ℕ} {r : ReceiveRun}
    (h : Counts buffer recvLength 0 m rounds r) : Exact buffer recvLength m rounds r := by
  have hvalue : recvLength.toInt16.toInt = recvLength.toNat := by
    have hto : recvLength.toInt16 = Int16.ofNat recvLength.toNat := by
      rw [← UInt16.toInt16_ofNat', UInt16.ofNat_toNat]
    rw [hto, Int16.toInt_ofNat_of_lt hn]
  have hsuccess : r.result.map Int16.toInt = some (recvLength.toNat : ℤ) ↔ r.result = some recvLength.toInt16 := by
    rw [← hvalue, Option.map_eq_some_iff]
    simp only [Int16.toInt_inj, exists_eq_right]
  have hmem : r.mem = write m buffer r.delivered := h.mem
  have hfits : r.delivered.length ≤ recvLength.toNat := by
    have hfits := h.fits
    omega
  have hcalls : r.result = some recvLength.toInt16 ↔
      r.calls ≠ [] ∧ (∀ call ∈ r.calls, call.stored ≠ none) ∧ r.delivered.length = recvLength.toNat := by
    rw [h.success, Nat.zero_add]
  refine ⟨hsuccess.trans hcalls, fun hs => ?_, fun v hv hne => ?_, fun hlt => h.returns ?_, h.calls, fun i hi => ?_⟩
  · rw [hmem]
    exact slice_write_eq _ _ (hcalls.1 (hsuccess.1 hs)).2.2
  · refine (h.result v hv).resolve_left fun he => hne ?_
    rw [he, hvalue]
  · rw [Nat.zero_add]
    exact hlt
  · rw [hmem]
    exact write_of_disj _ _ (by omega)

/-- **The reading loop makes such calls**: on a connection, the calls deliver what is at the
front of the stream. -/
theorem receiveLoop_calls (hn : recvLength.toNat < 2 ^ 15) (buffer : ℕ) (polls : List Poll) :
    ∀ (m : Packed) (incoming : List UInt8) (recvCounter : UInt16), recvCounter.toNat ≤ recvLength.toNat →
      ∃ turns, turns.length = polls.length ∧
        (∀ call ∈ (receiveCalls buffer recvLength m recvCounter turns).calls, call.Legal) ∧
        ∃ rest, incoming = (receiveCalls buffer recvLength m recvCounter turns).delivered ++ rest ∧
          receiveLoop buffer recvLength m incoming recvCounter polls =
            ⟨(receiveCalls buffer recvLength m recvCounter turns).mem, rest,
              (receiveCalls buffer recvLength m recvCounter turns).result⟩ := by
  induction polls with
  | nil =>
    intro m incoming c _
    exact ⟨[], rfl, nofun, incoming, rfl, rfl⟩
  | cons poll polls ih =>
    intro m incoming c hc
    cases poll with
    | late => exact ⟨.late :: List.replicate polls.length .late, by simp, nofun, incoming, rfl, rfl⟩
    | fails =>
      refine ⟨.returns none :: List.replicate polls.length .late, by simp, ?_⟩
      rw [receiveCalls_none hn hc]
      refine ⟨fun call hcall => ?_, incoming, rfl, receiveLoop_fails hn hc buffer m incoming polls⟩
      rw [List.mem_singleton.1 hcall]
      exact Int.emod_nonneg _ (by decide)
    | finds k =>
      obtain ⟨bytes, hsplit, hfit, hsum, -, hloop⟩ := receiveLoop_finds hn hc buffer k m incoming polls
      have hlegal : (nextCall recvLength c (some bytes)).Legal := by
        have hmax := recvLength.toNat_lt
        show (bytes.length : ℤ) ≤ ((recvLength.toNat : ℤ) - c.toNat) % 2 ^ 64
        omega
      have hfull : c + UInt16.ofNat bytes.length = recvLength ↔ c.toNat + bytes.length = recvLength.toNat := by
        rw [← UInt16.toNat_inj, hsum]
      rw [if_congr hfull rfl rfl] at hloop
      obtain ⟨turns, hlen, hl, rest, hrest, hr⟩ := ih (write m (buffer + c.toNat) bytes)
        (incoming.drop bytes.length) (c + UInt16.ofNat bytes.length) (hsum ▸ hfit)
      obtain ⟨-, hcalls⟩ := receiveCalls_stored hn hfit buffer m turns
      -- the loop may end with this call
      have hone : ∀ call ∈ [nextCall recvLength c (some bytes)], call.Legal := by
        intro call hcall
        rw [List.mem_singleton.1 hcall]
        exact hlegal
      have hfront : ∀ m' v, incoming =
          (ReceiveRun.mk m' [nextCall recvLength c (some bytes)] v).delivered ++ incoming.drop bytes.length := by
        intro m' v
        simpa [ReceiveRun.delivered, RecvCall.bytes] using hsplit.symm
      refine ⟨.returns (some bytes) :: turns, by simp [hlen], ?_⟩
      rw [hloop, hcalls]
      by_cases he : c.toNat + bytes.length = recvLength.toNat
      · rw [if_pos he, if_pos he]
        exact ⟨hone, incoming.drop bytes.length, hfront _ _, rfl⟩
      · rw [if_neg he, if_neg he]
        by_cases hnil : bytes = []
        · rw [if_pos hnil, if_pos hnil]
          exact ⟨hone, incoming.drop bytes.length, hfront _ _, rfl⟩
        · rw [if_neg hnil, if_neg hnil]
          refine ⟨fun call hcall => ?_, rest, ?_, hr⟩
          · rcases List.mem_cons.1 hcall with rfl | hcall
            · exact hlegal
            · exact hl call hcall
          · show incoming = (bytes ++ ReceiveRun.delivered _) ++ rest
            rw [List.append_assoc, ← hrest]
            exact hsplit.symm

/-- **`receive_message` on a connection is exact**, and takes what it delivers off the stream. -/
theorem receiveMessage_exact (hn : recvLength.toNat < 2 ^ 15) (buffer : ℕ) (m : Packed) (incoming : List UInt8)
    (polls : List Poll) :
    ∃ r rest, Exact buffer recvLength m polls.length r ∧ incoming = r.delivered ++ rest ∧
      receiveMessage buffer recvLength m incoming polls = ⟨r.mem, rest, r.result⟩ := by
  obtain ⟨turns, hlen, hl, rest, hrest, hr⟩ := receiveLoop_calls hn buffer polls m incoming 0 (Nat.zero_le _)
  have hcounts := receiveCalls_counts hn buffer turns m 0 (Nat.zero_le _) hl
  exact ⟨receiveCalls buffer recvLength m 0 turns, rest, hlen ▸ hcounts.exact hn, hrest, hr⟩

end ServerRoom.Relay
