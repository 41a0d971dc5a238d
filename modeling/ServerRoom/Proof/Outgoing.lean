import Mathlib.Algebra.GroupWithZero.Nat
import ServerRoom.Lib.Attempts
import ServerRoom.Proof.Provenance
import ServerRoom.Proof.Queue

/-!
# The stream that the server writes

`send_message` may give up inside a message, and `handle_device_sender` then goes on with
the next one. `Framed` is what keeps a reader in step: whole messages, and at most one cut
message, after which nothing is written.

* `sendLoop_eq`: a call writes as many bytes as its sends take, up to the message's length.
* `Framed.reader`: a reader of a framed stream finds whole queued messages, in queue order.
* `stays_framed`: streams are framed exactly as long as no send takes a byte after a message
  was cut (`StaysCut`).
* `cut_and_continued`: a run in which one does, and the reader loses step.
-/

namespace ServerRoom.Relay

open ByteMem Framing

variable {C : Crypto} {s s' : Server} {a : Action} {H : History} {ev : Option Event} {σ : Stmt} {d : ℕ}

/-! ## One call -/

/-- How many bytes the sends of a call take, if they are offered as many. -/
def taken (results : List (Option ℕ)) : ℕ := (results.map fun r => r.getD 0).sum

/-- **A call sends what its sends take**, up to the length of the message. -/
theorem sendLoop_eq (n : ℕ) (results : List (Option ℕ)) :
    ∀ sent, sent ≤ n → sendLoop n sent results = min n (sent + taken results) := by
  induction results with
  | nil => intro sent hle; simp [sendLoop, taken, hle]
  | cons r results ih =>
    intro sent hle
    have hsum : taken (r :: results) = r.getD 0 + taken results := by simp [taken]
    unfold sendLoop
    split
    · cases r with
      | none => rw [ih sent hle, hsum]; simp
      | some k =>
        have hle' : sent + min k (n - sent) ≤ n := by omega
        have htail := ih _ hle'
        dsimp only
        rw [htail, hsum, Option.getD_some]
        omega
    · omega

/-- The call sent a part of its message, and not all of it. -/
def CutOff (call : NetworkMessage × List (Option ℕ)) : Prop :=
  0 < taken call.2 ∧ taken call.2 < call.1.messageLength

instance (call : NetworkMessage × List (Option ℕ)) : Decidable (CutOff call) :=
  inferInstanceAs (Decidable (_ ∧ _))

theorem written_eq (call : NetworkMessage × List (Option ℕ)) :
    History.written call = call.1.wire.take (taken call.2) := by
  obtain ⟨m, results⟩ := call
  unfold History.written sendMessage NetworkMessage.wire
  dsimp only
  rw [sendLoop_eq _ _ 0 (Nat.zero_le _), Nat.zero_add]
  rcases Nat.le_total m.messageLength (taken results) with hle | hle
  · rw [Nat.min_eq_left hle, List.take_of_length_le (by simpa [slice] using hle)]
  · rw [Nat.min_eq_right hle, slice_take _ _ hle]

theorem wire_length (m : NetworkMessage) : m.wire.length = m.messageLength := by
  simp [NetworkMessage.wire, slice]

/-- A call as an attempt at its message. -/
def attempt (call : NetworkMessage × List (Option ℕ)) : Attempt UInt8 :=
  ⟨call.1.wire, History.written call, by rw [written_eq]; exact List.take_prefix _ _⟩

/-- A call that is cut writes a proper prefix. -/
theorem cutOff_iff {call : NetworkMessage × List (Option ℕ)} : CutOff call ↔ (attempt call).Cut := by
  have hlen := wire_length call.1
  unfold Attempt.Cut CutOff attempt
  dsimp only
  rw [written_eq, ← hlen]
  refine ⟨fun h => ⟨fun he => ?_, fun he => ?_⟩, fun h => ⟨?_, ?_⟩⟩
  · have := congrArg List.length he
    rw [List.length_take, Nat.min_eq_left (Nat.le_of_lt h.2)] at this
    exact absurd this (Nat.ne_of_gt h.1)
  · have := congrArg List.length he
    rw [List.length_take] at this
    omega
  · rcases Nat.eq_zero_or_pos (taken call.2) with h0 | hpos
    · exact absurd (by rw [h0, List.take_zero]) h.1
    · exact hpos
  · exact Nat.lt_of_not_le fun hle => h.2 (List.take_of_length_le hle)

/-! ## Framed streams -/

/-- **A framed stream of calls**: each of the first ones wrote its whole message or nothing;
then at most one wrote a proper prefix of its message, and nothing was written after it. -/
def Framed (calls : List (NetworkMessage × List (Option ℕ))) : Prop :=
  ∃ whole cut silent, calls = whole ++ cut ++ silent ∧
    (∀ x ∈ whole, History.written x = [] ∨ History.written x = x.1.wire) ∧ cut.length ≤ 1 ∧
    (∀ x ∈ cut, ∃ rest, rest ≠ [] ∧ History.written x ++ rest = x.1.wire) ∧ ∀ x ∈ silent, History.written x = []

/-- The attempts of a framed stream are in step. -/
theorem framed_iff_inStep {calls : List (NetworkMessage × List (Option ℕ))} :
    Framed calls ↔ InStep (calls.map attempt) := by
  constructor
  · rintro ⟨whole, cut, silent, rfl, hwhole, hlen, hcut, hsilent⟩
    refine ⟨whole.map attempt, cut.map attempt, silent.map attempt, by simp, ?_, by simpa using hlen, ?_, ?_⟩
    · exact List.forall_mem_map.2 hwhole
    · exact List.forall_mem_map.2 fun x hx => Attempt.rest_iff.2 (hcut x hx)
    · exact List.forall_mem_map.2 hsilent
  · rintro ⟨whole, cut, silent, heq, hwhole, hlen, hcut, hsilent⟩
    obtain ⟨front, silent, rfl, hfront, rfl⟩ := List.map_eq_append_iff.1 heq
    obtain ⟨whole, cut, rfl, rfl, rfl⟩ := List.map_eq_append_iff.1 hfront
    refine ⟨whole, cut, silent, rfl, List.forall_mem_map.1 hwhole, by simpa using hlen, fun x hx => ?_,
      List.forall_mem_map.1 hsilent⟩
    exact Attempt.rest_iff.1 (List.forall_mem_map.1 hcut x hx)

theorem written_map (calls : List (NetworkMessage × List (Option ℕ))) :
    written (calls.map attempt) = calls.flatMap History.written := by
  unfold written
  rw [List.flatMap_map]
  rfl

/-! ## What is queued -/

/-- **Every queued message is one frame.** -/
theorem appended_isFrame {G : Server × History → Action → Prop} (h : (observed C).ReachWhen G (s, H)) :
    ∀ r, ∀ x ∈ H.appended r, wireFormat.IsFrame x.message.wire := by
  intro r x hx
  cases ho : x.origin with
  | none =>
    obtain ⟨stack, digest, heq⟩ := appended_ping h hx ho
    rw [heq]
    exact (signPing_loaded digest stack).isFrame
  | some o =>
    obtain ⟨b, hb⟩ := ((Provenance.reach h).appended r x o.1 o.2 hx ho).1.whole
    rw [hb]
    exact (loaded_recvd b).isFrame

/-! ## Runs -/

/-- **After a cut nothing more is taken**: when a call for `d` was cut off, the sends of the
next call take nothing. -/
def StaysCut (p : Server × History) (a : Action) : Prop :=
  ∀ d e i, a = .sender d e → p.1.sender d = .drain i → i < (p.1.device d).sendingBuffer.length →
    (∃ x ∈ p.2.passed d, CutOff x) → taken e.results = 0

/-- Handlers and receivers pass nothing on. -/
theorem newPassed_handler {x : ℕ} {e : Env} (hm : s.Moves C (.handler x e) ev s') : Event.newPassed d ev = [] := by
  cases hm with
  | handler _ _ hm => exact (hm.step.appends (H := .empty) d []).2

theorem newPassed_receiver {x : ℕ} {e : Env} (hm : s.Moves C (.receiver x e) ev s') : Event.newPassed d ev = [] := by
  cases hm with
  | receiver _ _ hm => exact (hm.step.queues (H := .empty) d []).2

/-- **What a step passes on**: nothing, or the next message of the sender that takes it. -/
theorem newPassed_cases (d : ℕ) (hm : s.Moves C a (s.event a) s') :
    Event.newPassed d (s.event a) = [] ∨ ∃ e i m, a = .sender d e ∧ s.sender d = .drain i ∧
      (s.device d).sendingBuffer[i]? = some m ∧ Event.newPassed d (s.event a) = [(m, e.results)] := by
  cases a with
  | accept fd => exact Or.inl rfl
  | create launched networkId last => exact Or.inl rfl
  | wake y => exact Or.inl rfl
  | handler y e => exact Or.inl (newPassed_handler hm)
  | receiver y e => exact Or.inl (newPassed_receiver hm)
  | sender y e =>
    simp only [Server.event]
    cases hp : s.sender y <;> simp only [SenderPc.event, Event.newPassed, true_or]
    case drain i =>
      cases hb : (s.device y).sendingBuffer[i]? with
      | none => exact Or.inl rfl
      | some m =>
        by_cases hyd : y = d
        · subst hyd
          exact Or.inr ⟨e, i, m, rfl, hp, hb, by simp⟩
        · exact Or.inl (by simp [hyd])

/-- **One more call** keeps a stream framed exactly if it writes nothing after a cut one. -/
theorem framed_snoc {calls : List (NetworkMessage × List (Option ℕ))} {call : NetworkMessage × List (Option ℕ)} :
    Framed (calls ++ [call]) ↔ Framed calls ∧ ((∃ x ∈ calls, CutOff x) → History.written call = []) := by
  have hcut : (∃ y ∈ calls.map attempt, y.Cut) ↔ ∃ x ∈ calls, CutOff x := by
    simp [cutOff_iff]
  rw [framed_iff_inStep, framed_iff_inStep, List.map_append, List.map_singleton, inStep_snoc, hcut]
  rfl

/-- **The stream stays framed** when the step takes nothing after a cut. -/
theorem Framed.step (h : Framed (H.passed d)) (hg : StaysCut (s, H) a) (hm : s.Moves C a (s.event a) s') :
    Framed ((H.after (s.event a)).passed d) := by
  rw [History.after_passed]
  rcases newPassed_cases d hm with hnew | ⟨e, i, m, ha, hp, hb, hnew⟩ <;> rw [hnew]
  · rw [List.append_nil]; exact h
  · obtain ⟨hlt, -⟩ := List.getElem?_eq_some_iff.1 hb
    refine framed_snoc.2 ⟨h, fun hcut => ?_⟩
    rw [written_eq, hg d e i ha hp hlt hcut, List.take_zero]

/-- A message that is in the buffer was appended to it. -/
theorem isFrame_of_unsent {G : Server × History → Action → Prop} (h : (observed C).ReachWhen G (s, H)) {i : ℕ}
    {m : NetworkMessage} (hp : s.sender d = .drain i) (hb : (s.device d).sendingBuffer[i]? = some m) :
    wireFormat.IsFrame m.wire := by
  have hmem : m ∈ s.unsent d := by
    obtain ⟨hlt, he⟩ := List.getElem?_eq_some_iff.1 hb
    unfold Server.unsent
    rw [hp, SenderPc.position, List.drop_eq_getElem_cons hlt, he]
    exact List.mem_cons_self
  have happ : m ∈ (H.appended d).map Entry.message := by
    rw [← (Queued.reach h).order d]
    exact List.mem_append_right _ hmem
  obtain ⟨x, hx, rfl⟩ := List.mem_map.1 happ
  exact appended_isFrame h d x hx

/-- **A reader of a framed stream stays in step**: it finds whole queued messages, in queue
order. -/
theorem Framed.reader {G : Server × History → Action → Prop} (h : (observed C).ReachWhen G (s, H))
    (hf : Framed (H.passed d)) : ∃ frames tail, Decomposes wireFormat (H.outgoing d) frames tail ∧
      frames.Sublist ((H.appended d).map fun x => x.message.wire) := by
  -- what was passed on is a prefix of what was appended
  have hwires : (H.appended d).map (fun x => x.message.wire) =
      (H.passed d).map (fun x => x.1.wire) ++ (s.unsent d).map NetworkMessage.wire := by
    have horder := congrArg (List.map NetworkMessage.wire) ((Queued.reach h).order d)
    rw [List.map_append, List.map_map, List.map_map] at horder
    exact horder.symm
  have hframe : ∀ x ∈ H.passed d, wireFormat.IsFrame x.1.wire := by
    intro x hx
    have hin : x.1.wire ∈ (H.appended d).map fun x => x.message.wire := by
      rw [hwires]
      exact List.mem_append_left _ (List.mem_map.2 ⟨x, hx, rfl⟩)
    obtain ⟨y, hy, he⟩ := List.mem_map.1 hin
    rw [← he]
    exact appended_isFrame h d y hy
  obtain ⟨frames, tail, hdec, hsub⟩ := (framed_iff_inStep.1 hf).decomposes (List.forall_mem_map.2 hframe)
  rw [written_map] at hdec
  rw [List.map_map] at hsub
  refine ⟨frames, tail, hdec, ?_⟩
  rw [hwires]
  exact hsub.trans (List.sublist_append_left _ _)

/-- **Streams stay framed exactly as long as `StaysCut` holds.** In every run in which no send
takes a byte after a cut, the stream of every device is framed, and a reader that goes by
`payload_length` finds exactly whole queued messages in it, in queue order; and a step that
takes one, in any run, leads to a stream that is not framed. -/
theorem stays_framed (C : Crypto) :
    (∀ s H, (observed C).ReachWhen StaysCut (s, H) → ∀ d, Framed (H.passed d) ∧
      ∃ frames tail, Decomposes wireFormat (H.outgoing d) frames tail ∧
        frames.Sublist ((H.appended d).map fun x => x.message.wire)) ∧
      ∀ p a p', (observed C).Reach p → (observed C).step p a = some p' → ¬ StaysCut p a →
        ∃ d, ¬ Framed (p'.2.passed d) := by
  constructor
  · intro s H h d
    have hframed : Framed (H.passed d) := by
      refine observed_induct (I := fun _ H => Framed (H.passed d)) (fun s _ => ?_)
        (fun s H a s' _ _ hi hg hm => hi.step hg hm) h
      exact ⟨[], [], [], rfl, nofun, Nat.zero_le 1, nofun, nofun⟩
    exact ⟨hframed, hframed.reader h⟩
  · rintro ⟨s, H⟩ a ⟨s', H'⟩ hr hs hbad
    simp only [StaysCut, not_forall] at hbad
    obtain ⟨d, e, i, rfl, hp, hlt, ⟨x, hx, hcut⟩, htaken⟩ := hbad
    obtain ⟨-, hH⟩ := observed_moves hs
    have hb := List.getElem?_eq_getElem hlt
    refine ⟨d, fun hframed => ?_⟩
    -- the call comes after the cut one, and it writes
    have hpassed : H'.passed d = H.passed d ++ [((s.device d).sendingBuffer[i], e.results)] := by
      simp only at hH hp
      rw [hH, History.after_passed, Server.event, hp, SenderPc.event, hb]
      simp [Event.newPassed]
    simp only at hframed
    rw [hpassed] at hframed
    have hnil := (framed_snoc.1 hframed).2 ⟨x, hx, hcut⟩
    rw [written_eq, List.take_eq_nil_iff] at hnil
    rcases hnil with h0 | hnil
    · exact htaken h0
    · exact (isFrame_of_unsent hr hp hb).ne_nil hnil

/-- Two pings are queued; of the first the peer takes ten bytes before the time is up, of the
second all. -/
def slowPeer : List Action := List.flatten
  [[.accept 4, .create true 0 0], .replicate 3 (.handler 0 {}), .replicate 3 (.sender 0 {}),
    .replicate 13 (.handler 0 {}), [.sender 0 {}, .sender 0 { results := [some 10] },
    .sender 0 { results := [some 48] }]]

/-- The reader finds a frame that nobody queued. -/
theorem cut_and_continued : ∃ s H, (observed Crypto.zero).Reach (s, H) ∧
    (∃ f tail, Decomposes wireFormat (H.outgoing 0) [f] tail ∧ f ∉ (H.appended 0).map fun x => x.message.wire) ∧
      ¬ Framed (H.passed 0) := by
  have hrun : ((observed Crypto.zero).run (Server.fresh, .empty) slowPeer).any
      (fun p => wireFormat.IsFrame ((p.2.outgoing 0).take 48) ∧ ¬ wireFormat.HasFrame ((p.2.outgoing 0).drop 48) ∧
        (p.2.outgoing 0).take 48 ∉ (p.2.appended 0).map fun x => x.message.wire) = true := by decide +kernel
  obtain ⟨⟨s, H⟩, hr, hs⟩ := Runs.Machine.exists_reach (observed_init _ Server.fresh_starts) hrun
  obtain ⟨hframe, htail, hnot⟩ := of_decide_eq_true hs
  have hdec : Decomposes wireFormat (H.outgoing 0) [(H.outgoing 0).take 48] ((H.outgoing 0).drop 48) :=
    ⟨by simp, fun f hf => by rw [List.mem_singleton.1 hf]; exact hframe, htail⟩
  refine ⟨s, H, hr, ⟨_, _, hdec, hnot⟩, fun hf => ?_⟩
  obtain ⟨frames, tail, hdec', hsub⟩ := hf.reader hr
  obtain ⟨rfl, -⟩ := hdec.unique hdec'
  exact hnot (hsub.subset (List.mem_singleton_self _))

end ServerRoom.Relay
