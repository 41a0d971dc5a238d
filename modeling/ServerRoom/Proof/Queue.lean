import ServerRoom.Proof.Lifetime
import ServerRoom.Proof.Observed

/-!
# The sending buffer is a queue

A sender passes the messages of its buffer on while it holds `new_message_mutex`, and clears
the buffer before it gives the mutex back. `Server.unsent` is what it has not passed on yet.

* `Queued.step`: what was passed to `send_message` for a device, followed by what is unsent,
  is what was appended to its buffer; every step keeps this.
-/

namespace ServerRoom.Relay

variable {C : Crypto} {s s' : Server} {a : Action} {H : History} {ev : Option Event} {t : Thread} {σ : Stmt}

/-- How many messages of the buffer a sender has passed on. -/
def SenderPc.position : SenderPc → ℕ
  | .drain i => i
  | _ => 0

/-- The messages in the buffer of `r` that were not passed on yet. -/
def Server.unsent (s : Server) (r : ℕ) : List NetworkMessage :=
  (s.device r).sendingBuffer.drop (s.sender r).position

/-- **Nothing is lost, duplicated or reordered on the way through the buffer.** -/
structure Queued (s : Server) (H : History) : Prop where
  fresh : ∀ r, s.created ≤ r → (s.device r).sendingBuffer = []
  order : ∀ r, (H.passed r).map Prod.fst ++ s.unsent r = (H.appended r).map Entry.message

theorem Queued.starts (h : s.Starts) : Queued s .empty where
  fresh r _ := (h.device r).2.2.1
  order r := by simp [Server.unsent, (h.device r).2.2.1, History.empty]

/-- Outside its section a sender has passed nothing on. -/
theorem SenderPc.position_eq_zero {p : SenderPc} (h : p.inBuffer = false) : p.position = 0 := by
  cases p <;> first | rfl | cases h

/-- Waking a sender, or creating it, leaves it before its first message. -/
theorem onSender_position {d : ℕ} {p : SenderPc} (hσ : σ = .createSender d → p = .absent) :
    (σ.onSender d p).position = p.position := by
  cases σ <;> simp only [Stmt.onSender]
  case signal r =>
    split
    · rename_i hw
      rw [hw.2]; rfl
    · rfl
  case createSender r =>
    split
    · rename_i hr
      rw [hσ (by rw [hr])]; rfl
    · rfl

/-- What the other threads do to a buffer: they append the message that they record. -/
theorem HandlerPc.Step.appends {d : ℕ} {st : ConnectionState} {p p' : HandlerPc} (h : p.Step C d st σ ev p')
    (r : ℕ) (buffer : List NetworkMessage) :
    σ.onBuffer r buffer = buffer ++ (Event.newAppended H r ev).map Entry.message ∧ Event.newPassed r ev = [] := by
  cases h <;> refine ⟨?_, rfl⟩ <;> simp only [Stmt.onBuffer, Event.newAppended] <;> (try split) <;> simp

theorem ReceiverPc.Step.queues {d : ℕ} {data : DeviceData} {network : UInt32 → Finset ℕ} {p p' : ReceiverPc}
    (h : p.Step C d data network σ ev p') (r : ℕ) (buffer : List NetworkMessage) :
    σ.onBuffer r buffer = buffer ++ (Event.newAppended H r ev).map Entry.message ∧ Event.newPassed r ev = [] := by
  cases h <;> refine ⟨?_, rfl⟩ <;> simp only [Stmt.onBuffer, Event.newAppended] <;> (try split) <;> simp

/-- **A step of a handler or a receiver.** The sender of a device to whose buffer it appends
is not in its section, so it has passed nothing on. -/
theorem Queued.of_thread (h : Queued s H) (hi : Invariants s) (hts : ThreadStep s t σ s') (ht : ∀ d, t ≠ .sender d)
    (hstep : ∀ r buffer, σ.onBuffer r buffer = buffer ++ (Event.newAppended H r ev).map Entry.message ∧
      Event.newPassed r ev = [])
    (hpos : ∀ r, (s'.sender r).position = (s.sender r).position) : Queued s' (H.after ev) := by
  have hbuf : ∀ r, (s'.device r).sendingBuffer = σ.onBuffer r (s.device r).sendingBuffer :=
    fun r => by rw [hts.device, onDevice_sendingBuffer]
  have hold : ∀ r m, σ = .pushBack r m → s.buffer t = some r := by
    intro r m hσ
    have hb := hts.buffer
    rw [hσ] at hb
    exact hb.1
  -- a buffer that changes is that of a device whose mutex the thread holds
  have hsame : ∀ r, s.buffer t ≠ some r → (Event.newAppended H r ev).map Entry.message = [] := by
    intro r hr
    have hno : σ.onBuffer r [] = [] := by
      cases σ <;> simp only [Stmt.onBuffer, ite_self]
      case pushBack x m =>
        refine if_neg fun hx => hr ?_
        rw [← hx]
        exact hold x m rfl
    have happ := (hstep r []).1
    rw [hno] at happ
    simpa using happ.symm
  refine ⟨fun r hr => ?_, fun r => ?_⟩
  · rw [hts.created] at hr
    have hnot : s.buffer t ≠ some r := fun hb =>
      absurd (buffer_lt_created hi.shape hi.known hb) (Nat.not_lt.2 hr)
    rw [hbuf, (hstep r _).1, h.fresh r hr, hsame r hnot]
    rfl
  · obtain ⟨happ, hpassed⟩ := hstep r (s.device r).sendingBuffer
    rw [History.after_passed, History.after_appended, hpassed, List.append_nil, List.map_append, ← h.order r,
      List.append_assoc]
    congr 1
    unfold Server.unsent
    rw [hbuf, happ, hpos]
    by_cases hb : s.buffer t = some r
    · have hout : (s.sender r).inBuffer = false := by
        cases hin : (s.sender r).inBuffer with
        | false => rfl
        | true =>
          have hs : s.buffer (.sender r) = some r := by simp [Server.buffer, hin]
          exact absurd (hi.mutexes.buffer.unique hb hs) (ht r)
      rw [SenderPc.position_eq_zero hout]
      rfl
    · rw [hsame r hb, List.append_nil, List.append_nil]

/-- **A step of the sender itself**: it passes on the next message, or clears what it has
passed on. -/
theorem SenderPc.Step.queues {d : ℕ} {data : DeviceData} {p p' : SenderPc} (h : p.Step d data σ ev p') :
    (Event.newPassed d ev).map Prod.fst ++ (σ.onBuffer d data.sendingBuffer).drop p'.position =
      data.sendingBuffer.drop p.position := by
  cases h with
  | send i m results hm =>
    obtain ⟨hlt, he⟩ := List.getElem?_eq_some_iff.1 hm
    simp only [Event.newPassed, if_true, Stmt.onBuffer, SenderPc.position, List.map_cons, List.map_nil]
    rw [List.drop_eq_getElem_cons hlt, he]
    rfl
  | clear i hle => simp [Event.newPassed, Stmt.onBuffer, SenderPc.position, List.drop_of_length_le hle]
  | _ => rfl

/-- A sender works on its own buffer. -/
theorem SenderPc.Step.own {d : ℕ} {data : DeviceData} {p p' : SenderPc} (h : p.Step d data σ ev p') {r : ℕ}
    (hr : r ≠ d) (buffer : List NetworkMessage) :
    σ.onBuffer r buffer = buffer ∧ Event.newPassed r ev = [] := by
  cases h <;> simp [Stmt.onBuffer, Event.newPassed, Ne.symm hr]

theorem SenderPc.Step.shrinks {d : ℕ} {data : DeviceData} {p p' : SenderPc} (h : p.Step d data σ ev p') (r : ℕ) :
    σ.onBuffer r [] = [] ∧ Event.newAppended H r ev = [] := by
  cases h <;> simp [Stmt.onBuffer, Event.newAppended]

theorem Queued.step (h : Queued s H) (hi : Invariants s) (hm : s.Moves C a ev s') : Queued s' (H.after ev) := by
  cases hm with
  | accept fd hfd => exact ⟨h.fresh, h.order⟩
  | create fd launched networkId last hm =>
    refine ⟨fun r hr => ?_, fun r => ?_⟩
    · rw [hm.created] at hr
      rw [hm.device, if_neg (by omega)]
      exact h.fresh r (by omega)
    · have hun : s'.unsent r = s.unsent r := by
        unfold Server.unsent
        rw [hm.device, hm.sender]
        split
        · rename_i hr
          rw [hr, h.fresh _ (Nat.le_refl _)]
          rfl
        · rfl
      rw [hun]
      exact h.order r
  | @handler d e σ ev p s' hm =>
    refine h.of_thread hi (.of_handler hi.shape hm) nofun (fun r b => hm.step.appends r b) fun r => ?_
    rw [hm.sender]
    exact onSender_position (hm.creates_sender hi.shape)
  | sender d e hm =>
    have hbuf : ∀ r, (s'.device r).sendingBuffer = _ := fun r => by rw [hm.device, onDevice_sendingBuffer]
    refine ⟨fun r hr => ?_, fun r => ?_⟩
    · rw [hm.created] at hr
      rw [hbuf, h.fresh r hr, (hm.step.shrinks (H := H) r).1]
    · rw [History.after_passed, History.after_appended, (hm.step.shrinks r).2, List.append_nil, ← h.order r,
        List.map_append, List.append_assoc]
      congr 1
      unfold Server.unsent
      rw [hbuf, hm.sender]
      by_cases hr : r = d
      · subst hr
        rw [if_pos rfl]
        exact hm.step.queues
      · obtain ⟨h1, h2⟩ := hm.step.own hr (s.device r).sendingBuffer
        rw [h1, h2, if_neg hr]
        rfl
  | receiver d e hm =>
    refine h.of_thread hi (.of_receiver hi.shape hm) nofun (fun r b => hm.step.queues r b) fun r => ?_
    rw [hm.sender]
    exact onSender_position fun hσ => absurd hσ (hm.step.creates r)
  | wake d hw =>
    refine ⟨h.fresh, fun r => (congrArg _ ?_).trans (h.order r)⟩
    unfold Server.unsent
    show List.drop (Function.update s.sender d .woken r).position _ = _
    rw [Function.update_apply]
    split
    · rename_i hr
      rw [hr, hw]
      rfl
    · rfl

theorem Queued.reach {G : Server × History → Action → Prop} (h : (observed C).ReachWhen G (s, H)) : Queued s H :=
  observed_induct (fun _ => Queued.starts) (fun _ _ _ _ _ hr hi _ hm => hi.step (.reach hr) hm) h

end ServerRoom.Relay
