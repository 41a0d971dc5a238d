import ServerRoom.Proof.Membership
import ServerRoom.Spec.Process

/-!
# What a disconnection does to the other devices

The steps of one connection leave the records of the others alone, except that a broadcast
appends to them; and a connection whose receiver has left its loop broadcasts no more. So
the reads that fail and the frames that are dropped harm nobody (`Server.step_other`).
`disconnection_contained` is that for runs of the process, as long as no `send` meets a
connection that its peer has reset: the first that does ends the process
(`process_killed`).
-/

namespace ServerRoom.Relay

open Runs.Machine

variable {C : Crypto} {s s' : Server} {p p' : Process} {a : Action} {ev : Option Event} {σ : Stmt}

/-! ## One step -/

/-- What the other devices have of `e`: its state, its places in the registry and its buffer. -/
structure Server.Same (s s' : Server) (e : ℕ) : Prop where
  connectionState : (s'.device e).connectionState = (s.device e).connectionState
  networkDevices : ∀ n, e ∈ s'.networkDevices n ↔ e ∈ s.networkDevices n
  sendingBuffer : (s'.device e).sendingBuffer = (s.device e).sendingBuffer

/-- The receiver of `d` has appended the message of its broadcast to the buffer of `e`. -/
structure Server.Appended (s s' : Server) (d e : ℕ) : Prop where
  connectionState : (s'.device e).connectionState = (s.device e).connectionState
  networkDevices : ∀ n, e ∈ s'.networkDevices n ↔ e ∈ s.networkDevices n
  sendingBuffer : ∃ m rest, s.receiver d = .castPush m e rest ∧
    (s'.device e).sendingBuffer = (s.device e).sendingBuffer ++ [m]

/-- The steps of connection `d`. -/
def Action.Of (d : ℕ) : Action → Prop
  | .handler x _ | .sender x _ | .receiver x _ | .wake x => x = d
  | _ => False

instance (d : ℕ) (a : Action) : Decidable (a.Of d) :=
  match a with
  | .handler x _ | .sender x _ | .receiver x _ | .wake x => inferInstanceAs (Decidable (x = d))
  | .accept _ | .create .. => isFalse id

/-- The receiver has left its loop. -/
def ReceiverPc.leaving : ReceiverPc → Bool
  | .leave | .removeLock | .removeErase | .removeUnlock | .removeRelease | .setEnded | .finalLock
  | .finalSignal | .finalUnlock | .release | .done => true
  | _ => false

theorem ReceiverPc.Step.leaving {d : ℕ} {data : DeviceData} {network : UInt32 → Finset ℕ} {q q' : ReceiverPc}
    (h : q.Step C d data network σ ev q') (hq : q.leaving = true) : q'.leaving = true := by
  cases h <;> first | rfl | cases hq

/-- A handler and a sender append to and clear their own buffer only. -/
theorem HandlerPc.Step.onBuffer {d e : ℕ} {st : ConnectionState} {q q' : HandlerPc} (h : q.Step C d st σ ev q')
    (he : e ≠ d) (buffer : List NetworkMessage) : σ.onBuffer e buffer = buffer := by
  cases h <;> simp [Stmt.onBuffer, he.symm]

theorem SenderPc.Step.onBuffer {d e : ℕ} {data : DeviceData} {q q' : SenderPc} (h : q.Step d data σ ev q')
    (he : e ≠ d) (buffer : List NetworkMessage) : σ.onBuffer e buffer = buffer := by
  cases h <;> simp [Stmt.onBuffer, he.symm]

/-- A receiver appends to the buffer of the recipient in its broadcast. -/
theorem ReceiverPc.Step.onBuffer {d : ℕ} {data : DeviceData} {network : UInt32 → Finset ℕ} {q q' : ReceiverPc}
    (h : q.Step C d data network σ ev q') (e : ℕ) (buffer : List NetworkMessage) :
    σ.onBuffer e buffer = buffer ∨
      ∃ m rest, q = .castPush m e rest ∧ σ.onBuffer e buffer = buffer ++ [m] := by
  cases h with
  | castPush m r rest =>
    simp only [Stmt.onBuffer]
    split
    · rename_i hr
      subst hr
      exact Or.inr ⟨m, rest, rfl, rfl⟩
    · exact Or.inl rfl
  | _ => exact Or.inl rfl

/-- **A receiver moves no other device** in the registry. -/
theorem ReceiverMove.mem_iff {d e : ℕ} {q : ReceiverPc} (hm : ReceiverMove C s d σ ev q s') (hi : Invariants s)
    (hret : Retired s) (hd : Descriptors s) (he : e ≠ d) (n : UInt32) :
    e ∈ s'.networkDevices n ↔ e ∈ s.networkDevices n := by
  rw [hm.networkDevices]
  refine ⟨fun hin => ?_, fun hin => mem_onNetwork_of_mem hin fun r hr hs => ?_⟩
  · rcases mem_onNetwork hin with hin | ⟨hσ, -⟩
    · exact hin
    · exact absurd (hm.step.inserts (hi.shape.fits d) hσ).1 he
  · -- the one that is erased is `d`, which is live, so its descriptor is another one
    obtain ⟨rfl, hw⟩ := hm.step.erases (hi.shape.fits d) hr
    exact he (hd.distinct e r (live_of_working hi hret (hi.listed n e hin).working) (live_of_working hi hret hw) hs)

/-- **A step of one connection leaves the other devices alone**, or appends to one of them
the message that its receiver is broadcasting. -/
theorem Server.step_other {d e : ℕ} (hi : Invariants s) (hret : Retired s) (hd : Descriptors s)
    (hm : s.Moves C a ev s') (ha : a.Of d) (he : e ≠ d) : s.Same s' e ∨ s.Appended s' d e := by
  cases hm with
  | accept fd hfd => exact ha.elim
  | create fd launched networkId last hm => exact ha.elim
  | handler x _ hm =>
    obtain rfl := ha
    refine Or.inl ⟨?_, fun n => ?_, ?_⟩
    · rw [hm.connectionState, hm.step.creates.2.2]
    · rw [hm.networkDevices, hm.step.onNetwork]
    · rw [hm.device, onDevice_sendingBuffer, hm.step.onBuffer he]
  | sender x _ hm =>
    obtain rfl := ha
    refine Or.inl ⟨?_, fun n => ?_, ?_⟩
    · rw [hm.connectionState, hm.step.onState]
    · rw [hm.networkDevices, hm.step.onNetwork]
    · rw [hm.device, onDevice_sendingBuffer, hm.step.onBuffer he]
  | @receiver x _ σ ev q s' hm =>
    obtain rfl := ha
    have hstate : (s'.device e).connectionState = (s.device e).connectionState := by
      rw [hm.connectionState, hm.step.onState he]
    have hmem := hm.mem_iff hi hret hd he
    have hbuf : (s'.device e).sendingBuffer = σ.onBuffer e (s.device e).sendingBuffer := by
      rw [hm.device, onDevice_sendingBuffer]
    rcases hm.step.onBuffer e (s.device e).sendingBuffer with hb | ⟨m, rest, hq, hb⟩
    · exact Or.inl ⟨hstate, hmem, hbuf.trans hb⟩
    · exact Or.inr ⟨hstate, hmem, m, rest, hq, hbuf.trans hb⟩
  | wake x hw => exact Or.inl ⟨rfl, fun _ => Iff.rfl, rfl⟩

/-- A receiver that has left its loop stays outside, and appends nothing. -/
theorem leaving_step {d : ℕ} (hsh : Shape s) (hm : s.Moves C a ev s') (hl : (s.receiver d).leaving = true) :
    (s'.receiver d).leaving = true := by
  cases hm with
  | accept fd hfd => exact hl
  | create fd launched networkId last hm => rw [hm.receiver]; exact hl
  | handler x e hm =>
    rw [hm.receiver_same hsh fun habs => by rw [habs] at hl; cases hl]
    exact hl
  | sender x e hm => rw [hm.receiver]; exact hl
  | receiver x e hm =>
    rw [hm.receiver]
    split
    · rename_i hx
      rw [hx] at hl
      exact hm.step.leaving hl
    · exact hl
  | wake x hw => exact hl

/-! ## Runs of the process -/

/-- **The step meets no reset connection in `send`**, and touches no deleted device. -/
def Process.Harmless (p : Process) : Happening → Prop
  | .step a => TouchesLive p.server a
  | .send d _ => (p.server.device d).deletes = 0 ∧ ¬ p.IsReset d
  | .close _ | .reset _ => True

instance (p : Process) (a : Happening) : Decidable (p.Harmless a) :=
  match a with
  | .step a => inferInstanceAs (Decidable (TouchesLive p.server a))
  | .send _ _ => inferInstanceAs (Decidable (_ ∧ _))
  | .close _ | .reset _ => isTrue trivial

/-- What happens to connection `d`: a step of its threads, a `send` to it, or its peer
closing or resetting it. -/
def Process.Concerns (p : Process) (d : ℕ) : Happening → Prop
  | .step a => a.Of d
  | .send x _ => x = d
  | .close fd | .reset fd => fd = (p.server.device d).sockfd

instance (p : Process) (d : ℕ) (a : Happening) : Decidable (p.Concerns d a) :=
  match a with
  | .step a => inferInstanceAs (Decidable (a.Of d))
  | .send x _ => inferInstanceAs (Decidable (x = d))
  | .close fd | .reset fd => inferInstanceAs (Decidable (fd = (p.server.device d).sockfd))

/-- A `send` meets a connection that its peer has reset. -/
def Process.MeetsReset (p : Process) (a : Happening) : Prop := ∃ d r, a = .send d r ∧ p.IsReset d

/-- What a step of the process is to the relay server in it. -/
inductive Process.Moves (C : Crypto) (p : Process) : Happening → Process → Prop
  | step (a : Action) (p' : Process) : p.server.step C a = some p'.server → p'.running = true →
      Moves C p (.step a) p'
  | send (d : ℕ) (r : Option ℕ) (p' : Process) : p'.server = p.server →
      (p'.running = true ↔ ¬ p.IsReset d) → Moves C p (.send d r) p'
  | close (fd : ℕ) (p' : Process) : p'.server = p.server → p'.running = true → Moves C p (.close fd) p'
  | reset (fd : ℕ) (p' : Process) : p'.server = p.server → p'.running = true → Moves C p (.reset fd) p'

theorem Process.serverStep_eq (h : p.serverStep C a = some p') :
    p.server.step C a = some p'.server ∧ p'.running = p.running := by
  cases a <;> obtain ⟨s, hs, rfl⟩ := Option.map_eq_some_iff.1 h <;> exact ⟨hs, rfl⟩

theorem Process.send_eq {d : ℕ} {r : Option ℕ} (h : p.send d r = some p') (hr : p.running = true) :
    p'.server = p.server ∧ (p'.running = true ↔ ¬ p.IsReset d) := by
  unfold Process.send at h
  split at h
  · cases h
  · split at h
    · split at h <;> rename_i hreset
      -- no handler is installed for the signal
      · rw [if_neg (by decide)] at h
        cases h
        exact ⟨rfl, by simp [hreset]⟩
      · cases h
        exact ⟨rfl, by simp [hreset, hr]⟩
    · cases h

theorem Process.step_moves {a : Happening} (h : p.step C a = some p') : p.running = true ∧ p.Moves C a p' := by
  unfold Process.step at h
  split at h
  · rename_i hr
    refine ⟨hr, ?_⟩
    cases a with
    | step a =>
      obtain ⟨hs, hrun⟩ := serverStep_eq h
      exact .step a p' hs (hrun.trans hr)
    | send d r =>
      obtain ⟨hs, hrun⟩ := send_eq h hr
      exact .send d r p' hs hrun
    | close fd =>
      simp only at h
      split at h <;> cases h
      exact .close fd _ rfl hr
    | reset fd =>
      simp only at h
      split at h <;> cases h
      exact .reset fd _ rfl hr
  · cases h

/-- **The server in a process is the relay server**, so all that holds of its runs holds here. -/
theorem Process.server_reach (h : (process C).ReachWhen Process.Harmless p) :
    (relay C).ReachWhen TouchesLive p.server := by
  induction h with
  | init hi => exact .init hi.server
  | @step p p' a hr hg hs ih =>
    cases (Process.step_moves (C := C) hs).2 with
    | step a p' hs' hrun => exact .step a ih hg hs'
    | send d r p' hs' hrun => rw [hs']; exact ih
    | close fd p' hs' hrun => rw [hs']; exact ih
    | reset fd p' hs' hrun => rw [hs']; exact ih

theorem Server.Same.refl (s : Server) (e : ℕ) : s.Same s e := ⟨rfl, fun _ => Iff.rfl, rfl⟩

theorem Server.Same.trans {s'' : Server} {e : ℕ} (h : s.Same s' e) (h' : s'.Same s'' e) : s.Same s'' e :=
  ⟨h'.connectionState.trans h.connectionState, fun n => (h'.networkDevices n).trans (h.networkDevices n),
    h'.sendingBuffer.trans h.sendingBuffer⟩

/-- **What happens to one connection leaves the others alone**, but for its broadcasts. -/
theorem Process.step_other {a : Happening} {d e : ℕ} (h : (process C).ReachWhen Process.Harmless p)
    (ha : p.Concerns d a) (hs : p.step C a = some p') (he : e ≠ d) :
    p.server.Same p'.server e ∨ p.server.Appended p'.server d e := by
  have hr := server_reach h
  cases (step_moves hs).2 with
  | step a p' hs' hrun =>
    exact Server.step_other (Invariants.reach hr) (Retired.reach hr) (Descriptors.reach hr)
      (Server.step_moves hs') ha he
  | send x r p' hs' hrun => rw [hs']; exact Or.inl (.refl _ e)
  | close fd p' hs' hrun => rw [hs']; exact Or.inl (.refl _ e)
  | reset fd p' hs' hrun => rw [hs']; exact Or.inl (.refl _ e)

theorem Process.leaving_step {a : Happening} {d : ℕ} (h : (process C).ReachWhen Process.Harmless p)
    (hs : p.step C a = some p') (hl : (p.server.receiver d).leaving = true) :
    (p'.server.receiver d).leaving = true := by
  cases (step_moves hs).2 with
  | step a p' hs' hrun => exact Relay.leaving_step (Shape.reach (server_reach h)) (Server.step_moves hs') hl
  | send x r p' hs' hrun => rw [hs']; exact hl
  | close fd p' hs' hrun => rw [hs']; exact hl
  | reset fd p' hs' hrun => rw [hs']; exact hl

/-- Once the receiver has left its loop, nothing that happens to the connection reaches
another device. -/
theorem Process.same_of_leaving {a : Happening} {d e : ℕ} (h : (process C).ReachWhen Process.Harmless p)
    (ha : p.Concerns d a) (hs : p.step C a = some p') (he : e ≠ d)
    (hl : (p.server.receiver d).leaving = true) : p.server.Same p'.server e := by
  rcases step_other h ha hs he with hsame | happ
  · exact hsame
  · obtain ⟨m, rest, hq, -⟩ := happ.sendingBuffer
    rw [hq] at hl
    cases hl

/-- **A disconnection harms no other device, as long as no `send` meets a reset connection.**
In every run whose steps are `Harmless` the process is running; what happens to connection
`d` leaves the state, the places in the registry and the buffer of every other device as
they are, except that a broadcast of `d` appends its message; and once the receiver of `d`
has left its loop, nothing that happens to `d`, however much, changes them at all. The
`send` that meets a reset connection is what ends the process, in any run. -/
theorem disconnection_contained (C : Crypto) :
    (∀ p, (process C).ReachWhen Process.Harmless p → p.running = true) ∧
      (∀ p d a p', (process C).ReachWhen Process.Harmless p → p.Concerns d a → (process C).step p a = some p' →
        ∀ e, e ≠ d → p.server.Same p'.server e ∨ p.server.Appended p'.server d e) ∧
      (∀ p d as p', (process C).ReachWhen Process.Harmless p → (p.server.receiver d).leaving = true →
        (process C).runWhen (fun p a => p.Harmless a ∧ p.Concerns d a) p as = some p' →
        ∀ e, e ≠ d → p.server.Same p'.server e) ∧
      ∀ p a p', (process C).Reach p → (process C).step p a = some p' →
        (p'.running = true ↔ ¬ p.MeetsReset a) := by
  have hrunning : ∀ p a p', (process C).step p a = some p' → (p'.running = true ↔ ¬ p.MeetsReset a) := by
    intro p a p' hs
    cases (Process.step_moves (C := C) hs).2 with
    | send d r p' hs' hrun => rw [hrun]; simp [Process.MeetsReset]
    | step a p' hs' hrun => simp [hrun, Process.MeetsReset]
    | close fd p' hs' hrun => simp [hrun, Process.MeetsReset]
    | reset fd p' hs' hrun => simp [hrun, Process.MeetsReset]
  refine ⟨fun p h => ?_, fun p d a p' h ha hs e he => Process.step_other h ha hs he,
    fun p d as p' h hl hr e he => ?_, fun p a p' _ hs => hrunning p a p' hs⟩
  · refine h.induct (I := fun p => p.running = true) (fun p (hi : p.Starts) => hi.running) fun p a p' _ _ hg hs => ?_
    rw [hrunning p a p' hs]
    rintro ⟨d, r, rfl, hreset⟩
    exact hg.2 hreset
  · let I : Process → Prop := fun q =>
      (process C).ReachWhen Process.Harmless q ∧ (q.server.receiver d).leaving = true ∧ p.server.Same q.server e
    have hI : I p' := runWhen_induct hr ⟨h, hl, .refl _ e⟩ fun q a q' hq hg hs =>
      ⟨.step a hq.1 hg.1 hs, Process.leaving_step (C := C) hq.1 hs hq.2.1,
        hq.2.2.trans (Process.same_of_leaving (C := C) hq.1 hg.2 hs he hq.2.1)⟩
    exact hI.2.2

/-- Two clients connect. The first resets its connection, and then the server has a ping
for it. -/
def pingAfterReset : List Happening := List.flatten
  [[.step (.accept 4), .step (.create true 0 0), .step (.accept 5), .step (.create true 0 0)],
    .replicate 3 (.step (.handler 0 {})), .replicate 3 (.step (.sender 0 {})), [.reset 4],
    .replicate 6 (.step (.handler 0 {})), [.step (.sender 0 {}), .send 0 none]]

/-- The process has ended, while the second client is connected. -/
theorem process_killed : ∃ p, (process Crypto.zero).Reach p ∧ p.running = false ∧
    (p.server.device 1).sockfd = 5 ∧ p.peer 5 = .connected := by
  have hstart : (process Crypto.zero).init ⟨Server.fresh, fun _ => .nobody, fun _ => [], true⟩ :=
    ⟨Server.fresh_starts, rfl, rfl, rfl⟩
  have hrun : ((process Crypto.zero).run ⟨Server.fresh, fun _ => .nobody, fun _ => [], true⟩ pingAfterReset).any
      (fun p => p.running = false ∧ (p.server.device 1).sockfd = 5 ∧ p.peer 5 = .connected) = true := by
    decide +kernel
  obtain ⟨p, hr, hp⟩ := exists_reach hstart hrun
  exact ⟨p, hr, of_decide_eq_true hp⟩

end ServerRoom.Relay
