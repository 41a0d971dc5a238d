import ServerRoom.Proof.Lifetime

/-!
# When the sender sleeps

`handle_device_sender` calls `pthread_cond_wait` without looking first. `Awake` is what a
sleeping sender may rely on: either there is nothing to send, or a thread that has just
appended a message has yet to signal, and the final signal is still to come.

* `never_sleeps`: this holds as long as no sender starts to wait with work to do.
* `sleeps_with_ping`: a run in which the handler appends and signals before the sender's
  first wait.
-/

namespace ServerRoom.Relay

open Sharing

variable {C : Crypto} {s s' : Server} {a : Action} {ev : Option Event} {t : Thread} {σ : Stmt} {d : ℕ}

/-- The receiver has issued its final signal. -/
def ReceiverPc.signalled : ReceiverPc → Bool
  | .finalUnlock | .release | .done => true
  | _ => false

/-- The recipient to whose buffer a broadcast has appended, without having signalled yet. -/
def ReceiverPc.pushed : ReceiverPc → Option ℕ
  | .castRelease _ r _ | .castSignal _ r _ => some r
  | _ => none

/-- The device to whose buffer a thread has appended, without having signalled yet. -/
def Server.pushed (s : Server) : Thread → Option ℕ
  | .handler d => if s.handler d = .signal then some d else none
  | .sender _ => none
  | .receiver d => (s.receiver d).pushed

/-- **The sender never sleeps with work to do.** When its mutex is free and it is blocked in
`pthread_cond_wait` without a wake-up, its buffer is empty and the connection has not ended
with the final signal issued. -/
def NeverSleeps (s : Server) : Prop :=
  ∀ d, (s.device d).newMessageMutex = none → s.sender d = .waiting →
    (s.device d).sendingBuffer = [] ∧
      ¬ ((s.device d).connectionState = .ended ∧ (s.receiver d).signalled = true)

/-- A sender that starts to wait has nothing to send, and the final signal is to come. -/
def WaitsIdle (s : Server) (a : Action) : Prop :=
  ∀ d e, a = .sender d e → s.sender d = .wait →
    (s.device d).sendingBuffer = [] ∧
      ¬ ((s.device d).connectionState = .ended ∧ (s.receiver d).signalled = true)

/-- What a waiting sender may rely on. -/
def Awake (s : Server) : Prop :=
  ∀ d, s.sender d = .waiting → (s.receiver d).signalled = false ∧
    ((s.device d).sendingBuffer = [] ∨ ∃ t, s.pushed t = some d)

/-- After the final signal the connection has ended. -/
theorem Shape.signalled (h : Shape s) (hs : (s.receiver d).signalled = true) :
    (s.device d).connectionState = .ended := by
  have hf := h.fits d
  revert hf hs
  cases s.receiver d <;> cases (s.device d).connectionState <;>
    simp [ReceiverPc.signalled, ReceiverPc.fits]

/-- A thread that has appended holds the mutex. -/
theorem buffer_of_pushed (h : s.pushed t = some d) : s.buffer t = some d := by
  cases t with
  | handler x =>
    simp only [Server.pushed, Option.ite_none_right_eq_some, Option.some.injEq] at h
    obtain ⟨hp, rfl⟩ := h
    simp [Server.buffer, hp, HandlerPc.inBuffer]
  | sender x => cases h
  | receiver x =>
    simp only [Server.pushed] at h
    simp only [Server.buffer]
    revert h
    cases s.receiver x <;> simp [ReceiverPc.pushed, ReceiverPc.buffer]

/-- How a statement changes what its thread has appended without a signal. -/
def Stmt.Pushed (b b' : Option ℕ) : Stmt → Prop
  | .pushBack r _ => b' = some r
  | .signal _ => b' = none
  | _ => b' = b

theorem HandlerPc.Step.pushed {st : ConnectionState} {p p' : HandlerPc} (h : p.Step C d st σ ev p') :
    σ.Pushed (if p = .signal then some d else none) (if p' = .signal then some d else none) := by
  cases h <;> simp [Stmt.Pushed]

theorem SenderPc.Step.pushed {data : DeviceData} {p p' : SenderPc} (h : p.Step d data σ ev p') :
    σ.Pushed none none ∧ (p' = .waiting → p = .wait ∧ σ = .wait d) ∧ ∀ r, σ ≠ .signal r := by
  cases h <;> simp [Stmt.Pushed]

theorem SenderPc.Step.of_wait {data : DeviceData} {p : SenderPc} (h : SenderPc.Step d data .wait σ ev p) :
    σ = .wait d ∧ p = .waiting := by
  cases h
  exact ⟨rfl, rfl⟩

theorem ReceiverPc.Step.pushed {data : DeviceData} {network : UInt32 → Finset ℕ} {p p' : ReceiverPc}
    (h : p.Step C d data network σ ev p') :
    σ.Pushed p.pushed p'.pushed ∧ (p'.signalled = true → p.signalled = true ∨ σ = .signal d) := by
  cases h <;> simp [Stmt.Pushed, ReceiverPc.pushed, ReceiverPc.signalled]

/-- What a waiting sender relies on, after a step of another thread. -/
theorem Awake.of_thread (h : Awake s) (hts : ThreadStep s t σ s') (hp : σ.Pushed (s.pushed t) (s'.pushed t))
    (hu : ∀ u, u ≠ t → s'.pushed u = s.pushed u) (hw : s.sender d = .waiting)
    (hsig : σ ≠ .signal d) (hr : (s'.receiver d).signalled = true → (s.receiver d).signalled = true) :
    (s'.receiver d).signalled = false ∧ ((s'.device d).sendingBuffer = [] ∨ ∃ t, s'.pushed t = some d) := by
  obtain ⟨h1, h2⟩ := h d hw
  refine ⟨by cases hb : (s'.receiver d).signalled <;> simp_all, ?_⟩
  -- a message appended before is still covered by whoever appended it
  have hkeep : (s'.device d).sendingBuffer = (s.device d).sendingBuffer →
      (s.pushed t = some d → s'.pushed t = some d) →
      (s'.device d).sendingBuffer = [] ∨ ∃ t, s'.pushed t = some d := by
    intro hb ht
    rcases h2 with h2 | ⟨u, h2⟩
    · exact Or.inl (hb.trans h2)
    · by_cases hut : u = t
      · subst hut; exact Or.inr ⟨u, ht h2⟩
      · exact Or.inr ⟨u, (hu u hut).trans h2⟩
  have hbuf : (s'.device d).sendingBuffer = σ.onBuffer d (s.device d).sendingBuffer := by
    rw [hts.device, onDevice_sendingBuffer]
  cases σ <;> simp only [Stmt.Pushed] at hp <;> simp only [Stmt.onBuffer] at hbuf
  case pushBack r m =>
    by_cases hrd : r = d
    · subst hrd; exact Or.inr ⟨t, hp⟩
    · rw [if_neg hrd] at hbuf
      refine hkeep hbuf fun ht => ?_
      -- a thread in the section of `d` appends to no other buffer
      have hb := hts.buffer.1
      rw [buffer_of_pushed ht] at hb
      exact absurd (Option.some.inj hb).symm hrd
  case signal r =>
    refine hkeep hbuf fun ht => ?_
    have hb := hts.buffer.1
    rw [buffer_of_pushed ht] at hb
    exact absurd (congrArg Stmt.signal (Option.some.inj hb).symm) hsig
  case clear r =>
    by_cases hrd : r = d
    · rw [if_pos hrd] at hbuf; exact Or.inl hbuf
    · rw [if_neg hrd] at hbuf
      exact hkeep hbuf fun ht => hp.trans ht
  all_goals exact hkeep hbuf fun ht => hp.trans ht

/-- Signalling a waiting sender wakes it. -/
theorem onSender_waiting {q : SenderPc} (h : σ.onSender d q = .waiting) : q = .waiting ∧ σ ≠ .signal d := by
  cases σ <;> simp only [Stmt.onSender] at h
  case signal r =>
    split at h
    · cases h
    · rename_i hno
      exact ⟨h, fun he => hno ⟨Stmt.signal.inj he, h⟩⟩
  case createSender r =>
    split at h
    · cases h
    · exact ⟨h, by simp⟩
  all_goals exact ⟨h, by simp⟩

/-- A new device: nobody has appended to it, and those that have appended elsewhere stay. -/
theorem Awake.step_create {fd : ℕ} {data : DeviceData} {p : HandlerPc} (h : Awake s) (hsh : Shape s)
    (hm : CreateMove s fd data p s') : Awake s' := by
  intro d hw
  rw [hm.sender] at hw
  have hne : d ≠ s.created := by
    rintro rfl
    rw [(hsh.absent (Nat.le_refl _)).1] at hw
    cases hw
  have hpushed : ∀ u, s.pushed u = some d → s'.pushed u = some d := by
    intro u hu
    rw [← hu]
    cases u with
    | handler x =>
      have hx : x ≠ s.created := by
        rintro rfl
        simp [Server.pushed, hsh.handler _ (Nat.le_refl s.created)] at hu
      simp only [Server.pushed, hm.handler, if_neg hx]
    | sender x => rfl
    | receiver x => simp only [Server.pushed, hm.receiver]
  obtain ⟨h1, h2⟩ := h d hw
  rw [hm.receiver, hm.device, if_neg hne]
  exact ⟨h1, h2.imp_right fun ⟨u, hu⟩ => ⟨u, hpushed u hu⟩⟩

theorem Awake.step_handler {x : ℕ} {p : HandlerPc} (h : Awake s) (hsh : Shape s)
    (hm : HandlerMove C s x σ ev p s') : Awake s' := by
  intro d hw
  rw [hm.sender] at hw
  obtain ⟨hw, hsig⟩ := onSender_waiting hw
  have hrec := hm.receiver_or hsh
  refine h.of_thread (ThreadStep.of_handler hsh hm) ?_ (fun u hu => ?_) hw hsig fun hs => ?_
  · simpa [Server.pushed, hm.handler] using hm.step.pushed
  · cases u with
    | handler y =>
      have hy : y ≠ x := fun he => hu (by rw [he])
      simp only [Server.pushed, hm.handler, if_neg hy]
    | sender y => rfl
    | receiver y =>
      simp only [Server.pushed]
      rcases hrec y with hy | ⟨hy, hy'⟩
      · rw [hy]
      · rw [hy, hy']; rfl
  · rcases hrec d with hy | ⟨hy, -⟩
    · rw [← hy]; exact hs
    · rw [hy] at hs; cases hs

/-- When the sender starts to wait, the condition says that it may. -/
theorem Awake.step_sender {x : ℕ} {p : SenderPc} (h : Awake s) (hsh : Shape s)
    (hg : s.sender x = .wait → (s.device x).sendingBuffer = [] ∧
      ¬ ((s.device x).connectionState = .ended ∧ (s.receiver x).signalled = true))
    (hm : SenderMove s x σ ev p s') : Awake s' := by
  intro d hw
  obtain ⟨hp, hwait, hnosig⟩ := hm.step.pushed
  rw [hm.sender] at hw
  split at hw
  · rename_i hdx
    subst hdx
    obtain ⟨hpc, rfl⟩ := hwait hw
    obtain ⟨h1, h2⟩ := hg hpc
    refine ⟨?_, Or.inl ?_⟩
    · rw [hm.receiver]
      cases hb : (s.receiver d).signalled with
      | false => rfl
      | true => exact absurd ⟨hsh.signalled hb, hb⟩ h2
    · rw [hm.device, onDevice_sendingBuffer]; exact h1
  · refine h.of_thread (ThreadStep.of_sender hm) hp (fun u hu => ?_) hw (hnosig d) fun hs => ?_
    · cases u with
      | handler y => simp only [Server.pushed, hm.handler]
      | sender y => rfl
      | receiver y => simp only [Server.pushed, hm.receiver]
    · rw [← hm.receiver]; exact hs

theorem Awake.step_receiver {x : ℕ} {p : ReceiverPc} (h : Awake s) (hsh : Shape s)
    (hm : ReceiverMove C s x σ ev p s') : Awake s' := by
  intro d hw
  obtain ⟨hp, hfin⟩ := hm.step.pushed
  rw [hm.sender] at hw
  obtain ⟨hw, hsig⟩ := onSender_waiting hw
  refine h.of_thread (ThreadStep.of_receiver hsh hm) ?_ (fun u hu => ?_) hw hsig fun hs => ?_
  · simpa [Server.pushed, hm.receiver] using hp
  · cases u with
    | handler y => simp only [Server.pushed, hm.handler]
    | sender y => rfl
    | receiver y =>
      have hy : y ≠ x := fun he => hu (by rw [he])
      simp only [Server.pushed, hm.receiver, if_neg hy]
  · rw [hm.receiver] at hs
    split at hs
    · rename_i hdx
      subst hdx
      exact (hfin hs).resolve_right hsig
    · exact hs

theorem Awake.step (h : Awake s) (hsh : Shape s) (hg : WaitsIdle s a) (hm : s.Moves C a ev s') : Awake s' := by
  cases hm with
  | accept fd hfd => exact h
  | create fd launched networkId last hm => exact h.step_create hsh hm
  | handler x e hm => exact h.step_handler hsh hm
  | sender x e hm => exact h.step_sender hsh (hg x e rfl) hm
  | receiver x e hm => exact h.step_receiver hsh hm
  | wake x hx =>
    intro d hw
    change Function.update s.sender x .woken d = .waiting at hw
    rw [Function.update_apply] at hw
    split at hw
    · cases hw
    · exact h d hw

theorem Awake.neverSleeps (h : Awake s) (hmx : Mutexes s) : NeverSleeps s := by
  intro d hfree hw
  obtain ⟨h1, h2⟩ := h d hw
  refine ⟨?_, fun hs => by rw [h1] at hs; exact absurd hs.2 (by simp)⟩
  rcases h2 with h2 | ⟨t, h2⟩
  · exact h2
  · have hown : (s.device d).newMessageMutex = some t := (hmx.buffer d t).2 (buffer_of_pushed h2)
    rw [hfree] at hown
    cases hown

/-- **The sender never sleeps with work to do, exactly as long as `WaitsIdle` holds.** In
every run in which senders start to wait only when there is nothing to do, they never sleep
with work to do; and a step that starts to wait otherwise, in any run, puts one to sleep so. -/
theorem never_sleeps (C : Crypto) :
    (∀ s, (relay C).ReachWhen WaitsIdle s → NeverSleeps s) ∧
      ∀ s a s', (relay C).Reach s → (relay C).step s a = some s' → ¬ WaitsIdle s a → ¬ NeverSleeps s' := by
  constructor
  · intro s h
    refine Awake.neverSleeps ?_ (Mutexes.reach h)
    refine h.induct (fun s hi d hw => ?_) fun _ _ _ hr hok hg hs =>
      hok.step (Shape.reach hr) hg (Server.step_moves hs)
    rw [hi.sender] at hw
    cases hw
  · intro s a s' hr hs hbad hok
    simp only [WaitsIdle, not_forall] at hbad
    obtain ⟨d, e, rfl, hpc, hbad⟩ := hbad
    have hm : s.Moves C (.sender d e) _ s' := Server.step_moves hs
    cases hm with
    | sender _ _ hm =>
      -- the mutex is free now, and buffer and connection are as they were
      obtain ⟨rfl, rfl⟩ := (hpc ▸ hm.step).of_wait
      have hsend : s'.sender d = .waiting := by rw [hm.sender, if_pos rfl]
      have hmx : (s'.device d).newMessageMutex = none := by
        rw [hm.device, onDevice_newMessageMutex]
        simp [Stmt.onMutex]
      obtain ⟨h1, h2⟩ := hok d hmx hsend
      rw [hm.device, onDevice_sendingBuffer] at h1
      rw [hm.connectionState, hm.receiver] at h2
      exact hbad ⟨h1, h2⟩

/-- The handler queues its first ping and signals before the sender waits for the first
time. -/
def earlySignal : List Action := List.flatten
  [[.accept 4, .create true 0 0], .replicate 9 (.handler 0 {}), .replicate 3 (.sender 0 {})]

/-- The sender sleeps with a ping in its buffer. -/
theorem sleeps_with_ping : ∃ s, (relay Crypto.zero).Reach s ∧
    ((s.device 0).newMessageMutex = none ∧ s.sender 0 = .waiting ∧ (s.device 0).sendingBuffer ≠ []) ∧
      ¬ NeverSleeps s := by
  have hrun : ((relay Crypto.zero).run Server.fresh earlySignal).any
      (fun s => (s.device 0).newMessageMutex = none ∧ s.sender 0 = .waiting ∧
        (s.device 0).sendingBuffer.length = 1) = true := by decide +kernel
  obtain ⟨s, hr, hs⟩ := Runs.Machine.exists_reach Server.fresh_starts hrun
  obtain ⟨h1, h2, h3⟩ := of_decide_eq_true hs
  have hne : (s.device 0).sendingBuffer ≠ [] := by
    intro he
    rw [he] at h3
    cases h3
  exact ⟨s, hr, ⟨h1, h2, hne⟩, fun h => hne (h 0 h1 h2).1⟩

end ServerRoom.Relay
