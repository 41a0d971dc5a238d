import ServerRoom.Proof.Deadlock
import ServerRoom.Proof.Promptness

/-!
# What is left to do when a connection has ended

When a receiver has set `CONNECTION_ENDED`, the three threads of its connection come to their end. Each has
a bounded number of steps left, in whatever order all threads go; only the sender has one more for every
message that it still passes on.

* `handler_exit`, `sender_exit`, `receiver_exit`: every step of such a thread brings it nearer to its end,
  and no other step puts it back.
* `goes_on`: it can take its next step, unless it waits for its turn.
* `torn_down`: both, over whole runs.
-/

namespace ServerRoom.Relay

open Runs

variable {C : Crypto} {s s' : Server} {a : Action} {H H' : History} {ev : Option Event} {σ : Stmt} {d : ℕ}

def Action.ofHandler (d : ℕ) : Action → Bool
  | .handler x _ => x = d
  | _ => false

/-! ## How far a thread is from its end -/

/-- The steps that a handler has left when the connection has ended. -/
def HandlerPc.toExit : HandlerPc → ℕ
  | .absent | .acquire => 11
  | .createSender => 10
  | .createReceiver => 9
  | .hmac => 8
  | .sign _ => 7
  | .lock _ => 6
  | .push _ => 5
  | .signal => 4
  | .unlock => 3
  | .state => 2
  | .release => 1
  | .failed | .done => 0

/-- Those of a sender, beside the messages that it passes on. -/
def SenderPc.toExit : SenderPc → ℕ
  | .absent | .acquire => 8
  | .lock => 7
  | .wait => 6
  | .waiting | .woken => 5
  | .drain _ => 4
  | .unlock => 3
  | .state => 2
  | .release => 1
  | .done => 0

/-- Those of a receiver. -/
def ReceiverPc.toExit : ReceiverPc → ℕ
  | .finalLock => 4
  | .finalSignal => 3
  | .finalUnlock => 2
  | .release => 1
  | _ => 0

theorem HandlerPc.Step.toExit {p p' : HandlerPc} (h : p.Step C d .ended σ ev p') : p'.toExit < p.toExit := by
  cases h <;> simp_all [HandlerPc.toExit]

theorem SenderPc.Step.toExit {data : DeviceData} {p p' : SenderPc} (h : p.Step d data σ ev p')
    (he : data.connectionState = .ended) : p'.toExit < p.toExit + (Event.newPassed d ev).length := by
  cases h <;> simp_all [SenderPc.toExit, Event.newPassed]

theorem ReceiverPc.Step.toExit {data : DeviceData} {network : UInt32 → Finset ℕ} {p p' : ReceiverPc}
    (h : p.Step C d data network σ ev p') (hfit : p.fits .ended = true) : p'.toExit < p.toExit := by
  cases h <;> simp_all [ReceiverPc.toExit, ReceiverPc.fits]

/-- Where a receiver is when it has ended its connection. -/
theorem ReceiverPc.of_fits_ended {p : ReceiverPc} (h : p.fits .ended = true) :
    p = .finalLock ∨ p = .finalSignal ∨ p = .finalUnlock ∨ p = .release ∨ p = .done := by
  cases p <;> simp_all [ReceiverPc.fits]

/-! ## A step -/

/-- A device whose connection has ended exists, with its receiver. -/
theorem Shape.of_ended (h : Shape s) (he : (s.device d).connectionState = .ended) :
    (s.receiver d).fits .ended = true ∧ s.receiver d ≠ .absent ∧ d < s.created := by
  have hfit := h.fits d
  rw [he] at hfit
  have hthere : s.receiver d ≠ .absent := by
    intro habs
    rw [habs] at hfit
    cases hfit
  exact ⟨hfit, hthere, h.lt_created hthere⟩

theorem handler_exit (h : Shape s) (he : (s.device d).connectionState = .ended) (hm : s.Moves C a ev s') :
    (a.ofHandler d).toNat + (s'.handler d).toExit ≤ (s.handler d).toExit := by
  have hsame : ∀ b : Bool, b = false → s'.handler d = s.handler d →
      b.toNat + (s'.handler d).toExit ≤ (s.handler d).toExit := by
    intro b hb hpc
    rw [hb, hpc]
    exact Nat.le_of_eq (Nat.zero_add _)
  cases hm with
  | accept fd hfd => exact hsame _ rfl rfl
  | create fd launched networkId last hm =>
    exact hsame _ rfl (by rw [hm.handler, if_neg (Nat.ne_of_lt (h.of_ended he).2.2)])
  | handler x e hm =>
    have hpc := hm.handler d
    by_cases hx : d = x
    · subst hx
      have hstep := hm.step
      rw [he] at hstep
      have hlt := hstep.toExit
      rw [hpc, if_pos rfl, show Action.ofHandler d (.handler d e) = true from decide_eq_true rfl, Bool.toNat_true]
      omega
    · rw [if_neg hx] at hpc
      exact hsame _ (decide_eq_false (Ne.symm hx)) hpc
  | sender x e hm => exact hsame _ rfl (hm.handler d)
  | receiver x e hm => exact hsame _ rfl (hm.handler d)
  | wake x hw => exact hsame _ rfl rfl

theorem sender_exit (h : Shape s) (he : (s.device d).connectionState = .ended) (hm : s.Moves C a ev s') :
    (a.ofSender d).toNat + (s'.sender d).toExit ≤ (s.sender d).toExit + (Event.newPassed d ev).length := by
  rcases sender_progress (d := d) (f := SenderPc.toExit) rfl rfl h hm with ⟨hother, hnew, hsame⟩ | ⟨hown, σ, hstep⟩
  · rw [hother, hnew, hsame]
    exact Nat.le_of_eq (Nat.zero_add _)
  · have hlt := hstep.toExit he
    rw [hown, Bool.toNat_true]
    omega

theorem receiver_exit (h : Shape s) (he : (s.device d).connectionState = .ended) (hm : s.Moves C a ev s') :
    (a.ofReceiver d).toNat + (s'.receiver d).toExit ≤ (s.receiver d).toExit := by
  obtain ⟨hfit, hthere, -⟩ := h.of_ended he
  have hsame : ∀ b : Bool, b = false → s'.receiver d = s.receiver d →
      b.toNat + (s'.receiver d).toExit ≤ (s.receiver d).toExit := by
    intro b hb hpc
    rw [hb, hpc]
    exact Nat.le_of_eq (Nat.zero_add _)
  cases hm with
  | accept fd hfd => exact hsame _ rfl rfl
  | create fd launched networkId last hm => exact hsame _ rfl (hm.receiver d)
  | handler x e hm => exact hsame _ rfl (hm.receiver_same h hthere)
  | sender x e hm => exact hsame _ rfl (hm.receiver d)
  | receiver x e hm =>
    have hpc := hm.receiver d
    by_cases hx : d = x
    · subst hx
      have hlt := hm.step.toExit hfit
      rw [hpc, if_pos rfl, show Action.ofReceiver d (.receiver d e) = true from decide_eq_true rfl, Bool.toNat_true]
      omega
    · rw [if_neg hx] at hpc
      exact hsame _ (decide_eq_false (Ne.symm hx)) hpc
  | wake x hw => exact hsame _ rfl rfl

/-! ## The next step -/

/-- A thread is over, or was never created. -/
def Server.over (s : Server) : Thread → Prop
  | .handler d => s.handler d = .done ∨ s.handler d = .failed
  | .sender d => s.sender d = .done ∨ s.sender d = .absent
  | .receiver d => s.receiver d = .done

/-- The threads of a connection. -/
def threadsOf (d : ℕ) : List Thread := [.handler d, .sender d, .receiver d]

/-- **A thread of a connection that has ended can go on**, unless it is over, or stands at the lock of
`new_message_mutex` while that is taken, or is the sender and waits for a signal. -/
theorem goes_on (h : Shape s) (he : (s.device d).connectionState = .ended) {t : Thread} (ht : t ∈ threadsOf d)
    (e : Env) : s.over t ∨ (s.step C (t.action e)).isSome ∨
      ((s.statement C e t).bind Stmt.locks = some (.newMessage d) ∧ (s.device d).newMessageMutex ≠ none) ∨
      t = .sender d ∧ s.sender d = .waiting := by
  -- a thread that stands at the lock goes on if the mutex is free
  have hturn : (s.statement C e t).bind Stmt.locks = some (.newMessage d) → (s.step C (t.action e)).isSome ∨
      ((s.statement C e t).bind Stmt.locks = some (.newMessage d) ∧ (s.device d).newMessageMutex ≠ none) ∨
      t = .sender d ∧ s.sender d = .waiting := by
    intro hl
    by_cases hfree : (s.device d).newMessageMutex = none
    · refine .inl ((Server.step_locks hl).2 ⟨fun hm => (by cases hm), fun x hx => ?_⟩)
      cases hx
      exact hfree
    · exact .inr (.inl ⟨hl, hfree⟩)
  obtain ⟨hfit, hthere, -⟩ := h.of_ended he
  simp only [threadsOf, List.mem_cons, List.not_mem_nil, or_false] at ht
  rcases ht with rfl | rfl | rfl
  · have hpast : (s.handler d).beforeReceiver = false := by
      cases hb : (s.handler d).beforeReceiver with
      | false => rfl
      | true => exact absurd (h.receiver d hb) hthere
    cases hpc : s.handler d <;> rw [hpc] at hpast
    case failed => exact .inl (.inr hpc)
    case done => exact .inl (.inl hpc)
    case lock => exact .inr (hturn (by simp [Server.statement, HandlerPc.next, Stmt.locks, hpc]))
    case absent | acquire | createSender | createReceiver => cases hpast
    all_goals exact .inr (.inl (by simp [Server.step, Thread.action, HandlerPc.next, Server.exec, hpc, he]))
  · cases hpc : s.sender d
    case absent => exact .inl (.inr hpc)
    case done => exact .inl (.inl hpc)
    case waiting => exact .inr (.inr (.inr ⟨rfl, rfl⟩))
    case lock | woken =>
      have hwait := hturn (by simp [Server.statement, SenderPc.next, Stmt.locks, hpc])
      rw [hpc] at hwait
      exact .inr hwait
    case drain i =>
      refine .inr (.inl ?_)
      cases hi : (s.device d).sendingBuffer[i]? <;>
        simp [Server.step, Thread.action, SenderPc.next, Server.exec, hpc, hi]
    all_goals exact .inr (.inl (by simp [Server.step, Thread.action, SenderPc.next, Server.exec, hpc, he]))
  · rcases ReceiverPc.of_fits_ended hfit with hpc | hpc | hpc | hpc | hpc
    · exact .inr (hturn (by simp [Server.statement, ReceiverPc.next, Stmt.locks, hpc]))
    · exact .inr (.inl (by simp [Server.step, Thread.action, ReceiverPc.next, Server.exec, hpc]))
    · exact .inr (.inl (by simp [Server.step, Thread.action, ReceiverPc.next, Server.exec, hpc]))
    · exact .inr (.inl (by simp [Server.step, Thread.action, ReceiverPc.next, Server.exec, hpc]))
    · exact .inl hpc

/-! ## Runs -/

section Runs

variable {G : Server × History → Action → Prop} [∀ p a, Decidable (G p a)] {as : List Action} {m : Action → Bool}
  {r c : Server × History → ℕ}

/-- A run after the connection of `d` has ended. -/
theorem ended_run (h : (observed C).ReachWhen G (s, H)) (he : (s.device d).connectionState = .ended)
    (hr : (observed C).runWhen G (s, H) as = some (s', H'))
    (hcost : ∀ p a p' ev, Shape p.1 → (p.1.device d).connectionState = .ended → p.1.Moves C a ev p'.1 →
      p'.2 = p.2.after ev → (m a).toNat + r p' + c p ≤ r p + c p') :
    (s'.device d).connectionState = .ended ∧ (as.filter m).length + r (s', H') + c (s, H) ≤ r (s, H) + c (s', H') := by
  let I : Server × History → Prop := fun p =>
    (observed C).ReachWhen G p ∧ (p.1.device d).connectionState = .ended
  have hstep : ∀ p a p', I p → G p a → (observed C).step p a = some p' → I p' := by
    rintro p a p' ⟨hreach, hended⟩ hg hs
    exact ⟨.step a hreach hg hs, ended_step (Shape.reach (plain_reach hreach)) (observed_moves hs).1 hended⟩
  have hend : I (s', H') := Machine.runWhen_induct hr ⟨h, he⟩ hstep
  refine ⟨hend.2, Machine.runWhen_budget (I := I) hr ⟨h, he⟩ hstep fun p a p' hi _ hs => ?_⟩
  obtain ⟨hm, hH⟩ := observed_moves hs
  exact hcost p a p' _ (Shape.reach (plain_reach hi.1)) hi.2 hm hH

/-- **When a connection has ended, its threads come to their end.** Whatever all threads do from then on:
its receiver takes at most 4 more steps, its handler at most 8, two of them in `create_ping_message`, and its
sender at most 8 and one for each message that is unsent or is still appended; and each of the three can take
its next step until it is over, except while it stands at the lock of `new_message_mutex` and somebody holds
that, or is the sender and waits for a signal. -/
theorem torn_down (h : (observed C).ReachWhen G (s, H)) (he : (s.device d).connectionState = .ended)
    (hr : (observed C).runWhen G (s, H) as = some (s', H')) :
    (as.filter (Action.ofReceiver d)).length ≤ 4 ∧ (as.filter (Action.ofHandler d)).length ≤ 8 ∧
      (as.filter (Action.ofSender d)).length ≤
        (s.unsent d).length + ((H'.appended d).length - (H.appended d).length) + 8 ∧
      ∀ t ∈ threadsOf d, ∀ e, s'.over t ∨ (s'.step C (t.action e)).isSome ∨
        ((s'.statement C e t).bind Stmt.locks = some (.newMessage d) ∧ (s'.device d).newMessageMutex ≠ none) ∨
        t = .sender d ∧ s'.sender d = .waiting := by
  have hreach : (observed C).ReachWhen G (s', H') := Machine.ReachWhen.runWhen h hr
  have hshape := Shape.reach (plain_reach h)
  obtain ⟨hended, hrec⟩ := ended_run (m := Action.ofReceiver d) (r := fun p => (p.1.receiver d).toExit)
    (c := fun _ => 0) h he hr fun p a p' ev hsh hend hm _ => receiver_exit hsh hend hm
  obtain ⟨-, hhan⟩ := ended_run (m := Action.ofHandler d) (r := fun p => (p.1.handler d).toExit)
    (c := fun _ => 0) h he hr fun p a p' ev hsh hend hm _ => handler_exit hsh hend hm
  obtain ⟨-, hsen⟩ := ended_run (m := Action.ofSender d) (r := fun p => (p.1.sender d).toExit)
    (c := fun p => (p.2.passed d).length) h he hr fun p a p' ev hsh hend hm hH => by
      have hexit := sender_exit hsh hend hm
      rw [hH, History.after_passed, List.length_append]
      omega
  dsimp only at hrec hhan hsen
  refine ⟨?_, ?_, ?_, fun t ht e => goes_on (Shape.reach (plain_reach hreach)) hended ht e⟩
  · have hle : (s.receiver d).toExit ≤ 4 := by
      cases s.receiver d <;> simp [ReceiverPc.toExit]
    omega
  · have hle : (s.handler d).toExit ≤ 8 := by
      have hthere := (hshape.of_ended he).2.1
      have hpast : (s.handler d).beforeReceiver ≠ true := fun hb => hthere (hshape.receiver d hb)
      cases hpc : s.handler d <;> simp_all [HandlerPc.toExit, HandlerPc.beforeReceiver]
    omega
  · have hle : (s.sender d).toExit ≤ 8 := by
      cases s.sender d <;> simp [SenderPc.toExit]
    -- what is passed on was appended
    have hqueue := congrArg List.length ((Queued.reach h).order d)
    have hqueue' := (passed_begins hreach d).length_le
    rw [List.length_append, List.length_map, List.length_map] at hqueue
    rw [List.length_map, List.length_map] at hqueue'
    omega

/-- Device 0 has joined, and its receiver has ended the connection after a failed read. -/
def endsAtOnce : List Action := List.flatten
  [[.accept 4, .create true 0 0], .replicate 3 (.handler 0 {}), .replicate 3 (.sender 0 {}),
    .replicate 6 (.receiver 0 {})]

/-- The three threads finish; a ping is still appended. -/
def finishes : List Action := List.flatten
  [.replicate 4 (.receiver 0 {}), .replicate 6 (.handler 0 {}), .replicate 6 (.sender 0 { results := [some 48] }),
    .replicate 2 (.handler 0 {})]

theorem torn_down_finishes : ∃ s s' H H', (observed Crypto.zero).ReachWhen (fun p => TouchesLive p.1) (s, H) ∧
    (observed Crypto.zero).runWhen (fun p => TouchesLive p.1) (s, H) finishes = some (s', H') ∧
    (s'.device 0).deletes = 1 ∧ (finishes.filter (Action.ofHandler 0)).length ≤ 8 ∧
    (finishes.filter (Action.ofSender 0)).length ≤
      (s.unsent 0).length + ((H'.appended 0).length - (H.appended 0).length) + 8 := by
  have hrun : ((observed Crypto.zero).runWhen (fun p => TouchesLive p.1) (Server.fresh, .empty) endsAtOnce).any
      (fun p => (p.1.device 0).connectionState = .ended ∧
        ((observed Crypto.zero).runWhen (fun p => TouchesLive p.1) p finishes).any
          fun p' => (p'.1.device 0).deletes = 1) = true := by
    decide +kernel
  obtain ⟨⟨s, H⟩, hr, hs⟩ := Machine.exists_reachWhen (observed_init _ Server.fresh_starts) hrun
  obtain ⟨hended, hmore⟩ := of_decide_eq_true hs
  obtain ⟨⟨s', H'⟩, hr', hdel⟩ := (Option.any_eq_true _ _).1 hmore
  obtain ⟨-, hhandler, hsender, -⟩ := torn_down hr hended hr'
  exact ⟨s, s', H, H', hr, hr', of_decide_eq_true hdel, hhandler, hsender⟩

end Runs

end ServerRoom.Relay
