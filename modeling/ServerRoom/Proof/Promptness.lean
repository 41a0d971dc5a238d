import ServerRoom.Lib.Progress
import ServerRoom.Proof.Broadcast
import ServerRoom.Proof.Registry

/-!
# How soon a message is passed on

A sender that is signalled passes on everything that is in its buffer, and a broadcast appends its
message for every device that it has copied from the registry. Each takes a bounded number of steps of
its own thread, in whatever order the threads go:

* `passed_on`: what was appended for a device is passed to `send_message` after as many steps of its
  sender as there are unsent messages, and five more, unless the connection has ended.
* `relayed`: a broadcast returns after a number of steps of its receiver that depends only on how many
  devices are in its copy of the registry; its message is then passed on for each of them as above.
-/

namespace ServerRoom.Relay

open Runs Rounds

variable {C : Crypto} {s s' : Server} {a : Action} {H H' : History} {ev : Option Event} {σ : Stmt} {d : ℕ}

/-! ## The sender -/

/-- The sender has left its loop. -/
def SenderPc.gone : SenderPc → Bool
  | .release | .done => true
  | _ => false

/-- How many steps a sender is away from passing on what is in its buffer, once it is signalled. -/
def SenderPc.toDrain : SenderPc → ℕ
  | .unlock => 5
  | .absent | .acquire | .state => 4
  | .lock => 3
  | .wait => 2
  | .waiting | .woken => 1
  | _ => 0

def Action.ofSender (d : ℕ) : Action → Bool
  | .sender x _ => x = d
  | _ => false

theorem SenderPc.toDrain_le (p : SenderPc) : p.toDrain ≤ 5 := by
  cases p <;> simp [SenderPc.toDrain]

/-- What is the same before and after a sender is created, and before and after it is woken, other threads
do not change. -/
theorem onSender_congr {β : Type*} {f : SenderPc → β} (hcreate : f .acquire = f .absent)
    (hwake : f .woken = f .waiting) {p : SenderPc} (hσ : σ = .createSender d → p = .absent) :
    f (σ.onSender d p) = f p := by
  cases σ <;> simp only [Stmt.onSender]
  case signal r =>
    split
    · rename_i hw
      rw [hw.2]
      exact hwake
    · rfl
  case createSender r =>
    split
    · rename_i hr
      rw [hσ (by rw [hr])]
      exact hcreate
    · rfl

/-- A sender that has left does not come back. -/
theorem SenderPc.Step.gone {data : DeviceData} {p p' : SenderPc} (h : p.Step d data σ ev p') :
    (p.gone = true → p'.gone = true) ∧ (p'.gone = true → p.gone = true ∨ data.connectionState = .ended) := by
  cases h <;> simp_all [SenderPc.gone]

/-- **A step of the sender**: it passes on a message, or comes nearer to it, or leaves; when it has nothing
to pass on it clears its buffer. -/
theorem SenderPc.Step.toDrain {data : DeviceData} {p p' : SenderPc} (h : p.Step d data σ ev p')
    (hin : p.gone = false) (hmore : data.sendingBuffer.drop p.position ≠ []) :
    p'.gone = true ∨ (Event.newPassed d ev).length = 1 ∧ p'.toDrain = p.toDrain ∨
      Event.newPassed d ev = [] ∧ p'.toDrain + 1 = p.toDrain := by
  cases h with
  | send i m results hm => exact .inr (.inl ⟨by simp [Event.newPassed], rfl⟩)
  | clear i hle => exact absurd (List.drop_eq_nil_of_le hle) hmore
  | ended he => exact .inl rfl
  | release => cases hin
  | acquire | lock | wait | woken | unlock | again => exact .inr (.inr ⟨rfl, rfl⟩)

/-- What a step does to the sender of `d` and to what was passed on: a step of the sender, or one that
leaves such an `f` alone. -/
theorem sender_progress {β : Type*} {f : SenderPc → β} (hcreate : f .acquire = f .absent)
    (hwake : f .woken = f .waiting) (hsh : Shape s) (hm : s.Moves C a ev s') :
    (a.ofSender d = false ∧ Event.newPassed d ev = [] ∧ f (s'.sender d) = f (s.sender d)) ∨
      a.ofSender d = true ∧ ∃ σ, (s.sender d).Step d (s.device d) σ ev (s'.sender d) := by
  cases hm with
  | accept fd hfd => exact .inl ⟨rfl, rfl, rfl⟩
  | create fd launched networkId last hm => exact .inl ⟨rfl, rfl, by rw [hm.sender]⟩
  | handler x e hm =>
    refine .inl ⟨rfl, (hm.step.appends (H := .empty) d []).2, ?_⟩
    rw [hm.sender]
    exact onSender_congr hcreate hwake (hm.creates_sender hsh)
  | @sender x e σ ev p s' hm =>
    have hpc := hm.sender d
    by_cases hx : d = x
    · subst hx
      rw [if_pos rfl] at hpc
      refine .inr ⟨decide_eq_true rfl, σ, ?_⟩
      rw [hpc]
      exact hm.step
    · rw [if_neg hx] at hpc
      exact .inl ⟨decide_eq_false (Ne.symm hx), (hm.step.own hx []).2, by rw [hpc]⟩
  | receiver x e hm =>
    refine .inl ⟨rfl, (hm.step.queues (H := .empty) d []).2, ?_⟩
    rw [hm.sender]
    exact onSender_congr hcreate hwake fun hσ => absurd hσ (hm.step.creates d)
  | wake x hw =>
    refine .inl ⟨rfl, rfl, ?_⟩
    show f (Function.update s.sender x .woken d) = _
    rw [Function.update_apply]
    split
    · rename_i hx
      rw [hx, hw]
      exact hwake
    · rfl

/-- **A sender leaves its loop only when its connection has ended.** -/
theorem gone_ended (h : (relay C).Reach s) (hg : (s.sender d).gone = true) :
    (s.device d).connectionState = .ended := by
  refine h.induct (I := fun s => (s.sender d).gone = true → (s.device d).connectionState = .ended)
    (fun s hs hg => ?_) (fun s a s' hr ih _ hs hg => ?_) hg
  · rw [hs.sender] at hg
    cases hg
  · have hm := Server.step_moves hs
    refine ended_step (Shape.reach hr) hm ?_
    rcases sender_progress (d := d) (f := SenderPc.gone) rfl rfl (Shape.reach hr) hm with
      ⟨-, -, hsame⟩ | ⟨-, σ, hstep⟩
    · rw [hsame] at hg
      exact ih hg
    · rcases hstep.gone.2 hg with hold | hend
      · exact ih hold
      · exact hend

/-! ## The receiver -/

/-- How many steps a receiver is away from the end of its broadcast, once it has its copy. -/
def ReceiverPc.toReturn : ReceiverPc → ℕ
  | .castCopy _ todo current => 6 * todo.card + 5 * current.length + 2
  | .castNext _ rest => 5 * rest.length + 1
  | .castPush _ _ rest => 5 * rest.length + 5
  | .castRelease _ _ rest => 5 * rest.length + 4
  | .castSignal _ _ rest => 5 * rest.length + 3
  | .castUnlock _ _ rest => 5 * rest.length + 2
  | _ => 0

def Action.ofReceiver (d : ℕ) : Action → Bool
  | .receiver x _ => x = d
  | _ => false

/-- **A step of the receiver**: its broadcast returns, or comes nearer to its end. -/
theorem ReceiverPc.Step.toReturn {data : DeviceData} {network : UInt32 → Finset ℕ} {p p' : ReceiverPc}
    (h : p.Step C d data network σ ev p') (hc : p.copied = true) :
    Event.newReturned d ev = 1 ∨ Event.newReturned d ev = 0 ∧ p'.copied = true ∧ p'.toReturn + 1 = p.toReturn := by
  cases h <;> cases hc
  case castPick m todo current r hr =>
    have hcard := Finset.card_erase_add_one hr
    have hlen : (current ++ [r]).length = current.length + 1 := by simp
    refine .inr ⟨rfl, rfl, ?_⟩
    simp only [ReceiverPc.toReturn]
    omega
  case castReturn m => exact .inl (by simp [Event.newReturned])
  case castCopied m current =>
    refine .inr ⟨rfl, rfl, ?_⟩
    simp only [ReceiverPc.toReturn, Finset.card_empty]
    omega
  case castNext m r rest =>
    refine .inr ⟨rfl, rfl, ?_⟩
    simp only [ReceiverPc.toReturn, List.length_cons]
    omega
  all_goals exact .inr ⟨rfl, rfl, rfl⟩

/-- The devices that are left bound the steps that are left. -/
theorem ReceiverPc.toReturn_le {set : Finset ℕ} (p : ReceiverPc) (ht : p.Tidy) (hsub : ∀ r ∈ p.remaining, r ∈ set) :
    p.toReturn ≤ 6 * set.card + 4 := by
  have hcard : p.remaining.card ≤ set.card := Finset.card_le_card hsub
  have hrest : ∀ rest : List ℕ, rest.Nodup → rest.toFinset.card = rest.length := fun _ => List.toFinset_card_of_nodup
  cases p <;> simp only [ReceiverPc.toReturn, ReceiverPc.remaining, ReceiverPc.Tidy] at ht hcard ⊢
  case castCopy m todo current =>
    have hdis : Disjoint todo current.toFinset :=
      Finset.disjoint_right.2 fun x hx => ht.2 x (List.mem_toFinset.1 hx)
    rw [Finset.card_union_of_disjoint hdis, hrest current ht.1] at hcard
    omega
  case castPush m r rest =>
    obtain ⟨hnot, hnd⟩ := List.nodup_cons.1 ht
    rw [Finset.card_insert_of_notMem (by rwa [List.mem_toFinset]), hrest rest hnd] at hcard
    omega
  case castNext m rest | castRelease m r rest | castSignal m r rest | castUnlock m r rest =>
    rw [hrest rest ht] at hcard
    omega
  all_goals exact Nat.zero_le _

/-- What a step does to the receiver of `d` and to the count of its broadcasts. -/
theorem receiver_progress (hsh : Shape s) (hm : s.Moves C a ev s') (hc : (s.receiver d).copied = true) :
    (a.ofReceiver d = false ∧ Event.newReturned d ev = 0 ∧ s'.receiver d = s.receiver d) ∨
      a.ofReceiver d = true ∧ ∃ σ, (s.receiver d).Step C d (s.device d) s.networkDevices σ ev (s'.receiver d) := by
  cases hm with
  | accept fd hfd => exact .inl ⟨rfl, rfl, rfl⟩
  | create fd launched networkId last hm => exact .inl ⟨rfl, rfl, hm.receiver d⟩
  | handler x e hm =>
    have hthere : s.receiver d ≠ .absent := by
      intro habs
      rw [habs] at hc
      cases hc
    exact .inl ⟨rfl, (hm.step.foreign (d := d)).returned, hm.receiver_same hsh hthere⟩
  | sender x e hm => exact .inl ⟨rfl, (hm.step.foreign (d := d)).returned, hm.receiver d⟩
  | @receiver x e σ ev p s' hm =>
    have hpc := hm.receiver d
    by_cases hx : d = x
    · subst hx
      rw [if_pos rfl] at hpc
      refine .inr ⟨decide_eq_true rfl, σ, ?_⟩
      rw [hpc]
      exact hm.step
    · rw [if_neg hx] at hpc
      exact .inl ⟨decide_eq_false (Ne.symm hx), (hm.step.foreign (Ne.symm hx)).returned, hpc⟩
  | wake x hw => exact .inl ⟨rfl, rfl, rfl⟩

theorem returned_mono {p p' : Server × History} (hs : (observed C).step p a = some p') :
    p.2.returned d ≤ p'.2.returned d := by
  rw [(observed_moves hs).2, History.after_returned]
  exact Nat.le_add_right _ _

/-- **Each step of the receiver brings its broadcast nearer to the end**, and no other step puts it back. -/
theorem cast_step {p p' : Server × History} (h : (relay C).Reach p.1) (hc : (p.1.receiver d).copied = true)
    (hs : (observed C).step p a = some p') :
    p'.2.returned d = p.2.returned d + 1 ∨
      p'.2.returned d = p.2.returned d ∧ (p'.1.receiver d).copied = true ∧
        (a.ofReceiver d).toNat + (p'.1.receiver d).toReturn = (p.1.receiver d).toReturn := by
  obtain ⟨hm, hH⟩ := observed_moves hs
  rw [hH, History.after_returned]
  rcases receiver_progress (Shape.reach h) hm hc with ⟨hother, hnew, hsame⟩ | ⟨hown, σ, hstep⟩
  · right
    rw [hother, hnew, hsame]
    exact ⟨rfl, hc, Nat.zero_add _⟩
  · rcases hstep.toReturn hc with hret | ⟨hno, hcopied, hrank⟩
    · rw [hret]
      exact .inl rfl
    · right
      rw [hown, hno, Bool.toNat_true]
      exact ⟨rfl, hcopied, by omega⟩

/-! ## Runs -/

section Runs

variable {G : Server × History → Action → Prop} [∀ p a, Decidable (G p a)] {as : List Action} {k : ℕ}

omit [∀ p a, Decidable (G p a)] in
theorem plain_reach (h : (observed C).ReachWhen G (s, H)) : (relay C).Reach s := h.unrecorded fun _ _ _ => trivial

theorem getElem?_of_begins {α : Type*} {xs ys : List α} {x : α} (h : xs <+: ys) {i : ℕ} (hi : xs[i]? = some x) :
    ys[i]? = some x := by
  obtain ⟨zs, rfl⟩ := h
  obtain ⟨hlt, -⟩ := List.getElem?_eq_some_iff.1 hi
  rw [List.getElem?_append_left hlt]
  exact hi

/-- What was recorded stays so. -/
theorem runWhen_recorded (hr : (observed C).runWhen G (s, H) as = some (s', H')) (d : ℕ) :
    H.appended d <+: H'.appended d ∧ H.accepted d <+: H'.accepted d ∧ H.snapshots d <+: H'.snapshots d := by
  let I : Server × History → Prop := fun p =>
    H.appended d <+: p.2.appended d ∧ H.accepted d <+: p.2.accepted d ∧ H.snapshots d <+: p.2.snapshots d
  have hstep : ∀ p a p', I p → G p a → (observed C).step p a = some p' → I p' := by
    intro p a p' hp _ hs
    have hH := (observed_moves hs).2
    obtain ⟨happ, hacc, hsnap⟩ := hp
    show H.appended d <+: p'.2.appended d ∧ H.accepted d <+: p'.2.accepted d ∧ H.snapshots d <+: p'.2.snapshots d
    rw [hH, History.after_appended, History.after_accepted, History.after_snapshots]
    exact ⟨happ.trans (List.prefix_append _ _), hacc.trans (List.prefix_append _ _),
      hsnap.trans (List.prefix_append _ _)⟩
  have hstart : I (s, H) := ⟨List.prefix_refl _, List.prefix_refl _, List.prefix_refl _⟩
  have hend : I (s', H') := Machine.runWhen_induct hr hstart hstep
  exact hend

/-! ### The sender drains its buffer -/

/-- `k` messages of `d` are passed on, or its sender has left. -/
def Drained (d k : ℕ) (p : Server × History) : Prop := k ≤ (p.2.passed d).length ∨ (p.1.sender d).gone = true

/-- The steps to that. -/
def drainRank (d k : ℕ) (p : Server × History) : ℕ := k - (p.2.passed d).length + (p.1.sender d).toDrain

omit [∀ p a, Decidable (G p a)] in
/-- **Each step of the sender brings it nearer**, and no other thread puts it back. -/
theorem drained_step (h : (observed C).ReachWhen G (s, H)) (hk : k ≤ (H.appended d).length)
    (hs : (observed C).step (s, H) a = some (s', H')) (hno : ¬ Drained d k (s, H)) :
    Drained d k (s', H') ∨ (a.ofSender d).toNat + drainRank d k (s', H') ≤ drainRank d k (s, H) := by
  obtain ⟨hm, hH⟩ := observed_moves hs
  obtain ⟨hfew, hin⟩ := not_or.1 hno
  have hin : (s.sender d).gone = false := by simpa using hin
  dsimp only at hm hH hfew
  have hpassed : (H'.passed d).length = (H.passed d).length + (Event.newPassed d (s.event a)).length := by
    rw [hH, History.after_passed, List.length_append]
  -- something is unsent
  have hqueue := congrArg List.length ((Queued.reach h).order d)
  rw [List.length_append, List.length_map, List.length_map] at hqueue
  have hmore : s.unsent d ≠ [] := by
    intro hnil
    rw [hnil, List.length_nil] at hqueue
    omega
  unfold drainRank Drained
  dsimp only
  rcases sender_progress (d := d) (f := SenderPc.toDrain) rfl rfl (Shape.reach (plain_reach h)) hm with
    ⟨hother, hnew, hrank⟩ | ⟨hown, σ, hstep⟩
  · rw [hnew, List.length_nil] at hpassed
    rw [hother, hrank, hpassed]
    exact .inr (Nat.zero_add _).le
  · rw [hown, Bool.toNat_true]
    rcases hstep.toDrain hin hmore with hgone | ⟨hone, hrank⟩ | ⟨hnone, hrank⟩
    · exact .inl (.inr hgone)
    · refine .inr ?_
      omega
    · rw [hnone, List.length_nil] at hpassed
      refine .inr ?_
      omega

omit [∀ p a, Decidable (G p a)] in
theorem drained_stays (hr : (relay C).Reach s) (hs : (observed C).step (s, H) a = some (s', H')) (h : Drained d k (s, H)) :
    Drained d k (s', H') := by
  obtain ⟨hm, hH⟩ := observed_moves hs
  dsimp only at hm hH
  refine h.imp (fun hk => ?_) fun hg => ?_
  · show k ≤ (H'.passed d).length
    rw [hH, History.after_passed, List.length_append]
    exact Nat.le_add_right_of_le hk
  · show (s'.sender d).gone = true
    rcases sender_progress (d := d) (f := SenderPc.gone) rfl rfl (Shape.reach hr) hm with
      ⟨-, -, hsame⟩ | ⟨-, σ, hstep⟩
    · rw [hsame]
      exact hg
    · exact hstep.gone.1 hg

/-- **A sender drains its buffer**, or leaves. -/
theorem drained_run (h : (observed C).ReachWhen G (s, H)) (hr : (observed C).runWhen G (s, H) as = some (s', H'))
    (hn : (s.unsent d).length + 5 ≤ (as.filter (Action.ofSender d)).length) :
    Drained d (H.appended d).length (s', H') := by
  have hqueue := congrArg List.length ((Queued.reach h).order d)
  rw [List.length_append, List.length_map, List.length_map] at hqueue
  have hprogress := Machine.runWhen_progress
    (I := fun p => (observed C).ReachWhen G p ∧ (H.appended d).length ≤ (p.2.appended d).length)
    (T := Drained d (H.appended d).length) (r := drainRank d (H.appended d).length) (m := Action.ofSender d) hr
    ⟨h, Nat.le_refl _⟩
    (fun p a p' hi hg hs => ⟨.step a hi.1 hg hs, by
      rw [(observed_moves hs).2, History.after_appended, List.length_append]
      exact Nat.le_add_right_of_le hi.2⟩)
    (fun p a p' hi hgoal _ hs => drained_stays (plain_reach hi.1) hs hgoal)
    (fun p a p' hi hno _ hs => drained_step hi.1 hi.2 hs hno)
  rcases hprogress with hdone | hcount
  · exact hdone
  · have hfar := SenderPc.toDrain_le (s.sender d)
    have hall : (H.appended d).length - (H'.passed d).length = 0 := by
      unfold drainRank at hcount
      dsimp only at hcount
      omega
    exact .inl (Nat.sub_eq_zero_iff_le.1 hall)

omit [∀ p a, Decidable (G p a)] in
/-- What was passed on is a beginning of what was appended. -/
theorem passed_begins (h : (observed C).ReachWhen G (s, H)) (d : ℕ) :
    (H.passed d).map Prod.fst <+: (H.appended d).map Entry.message := by
  rw [← (Queued.reach h).order d]
  exact List.prefix_append _ _

/-- **What is queued is soon passed on.** After as many steps of the sender of `d` as there are messages
unsent, and five more, everything that had been appended for `d` has been passed to `send_message`, in its
order; or the connection has ended and the sender has left. A sender that waits for a signal takes no
step. -/
theorem passed_on (h : (observed C).ReachWhen G (s, H)) (hr : (observed C).runWhen G (s, H) as = some (s', H'))
    (hn : (s.unsent d).length + 5 ≤ (as.filter (Action.ofSender d)).length) :
    (H.appended d).map Entry.message <+: (H'.passed d).map Prod.fst ∨
      (s'.device d).connectionState = .ended ∧ (s'.sender d).gone = true := by
  have hreach : (observed C).ReachWhen G (s', H') := Machine.ReachWhen.runWhen h hr
  rcases drained_run h hr hn with hdone | hgone
  · -- both are beginnings of what has been appended by now
    left
    have happended := (runWhen_recorded hr d).1.map Entry.message
    refine List.prefix_of_prefix_length_le happended (passed_begins hreach d) ?_
    rw [List.length_map, List.length_map]
    exact hdone
  · exact .inr ⟨gone_ended (plain_reach hreach) hgone, hgone⟩

/-! ### The receiver finishes its broadcast -/

/-- The broadcast that the receiver of `d` is in. -/
theorem casting_round (hround : Rounded s H) (hc : (s.receiver d).copied = true) :
    ∃ m set, (H.accepted d)[H.returned d]? = some m ∧ (H.snapshots d)[H.returned d]? = some set ∧
      (s.receiver d).toReturn ≤ 6 * set.card + 4 := by
  have hp := hround.progress d
  obtain ⟨m, hm⟩ : ∃ m, (s.receiver d).casting = some m := by
    cases hpc : s.receiver d <;> rw [hpc] at hc <;> cases hc <;> exact ⟨_, rfl⟩
  have hlen := hp.copiesLength
  rw [hc, Bool.toNat_true] at hlen
  obtain ⟨set, hset⟩ : ∃ set, (H.snapshots d)[H.returned d]? = some set := ⟨_, List.getElem?_eq_getElem (by omega)⟩
  refine ⟨m, set, hp.current m hm, hset, (s.receiver d).toReturn_le hp.tidy fun r hr => ?_⟩
  have hr := hp.remaining r hr
  rw [hset] at hr
  exact hr

/-- **A receiver finishes its broadcast.** -/
theorem returned_run (h : (observed C).ReachWhen G (s, H)) (hr : (observed C).runWhen G (s, H) as = some (s', H'))
    (hc : (s.receiver d).copied = true) (hn : (s.receiver d).toReturn < (as.filter (Action.ofReceiver d)).length) :
    H.returned d < H'.returned d := by
  let I : Server × History → Prop := fun p => (observed C).ReachWhen G p ∧
    (H.returned d < p.2.returned d ∨ p.2.returned d = H.returned d ∧ (p.1.receiver d).copied = true)
  have hstep : ∀ p a p', I p → G p a → (observed C).step p a = some p' → I p' := by
    rintro p a p' ⟨hreach, hi⟩ hg hs
    refine ⟨.step a hreach hg hs, ?_⟩
    rcases hi with hlt | ⟨heq, hcopied⟩
    · exact .inl (Nat.lt_of_lt_of_le hlt (returned_mono hs))
    · rcases cast_step (plain_reach hreach) hcopied hs with hret | ⟨hret, hcopied', -⟩
      · left
        omega
      · exact .inr ⟨hret.trans heq, hcopied'⟩
  have hprogress := Machine.runWhen_progress (I := I) (T := fun p => H.returned d < p.2.returned d)
    (r := fun p => (p.1.receiver d).toReturn) (m := Action.ofReceiver d) hr ⟨h, .inr ⟨rfl, hc⟩⟩ hstep
    (fun p a p' _ hlt _ hs => Nat.lt_of_lt_of_le hlt (returned_mono hs)) (by
      rintro p a p' ⟨hreach, hi⟩ hno hg hs
      obtain ⟨heq, hcopied⟩ := hi.resolve_left hno
      rcases cast_step (plain_reach hreach) hcopied hs with hret | ⟨-, -, hrank⟩
      · left
        omega
      · exact .inr hrank.le)
  rcases hprogress with hdone | hcount
  · exact hdone
  · dsimp only at hcount
    omega

omit [∀ p a, Decidable (G p a)] in
/-- A broadcast that has returned is in the buffers of all devices of its copy. -/
theorem Rounded.delivered (h : Rounded s H) {m : NetworkMessage} {set : Finset ℕ} {r : ℕ} (hk : k < H.returned d)
    (hm : (H.accepted d)[k]? = some m) (hset : (H.snapshots d)[k]? = some set) (hr : r ∈ set) :
    (⟨m, some (d, k)⟩ : Entry) ∈ H.appended r := by
  have hp := h.progress d
  obtain ⟨hlt, -⟩ := List.getElem?_eq_some_iff.1 hset
  have hnum : k ∈ H.numbersFrom d r := by
    rw [hp.reaches r]
    refine mem_reached.2 ⟨hlt, ?_, fun he => by omega⟩
    rw [hset]
    exact hr
  obtain ⟨x, hx, hn⟩ := List.mem_filterMap.1 hnum
  -- the entry with this number holds the message of the round
  have ho := numberFrom_eq_some.1 hn
  have hmx := h.message r x d k hx ho
  rw [hm] at hmx
  obtain ⟨xm, xo⟩ := x
  dsimp only at ho hmx
  rw [ho, ← Option.some.inj hmx] at hx
  exact hx

/-- **How soon a broadcast reaches its recipients.** Whatever the other threads do: when the receiver of
`d` is in a broadcast, and `set` is its copy of the registry, then after `6 * |set| + 5` of its steps the
broadcast has returned, with the message appended to the buffers of all of `set`; and for each of them the
message is passed to `send_message` after as many steps of that device's sender as there are messages
unsent then, and five more, unless that connection has ended and its sender has left. -/
theorem relayed (h : (observed C).ReachWhen G (s, H)) (hc : (s.receiver d).copied = true)
    (hr : (observed C).runWhen G (s, H) as = some (s', H')) :
    ∃ (m : NetworkMessage) (set : Finset ℕ),
      (H.accepted d)[H.returned d]? = some m ∧ (H.snapshots d)[H.returned d]? = some set ∧
      (6 * set.card + 5 ≤ (as.filter (Action.ofReceiver d)).length →
        H.returned d < H'.returned d ∧ ∀ r ∈ set, ∃ i : ℕ,
          (H'.appended r)[i]? = some ⟨m, some (d, H.returned d)⟩ ∧
          ∀ bs s'' H'', (observed C).runWhen G (s', H') bs = some (s'', H'') →
            (s'.unsent r).length + 5 ≤ (bs.filter (Action.ofSender r)).length →
              (H''.passed r)[i]?.map Prod.fst = some m ∨
                (s''.device r).connectionState = .ended ∧ (s''.sender r).gone = true) := by
  obtain ⟨m, set, hm, hset, hfar⟩ := casting_round (Rounded.reach h) hc
  refine ⟨m, set, hm, hset, fun hn => ?_⟩
  have hreach : (observed C).ReachWhen G (s', H') := Machine.ReachWhen.runWhen h hr
  have hret := returned_run h hr hc (by omega)
  refine ⟨hret, fun r hin => ?_⟩
  obtain ⟨-, hacc, hsnap⟩ := runWhen_recorded hr d
  have hm' := getElem?_of_begins hacc hm
  have hset' := getElem?_of_begins hsnap hset
  obtain ⟨i, hi⟩ := List.mem_iff_getElem?.1 ((Rounded.reach hreach).delivered hret hm' hset' hin)
  refine ⟨i, hi, fun bs s'' H'' hr' hn' => ?_⟩
  have hreach' : (observed C).ReachWhen G (s'', H'') := Machine.ReachWhen.runWhen hreach hr'
  rcases drained_run hreach hr' hn' with hdone | hgone
  · left
    -- the message is at the same place among those passed on as among those appended
    obtain ⟨hlt, -⟩ := List.getElem?_eq_some_iff.1 hi
    have hentry := getElem?_of_begins (runWhen_recorded hr' r).1 hi
    have hpassed : i < ((H''.passed r).map Prod.fst).length := by
      have hdone : (H'.appended r).length ≤ (H''.passed r).length := hdone
      rw [List.length_map]
      omega
    have hsame := getElem?_of_begins (passed_begins hreach' r) (List.getElem?_eq_getElem hpassed)
    rw [List.getElem?_map, hentry] at hsame
    rw [← List.getElem?_map, List.getElem?_eq_getElem hpassed]
    exact hsame.symm
  · exact .inr ⟨gone_ended (plain_reach hreach') hgone, hgone⟩

/-- Device 0 has joined, and its receiver has broadcast a message to it. -/
def broadcastSelf : List Action := List.flatten
  [[.accept 4, .create true 0 0], .replicate 3 (.handler 0 {}), .replicate 3 (.sender 0 {}),
    .replicate 3 (.receiver 0 {}), [.receiver 0 { read := some zeroFrame }], .replicate 18 (.receiver 0 {})]

theorem passed_on_broadcastSelf : ∃ s s' H H', (observed Crypto.zero).ReachWhen (fun p => TouchesLive p.1) (s, H) ∧
    (observed Crypto.zero).runWhen (fun p => TouchesLive p.1) (s, H)
      (.replicate 6 (.sender 0 { results := [some 48] })) = some (s', H') ∧
    (H.appended 0).length = 1 ∧ (H.appended 0).map Entry.message <+: (H'.passed 0).map Prod.fst := by
  have hrun : ((observed Crypto.zero).runWhen (fun p => TouchesLive p.1) (Server.fresh, .empty) broadcastSelf).any
      (fun p => (p.2.appended 0).length = 1 ∧ (p.1.unsent 0).length = 1 ∧
        ((observed Crypto.zero).runWhen (fun p => TouchesLive p.1) p
          (.replicate 6 (.sender 0 { results := [some 48] }))).any
            fun p' => (p'.1.device 0).connectionState = .working) = true := by
    decide +kernel
  obtain ⟨⟨s, H⟩, hr, hs⟩ := Machine.exists_reachWhen (observed_init _ Server.fresh_starts) hrun
  obtain ⟨hone, hunsent, hmore⟩ := of_decide_eq_true hs
  obtain ⟨⟨s', H'⟩, hr', hworking⟩ := (Option.any_eq_true _ _).1 hmore
  have hworking : (s'.device 0).connectionState = .working := of_decide_eq_true hworking
  have hpassed := passed_on hr hr' (d := 0) (by rw [hunsent]; decide)
  refine ⟨s, s', H, H', hr, hr', hone, hpassed.resolve_right ?_⟩
  rw [hworking]
  rintro ⟨hended, -⟩
  cases hended

theorem relayed_broadcastSelf : ∃ s s' s'' H H' H'' m, ∃ i : ℕ,
    (observed Crypto.zero).ReachWhen (fun p => TouchesLive p.1) (s, H) ∧ (H.accepted 0)[0]? = some m ∧
    (observed Crypto.zero).runWhen (fun p => TouchesLive p.1) (s, H) (.replicate 11 (.receiver 0 {})) = some (s', H') ∧
    (observed Crypto.zero).runWhen (fun p => TouchesLive p.1) (s', H')
      (.replicate 6 (.sender 0 { results := [some 48] })) = some (s'', H'') ∧
    (H''.passed 0)[i]?.map Prod.fst = some m := by
  have hrun : ((observed Crypto.zero).runWhen (fun p => TouchesLive p.1) (Server.fresh, .empty)
      (broadcastSelf.take 22)).any (fun p => (p.1.receiver 0).copied ∧ p.2.snapshots 0 = [{0}] ∧ p.2.returned 0 = 0 ∧
        ((observed Crypto.zero).runWhen (fun p => TouchesLive p.1) p (.replicate 11 (.receiver 0 {}))).any
          fun p' => (p'.1.unsent 0).length = 1 ∧
            ((observed Crypto.zero).runWhen (fun p => TouchesLive p.1) p'
              (.replicate 6 (.sender 0 { results := [some 48] }))).any
                fun p'' => (p''.1.device 0).connectionState = .working) = true := by
    decide +kernel
  obtain ⟨⟨s, H⟩, hr, hs⟩ := Machine.exists_reachWhen (observed_init _ Server.fresh_starts) hrun
  obtain ⟨hcopied, hsnap, hret, hmore⟩ := of_decide_eq_true hs
  obtain ⟨⟨s', H'⟩, hr', hs'⟩ := (Option.any_eq_true _ _).1 hmore
  obtain ⟨hunsent, hmore'⟩ := of_decide_eq_true hs'
  obtain ⟨⟨s'', H''⟩, hr'', hworking⟩ := (Option.any_eq_true _ _).1 hmore'
  have hworking : (s''.device 0).connectionState = .working := of_decide_eq_true hworking
  obtain ⟨m, set, hm, hset, hfinish⟩ := relayed hr hcopied hr'
  dsimp only at hsnap hret hunsent
  rw [hret] at hm hset
  rw [hsnap] at hset
  cases hset
  obtain ⟨-, hall⟩ := hfinish (by decide)
  obtain ⟨i, -, hpassed⟩ := hall 0 (Finset.mem_singleton_self 0)
  refine ⟨s, s', s'', H, H', H'', m, i, hr, hm, hr', hr'', (hpassed _ s'' H'' hr'' ?_).resolve_right ?_⟩
  · rw [hunsent]
    decide
  · rw [hworking]
    rintro ⟨hended, -⟩
    cases hended

end Runs

end ServerRoom.Relay
