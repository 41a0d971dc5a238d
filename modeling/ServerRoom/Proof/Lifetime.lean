import ServerRoom.Proof.References

/-!
# When a device is deleted

* `Retired`: when a device has been deleted, its handler and its receiver are done, and no
  broadcast has a reference to it.
* `recipients_alive`: a broadcast touches no deleted recipient as long as no `release` takes
  a device's last reference while a broadcast is in its critical section.
* `outlives_threads`: a device is deleted once, after all its threads, as long as no
  `release` takes its last reference before its sender thread has taken one.

Both conditions can fail: `recipient_deleted` and `sender_left_behind` are runs in which
they do.
-/

namespace ServerRoom.Relay

open Sharing

variable {C : Crypto} {s s' : Server} {a : Action} {ev : Option Event} {t : Thread} {σ : Stmt}

/-- When a device has been deleted, only its sender can still hold or take a reference. -/
structure RetiredAt (s : Server) (d : ℕ) : Prop where
  handler : s.handler d = .done
  receiver : s.receiver d = .done
  current : ∀ x, d ∉ (s.receiver x).current

/-- **Deleted devices are retired.** -/
def Retired (s : Server) : Prop := ∀ d, 0 < (s.device d).deletes → RetiredAt s d

theorem Retired.starts (h : s.Starts) : Retired s := by
  intro d hd
  rw [(h.device d).2.2.2.2] at hd
  exact absurd hd (Nat.lt_irrefl 0)

/-- Without references, the threads of a device are not between `acquire` and `release`. -/
theorem holds_of_references (hsh : Shape s) {d : ℕ} (h : s.references d = 0) :
    (s.handler d).holds = false ∧ (s.sender d).holds = false ∧ (s.receiver d).holds = false ∧
      ∀ x, d ∉ (s.receiver x).current := by
  unfold Server.references at h
  have hx : ∀ x, s.refs d (.receiver x) = 0 := by
    intro x
    by_cases hlt : x < s.created
    · have hsum := Finset.add_sum_erase _ (fun x => s.refs d (.receiver x)) (Finset.mem_range.2 hlt)
      omega
    · obtain ⟨-, hr⟩ := hsh.absent (Nat.le_of_not_lt hlt)
      have hst := fits_absent (by rw [← hr]; exact hsh.fits x)
      simp [Server.refs, hr, hst, ReceiverPc.ownRefs, ReceiverPc.holds, ReceiverPc.current]
  have h1 : s.refs d (.handler d) = 0 := by omega
  have h2 : s.refs d (.sender d) = 0 := by omega
  have h3 := hx d
  simp only [Server.refs, if_true, ReceiverPc.ownRefs] at h1 h2 h3
  refine ⟨?_, ?_, ?_, fun x hmem => ?_⟩
  · cases hb : (s.handler d).holds <;> simp_all
  · cases hb : (s.sender d).holds <;> simp_all
  · cases hb : (s.receiver d).holds <;> simp_all
  · have hxx := hx x
    simp only [Server.refs] at hxx
    exact List.count_pos_iff.2 hmem |>.ne' (by omega)

/-- A handler that holds nothing and has started is done. -/
theorem HandlerPc.done_of_holds {p : HandlerPc} (h : p.holds = false) :
    p = .absent ∨ p = .acquire ∨ p = .done := by
  cases p <;> simp_all [HandlerPc.holds]

theorem SenderPc.done_of_holds {p : SenderPc} (h : p.holds = false) :
    p = .absent ∨ p = .acquire ∨ p = .done := by
  cases p <;> simp_all [SenderPc.holds]

/-- In an ended connection, a receiver that holds nothing is done. -/
theorem ReceiverPc.done_of_holds {p : ReceiverPc} (h : p.holds = false) (hf : p.fits .ended = true) :
    p = .done := by
  cases p <;> simp_all [ReceiverPc.holds, ReceiverPc.fits]

/-- A step of a handler does not lead back to its start. -/
theorem HandlerPc.Step.started {d : ℕ} {st : ConnectionState} {p p' : HandlerPc} (h : p.Step C d st σ ev p') :
    p' ≠ .absent ∧ p' ≠ .acquire := by
  cases h <;> simp

/-- A broadcast gets a new reference only to a device that it is copying. -/
theorem ReceiverPc.Step.current {d : ℕ} {data : DeviceData} {network : UInt32 → Finset ℕ} {p p' : ReceiverPc}
    (h : p.Step C d data network σ ev p') {r : ℕ} (hr : r ∈ p'.current) :
    r ∈ p.current ∨ ∃ m todo current, p = .castCopy m todo current ∧ r ∈ todo := by
  cases h <;> simp only [ReceiverPc.current, List.not_mem_nil] at hr ⊢
  case castPick m todo current x hx =>
    rcases List.mem_append.1 hr with hr | hr
    · exact Or.inl hr
    · exact Or.inr ⟨m, todo, current, rfl, by rw [List.mem_singleton.1 hr]; exact hx⟩
  case castRelease m x rest => exact Or.inl (List.mem_cons_of_mem _ hr)
  all_goals exact Or.inl hr

/-- Deletions after a step of a thread. -/
theorem ThreadStep.deletes (h : ThreadStep s t σ s') (d : ℕ) : (s'.device d).deletes =
    if σ.released d = 1 ∧ (s.device d).memoryPointers = 1 then (s.device d).deletes + 1
    else (s.device d).deletes := by
  have h1 : (s.device d).memoryPointers - 1 = 0 ↔ (s.device d).memoryPointers = 1 := by omega
  rw [h.device, onDevice_deletes]
  simp only [h1]

/-- Everything that is known of the states of all runs. -/
structure Invariants (s : Server) : Prop where
  shape : Shape s
  known : Known s
  mutexes : Mutexes s
  counted : Counted s
  listed : Listed s
  copying : Copying s

theorem Invariants.reach {G : Server → Action → Prop} (h : (relay C).ReachWhen G s) : Invariants s :=
  ⟨Shape.reach h, Known.reach h, Mutexes.reach h, Counted.reach h, Listed.reach h, Copying.reach h⟩

/-- After the last release there is no reference. -/
theorem ThreadStep.references_last (hts : ThreadStep s t σ s') (hc : Counted s') {d : ℕ}
    (hrel : σ.released d = 1) (hone : (s.device d).memoryPointers = 1) : s'.references d = 0 := by
  have hcount := hc d
  rw [hts.device, onDevice_memoryPointers, hone, hrel, acquired_of_released hrel] at hcount
  omega

/-- **The last release retires the device.** -/
theorem retired_of_release (h : Invariants s) (h' : Invariants s') (hts : ThreadStep s t σ s') {d : ℕ}
    (hrel : σ.released d = 1) (hone : (s.device d).memoryPointers = 1)
    (hh : s'.handler d = s.handler d ∨ s'.handler d ≠ .absent ∧ s'.handler d ≠ .acquire) : RetiredAt s' d := by
  have hzero := hts.references_last h'.counted hrel hone
  obtain ⟨hhold, -, hrecv, hcur⟩ := holds_of_references h'.shape hzero
  have hpos := hts.refs_pos hrel
  have hdone : s'.handler d = .done := by
    rcases HandlerPc.done_of_holds hhold with h1 | h1 | h1
    · -- whoever released the device had a reference to it, so its handler had started
      rcases hh with hh | hh
      · have hz := refs_eq_zero h.shape h.known (Or.inl (hh.symm.trans h1)) t
        omega
      · exact absurd h1 hh.1
    · rcases hh with hh | hh
      · have hz := refs_eq_zero h.shape h.known (Or.inr (hh.symm.trans h1)) t
        omega
      · exact absurd h1 hh.2
    · exact h1
  have hended := h'.shape.left d (by rw [hdone]; rfl)
  exact ⟨hdone, ReceiverPc.done_of_holds hrecv (by rw [← hended]; exact h'.shape.fits d), hcur⟩

/-- A retired device stays retired: its threads have no steps, and nobody finds it. -/
theorem RetiredAt.step (h : RetiredAt s d) (hi : Invariants s) (hm : s.Moves C a ev s') : RetiredAt s' d := by
  have hended := hi.shape.left d (by rw [h.handler]; rfl)
  -- it is not in the registry
  have hnot : ∀ n, d ∉ s.networkDevices n := by
    intro n hn
    have hw := (hi.listed n d hn).working
    rw [hended] at hw
    cases hw
  cases hm with
  | accept fd hfd => exact ⟨h.handler, h.receiver, h.current⟩
  | create fd launched networkId last hm =>
    have hne : d ≠ s.created := by
      rintro rfl
      have := hi.shape.handler _ (Nat.le_refl s.created)
      rw [h.handler] at this
      cases this
    exact ⟨by rw [hm.handler, if_neg hne]; exact h.handler, by rw [hm.receiver]; exact h.receiver,
      fun x => by rw [hm.receiver]; exact h.current x⟩
  | @handler x e σ ev p s' hm =>
    have hne : d ≠ x := by
      rintro rfl
      have hstep := hm.step
      rw [h.handler] at hstep
      cases hstep
    refine ⟨by rw [hm.handler, if_neg hne]; exact h.handler, ?_, fun y => ?_⟩
    · rw [hm.receiver_same hi.shape (by rw [h.receiver]; simp)]
      exact h.receiver
    · rcases hm.receiver_or hi.shape y with hy | ⟨hy, -⟩ <;> rw [hy]
      · exact h.current y
      · simp [ReceiverPc.current]
  | sender x e hm =>
    exact ⟨by rw [hm.handler]; exact h.handler, by rw [hm.receiver]; exact h.receiver,
      fun y => by rw [hm.receiver]; exact h.current y⟩
  | @receiver x e σ ev p s' hm =>
    have hne : d ≠ x := by
      rintro rfl
      have hstep := hm.step
      rw [h.receiver] at hstep
      cases hstep
    refine ⟨by rw [hm.handler]; exact h.handler, by rw [hm.receiver, if_neg hne]; exact h.receiver, fun y => ?_⟩
    rw [hm.receiver]
    split
    · intro hmem
      rcases hm.step.current hmem with hmem | ⟨m, todo, current, hp, hmem⟩
      · exact h.current x hmem
      · exact hnot _ (hi.copying x m todo current hp hmem)
    · exact h.current y
  | wake x hw => exact ⟨h.handler, h.receiver, h.current⟩

/-- The device that the next step of a receiver releases. -/
def ReceiverPc.releases (d : ℕ) : ReceiverPc → Option ℕ
  | .castRelease _ r _ => some r
  | .removeRelease | .release => some d
  | _ => none

/-- The device that a step releases. -/
def Server.releases (s : Server) : Action → Option ℕ
  | .handler d _ => if s.handler d = .release then some d else none
  | .sender d _ => if s.sender d = .release then some d else none
  | .receiver d _ => (s.receiver d).releases d
  | _ => none

/-- The step takes the last reference of `d`. -/
def Server.ReleasesLast (s : Server) (a : Action) (d : ℕ) : Prop :=
  s.releases a = some d ∧ (s.device d).memoryPointers = 1

theorem HandlerPc.Step.releases {d : ℕ} {st : ConnectionState} {p p' : HandlerPc} (h : p.Step C d st σ ev p')
    (x : ℕ) : σ.released x = 1 ↔ (if p = .release then some d else none) = some x := by
  cases h <;> simp [Stmt.released]

theorem SenderPc.Step.releases {d : ℕ} {data : DeviceData} {p p' : SenderPc} (h : p.Step d data σ ev p')
    (x : ℕ) : σ.released x = 1 ↔ (if p = .release then some d else none) = some x := by
  cases h <;> simp [Stmt.released]

theorem ReceiverPc.Step.releases {d : ℕ} {data : DeviceData} {network : UInt32 → Finset ℕ} {p p' : ReceiverPc}
    (h : p.Step C d data network σ ev p') (x : ℕ) : σ.released x = 1 ↔ p.releases d = some x := by
  cases h <;> simp [Stmt.released, ReceiverPc.releases]

/-- **Deletions after any step**: a last release adds one, nothing else does. -/
theorem deletes_step (hi : Invariants s) (hm : s.Moves C a ev s') (d : ℕ) :
    (s.ReleasesLast a d ∧ (s'.device d).deletes = (s.device d).deletes + 1 ∧
        ∃ t σ, ThreadStep s t σ s' ∧ σ.released d = 1) ∨
      ¬ s.ReleasesLast a d ∧
        ((s'.device d).deletes = (s.device d).deletes ∨ (s'.device d).deletes = 0 ∧ d = s.created) := by
  have hthread : ∀ t σ, ThreadStep s t σ s' → (σ.released d = 1 ↔ s.releases a = some d) →
      (s.ReleasesLast a d ∧ (s'.device d).deletes = (s.device d).deletes + 1 ∧
        ∃ t σ, ThreadStep s t σ s' ∧ σ.released d = 1) ∨
      ¬ s.ReleasesLast a d ∧
        ((s'.device d).deletes = (s.device d).deletes ∨ (s'.device d).deletes = 0 ∧ d = s.created) := by
    intro t σ hts hrel
    have hd := hts.deletes d
    split at hd
    · rename_i hr
      exact Or.inl ⟨⟨hrel.1 hr.1, hr.2⟩, hd, t, σ, hts, hr.1⟩
    · rename_i hr
      exact Or.inr ⟨fun hl => hr ⟨hrel.2 hl.1, hl.2⟩, Or.inl hd⟩
  cases hm with
  | accept fd hfd => exact Or.inr ⟨fun hl => (nomatch hl.1), Or.inl rfl⟩
  | create fd launched networkId last hm =>
    refine Or.inr ⟨fun hl => (nomatch hl.1), ?_⟩
    rw [hm.device]
    split
    · rename_i hd; exact Or.inr ⟨rfl, hd⟩
    · exact Or.inl rfl
  | handler x e hm => exact hthread _ _ (ThreadStep.of_handler hi.shape hm) (hm.step.releases d)
  | sender x e hm => exact hthread _ _ (ThreadStep.of_sender hm) (hm.step.releases d)
  | receiver x e hm => exact hthread _ _ (ThreadStep.of_receiver hi.shape hm) (hm.step.releases d)
  | wake x hw => exact Or.inr ⟨fun hl => (nomatch hl.1), Or.inl rfl⟩

/-- A step leads no handler back to its start, except for a new device. -/
theorem handler_started (hm : s.Moves C a ev s') (hts : ThreadStep s t σ s') (d : ℕ) :
    s'.handler d = s.handler d ∨ s'.handler d ≠ .absent ∧ s'.handler d ≠ .acquire := by
  cases hm with
  | accept fd hfd => exact Or.inl rfl
  | create fd launched networkId last hm =>
    have h1 := hm.created
    have h2 := hts.created
    omega
  | handler x e hm =>
    rw [hm.handler]
    split
    · exact Or.inr hm.step.started
    · exact Or.inl rfl
  | sender x e hm => exact Or.inl (hm.handler d)
  | receiver x e hm => exact Or.inl (hm.handler d)
  | wake x hw => exact Or.inl rfl

theorem Retired.step (h : Retired s) (hi : Invariants s) (hi' : Invariants s') (hm : s.Moves C a ev s') :
    Retired s' := by
  intro d hd
  rcases deletes_step hi hm d with ⟨hl, -, t, σ, hts, hrel⟩ | ⟨-, he | ⟨he, -⟩⟩
  · exact retired_of_release hi hi' hts hrel hl.2 (handler_started hm hts d)
  · exact (h d (he ▸ hd)).step hi hm
  · omega

theorem Retired.reach {G : Server → Action → Prop} (h : (relay C).ReachWhen G s) : Retired s := by
  induction h with
  | init hi => exact Retired.starts hi
  | step a hr hg hs ih => exact ih.step (.reach hr) (.reach (.step a hr hg hs)) (Server.step_moves hs)

/-! ## Broadcasts and their recipients -/

/-- A broadcast is in the critical section of recipient `r`. -/
def ReceiverPc.InSection (r : ℕ) : ReceiverPc → Prop
  | .castPush _ x _ | .castRelease _ x _ | .castSignal _ x _ | .castUnlock _ x _ => x = r
  | _ => False

/-- The next step of a broadcast accesses recipient `r`: it locks its mutex, appends to its
buffer, releases it, signals its condition or unlocks its mutex. -/
def ReceiverPc.Accesses (r : ℕ) : ReceiverPc → Prop
  | .castNext _ (x :: _) => x = r
  | .castPush _ x _ | .castRelease _ x _ | .castSignal _ x _ | .castUnlock _ x _ => x = r
  | _ => False

/-- **No broadcast is about to touch a deleted recipient.** -/
def RecipientsAlive (s : Server) : Prop :=
  ∀ x r, (s.receiver x).Accesses r → (s.device r).deletes = 0

/-- The step takes no device's last reference while a broadcast is in its section. -/
def KeepsRecipients (s : Server) (a : Action) : Prop :=
  ∀ r, s.ReleasesLast a r → ∀ x, ¬ (s.receiver x).InSection r

/-- A broadcast still has its reference, or it has released the recipient and is about to
signal it or to unlock it. -/
theorem ReceiverPc.Accesses.cases {p : ReceiverPc} {r : ℕ} (h : p.Accesses r) :
    r ∈ p.current ∨ (∃ m rest, p = .castSignal m r rest) ∨ ∃ m rest, p = .castUnlock m r rest := by
  cases p <;> simp only [ReceiverPc.Accesses] at h
  case castNext m rest =>
    cases rest <;> simp_all [ReceiverPc.current]
  all_goals subst h; simp [ReceiverPc.current]

theorem RecipientsAlive.starts (h : s.Starts) : RecipientsAlive s := by
  intro x r _
  exact (h.device r).2.2.2.2

/-- Where a receiver was before it came to access `r` without a reference. -/
theorem ReceiverPc.Step.accesses {d : ℕ} {data : DeviceData} {network : UInt32 → Finset ℕ} {p p' : ReceiverPc}
    (h : p.Step C d data network σ ev p') {r : ℕ} (hr : p'.Accesses r) :
    r ∈ p'.current ∨ p.Accesses r ∧ p.InSection r := by
  cases h <;> simp only [ReceiverPc.Accesses] at hr
  case castCopied m current =>
    cases current <;> simp_all [ReceiverPc.current]
  case castUnlock m x rest =>
    cases rest <;> simp_all [ReceiverPc.current]
  all_goals subst hr; simp [ReceiverPc.current, ReceiverPc.Accesses, ReceiverPc.InSection]

theorem RecipientsAlive.step (h : RecipientsAlive s) (hi : Invariants s) (hr' : Retired s')
    (hg : KeepsRecipients s a) (hm : s.Moves C a ev s') : RecipientsAlive s' := by
  intro x r hacc
  rcases Nat.eq_zero_or_pos (s'.device r).deletes with h0 | hpos
  · exact h0
  -- the recipient is deleted: the broadcast has no reference to it any more
  have hret := (hr' r hpos).current x
  have hold : (s.receiver x).Accesses r ∧ (s.receiver x).InSection r := by
    have hsame : s'.receiver x = s.receiver x → (s.receiver x).Accesses r ∧ (s.receiver x).InSection r := by
      intro he
      rw [he] at hacc hret
      refine ⟨hacc, ?_⟩
      rcases hacc.cases with hc | ⟨m, rest, hp⟩ | ⟨m, rest, hp⟩
      · exact absurd hc hret
      · rw [hp]; rfl
      · rw [hp]; rfl
    cases hm with
    | accept fd hfd => exact hsame rfl
    | create fd launched networkId last hm => exact hsame (hm.receiver x)
    | handler d e hm =>
      rcases hm.receiver_or hi.shape x with hx | ⟨hx, -⟩
      · exact hsame hx
      · rw [hx] at hacc
        exact hacc.elim
    | sender d e hm => exact hsame (hm.receiver x)
    | receiver d e hm =>
      by_cases hxd : x = d
      · subst hxd
        rw [hm.receiver, if_pos rfl] at hacc hret
        rcases hm.step.accesses hacc with hc | hc
        · exact absurd hc hret
        · exact hc
      · exact hsame (by rw [hm.receiver, if_neg hxd])
    | wake d hw => exact hsame rfl
  have hzero := h x r hold.1
  rcases deletes_step hi hm r with ⟨hl, -⟩ | ⟨-, he | ⟨he, -⟩⟩
  · exact absurd hold.2 (hg r hl x)
  · omega
  · omega

/-- A release inside its own section leads to the next access. -/
theorem ReceiverPc.Step.stays {d : ℕ} {data : DeviceData} {network : UInt32 → Finset ℕ} {p p' : ReceiverPc}
    (h : p.Step C d data network σ ev p') {r : ℕ} (hr : p.releases d = some r) {x : ℕ} (hin : p.InSection x) :
    p'.Accesses x := by
  cases h <;> simp_all [ReceiverPc.releases, ReceiverPc.InSection, ReceiverPc.Accesses]

theorem ReceiverPc.InSection.accesses {p : ReceiverPc} {r : ℕ} (h : p.InSection r) : p.Accesses r := by
  cases p <;> simp_all [ReceiverPc.InSection, ReceiverPc.Accesses]

/-- A broadcast that is about to access a device still is after somebody's release. -/
theorem accesses_of_section (hsh : Shape s) (hm : s.Moves C a ev s') {x r d : ℕ} (hr : s.releases a = some d)
    (hin : (s.receiver x).InSection r) : (s'.receiver x).Accesses r := by
  cases hm with
  | accept fd hfd => cases hr
  | create fd launched networkId last hm => cases hr
  | handler y e hm =>
    rw [hm.receiver_same hsh fun habs => by rw [habs] at hin; cases hin]
    exact hin.accesses
  | sender y e hm =>
    rw [hm.receiver]
    exact hin.accesses
  | receiver y e hm =>
    rw [hm.receiver]
    split
    · rename_i hxy
      subst hxy
      exact hm.step.stays hr hin
    · exact hin.accesses
  | wake y hw => cases hr

/-- **Recipients are alive exactly as long as `KeepsRecipients` holds.** In every run whose
steps keep the recipients, no broadcast touches a deleted one; and a step that does not
keep them, in any run, leads to a state in which a broadcast is about to. -/
theorem recipients_alive (C : Crypto) :
    (∀ s, (relay C).ReachWhen KeepsRecipients s → RecipientsAlive s) ∧
      ∀ s a s', (relay C).Reach s → (relay C).step s a = some s' → ¬ KeepsRecipients s a →
        ¬ RecipientsAlive s' := by
  constructor
  · intro s h
    induction h with
    | init hi => exact RecipientsAlive.starts hi
    | step a hr hg hs ih =>
      exact ih.step (.reach hr) (Retired.reach (.step a hr hg hs)) hg (Server.step_moves hs)
  · intro s a s' hr hs hbad hok
    simp only [KeepsRecipients, not_forall, not_not] at hbad
    obtain ⟨r, hl, x, hin⟩ := hbad
    have hm := Server.step_moves hs
    have hacc : (s'.receiver x).Accesses r := accesses_of_section (.reach hr) hm hl.1 hin
    have hd := hok x r hacc
    rcases deletes_step (.reach hr) hm r with ⟨-, he, -⟩ | ⟨hno, -⟩
    · omega
    · exact hno hl

/-! ## A device and its own threads -/

/-- The handler has created the sender and goes on. -/
def HandlerPc.hasSender : HandlerPc → Bool
  | .absent | .acquire | .createSender | .failed => false
  | _ => true

/-- Past `pthread_create` there is a sender. -/
def SenderThere (s : Server) : Prop := ∀ d, (s.handler d).hasSender = true → s.sender d ≠ .absent

theorem HandlerPc.Step.hasSender {d : ℕ} {st : ConnectionState} {p p' : HandlerPc} (h : p.Step C d st σ ev p')
    (hp : p'.hasSender = true) : p.hasSender = true ∨ σ = .createSender d := by
  cases h <;> simp_all [HandlerPc.hasSender]

theorem SenderPc.Step.there {d : ℕ} {data : DeviceData} {p p' : SenderPc} (h : p.Step d data σ ev p') :
    p' ≠ .absent ∧ p' ≠ .acquire := by
  cases h <;> simp

theorem onSender_ne {d : ℕ} {p : SenderPc} (h : p ≠ .absent) : σ.onSender d p ≠ .absent := by
  cases σ <;> simp only [Stmt.onSender] <;> (try split) <;> simp_all

theorem SenderThere.step (h : SenderThere s) (hm : s.Moves C a ev s') : SenderThere s' := by
  intro d hd
  cases hm with
  | accept fd hfd => exact h d hd
  | create fd launched networkId last hm =>
    rw [hm.handler] at hd
    rw [hm.sender]
    split at hd
    · rcases hm.start with hp | hp <;> rw [hp] at hd <;> cases hd
    · exact h d hd
  | @handler x e σ ev p s' hm =>
    rw [hm.handler] at hd
    rw [hm.sender]
    split at hd
    · rename_i hdx
      subst hdx
      rcases hm.step.hasSender hd with hold | hσ
      · exact onSender_ne (h d hold)
      · rw [hσ]; simp [Stmt.onSender]
    · exact onSender_ne (h d hd)
  | sender x e hm =>
    rw [hm.handler] at hd
    rw [hm.sender]
    split
    · exact hm.step.there.1
    · exact h d hd
  | receiver x e hm =>
    rw [hm.handler] at hd
    rw [hm.sender]
    exact onSender_ne (h d hd)
  | wake x hw =>
    show Function.update s.sender x .woken d ≠ _
    rw [Function.update_apply]
    split
    · simp
    · exact h d hd

theorem SenderThere.reach {G : Server → Action → Prop} (h : (relay C).ReachWhen G s) : SenderThere s :=
  h.induct (fun s hi d hd => by rw [hi.handler] at hd; cases hd) fun _ _ _ _ hi _ hs =>
    hi.step (Server.step_moves hs)

/-- **A device outlives its own threads**: once it is deleted they are all done, it was
closed and deleted once, and no release finds the count at zero. -/
def OutlivesThreads (s : Server) : Prop :=
  (∀ d, 0 < (s.device d).deletes → s.handler d = .done ∧ s.sender d = .done ∧ s.receiver d = .done ∧
    (s.device d).deletes = 1) ∧
  ∀ a d, s.releases a = some d → 0 < (s.device d).memoryPointers

/-- The step takes no device's last reference while its sender was created and has not taken
one. -/
def KeepsSender (s : Server) (a : Action) : Prop :=
  ∀ d, s.ReleasesLast a d → s.sender d ≠ .acquire

/-- **A release finds its own reference in the count.** -/
theorem memoryPointers_pos (h : Invariants s) {d : ℕ} (hr : s.releases a = some d) :
    0 < (s.device d).memoryPointers := by
  rw [h.counted d]
  have hpos : 0 < s.references d := by
    by_contra h0
    obtain ⟨h1, h2, h3, h4⟩ := holds_of_references h.shape (Nat.eq_zero_of_not_pos h0)
    cases a with
    | accept fd => exact nomatch hr
    | create launched networkId last => exact nomatch hr
    | wake x => exact nomatch hr
    | handler x e =>
      simp only [Server.releases, Option.ite_none_right_eq_some, Option.some.injEq] at hr
      obtain ⟨hp, rfl⟩ := hr
      rw [hp] at h1
      cases h1
    | sender x e =>
      simp only [Server.releases, Option.ite_none_right_eq_some, Option.some.injEq] at hr
      obtain ⟨hp, rfl⟩ := hr
      rw [hp] at h2
      cases h2
    | receiver x e =>
      have hx := h4 x
      simp only [Server.releases] at hr
      generalize hp : s.receiver x = p at hr hx
      cases p <;> simp only [ReceiverPc.releases, Option.some.injEq, reduceCtorEq] at hr <;> subst hr
      case castRelease m r rest => exact hx (by simp [ReceiverPc.current])
      case removeRelease => rw [hp] at h3; cases h3
      case release => rw [hp] at h3; cases h3
  omega

/-- After the last release the sender is done, unless it has not started. -/
theorem sender_done_of_release (h' : Invariants s') (hth' : SenderThere s') (hts : ThreadStep s t σ s') {d : ℕ}
    (hrel : σ.released d = 1) (hone : (s.device d).memoryPointers = 1) (hret : RetiredAt s' d) :
    s'.sender d = .done ∨ s'.sender d = .acquire := by
  have hzero := hts.references_last h'.counted hrel hone
  obtain ⟨-, hs, -, -⟩ := holds_of_references h'.shape hzero
  rcases SenderPc.done_of_holds hs with h1 | h1 | h1
  · exact absurd h1 (hth' d (by rw [hret.handler]; rfl))
  · exact Or.inr h1
  · exact Or.inl h1

/-- A statement that gives a reference back neither creates nor wakes a sender. -/
theorem onSender_of_released {d : ℕ} (h : σ.released d = 1) (x : ℕ) (p : SenderPc) : σ.onSender x p = p := by
  cases σ <;> first | rfl | cases h

/-- The sender of a device is at its start after a release only if it was before. -/
theorem sender_start {d : ℕ} (hm : s.Moves C a ev s') (hr : s.releases a = some d)
    (h : s'.sender d = .acquire) : s.sender d = .acquire := by
  cases hm with
  | accept fd hfd => cases hr
  | create fd launched networkId last hm => cases hr
  | handler x e hm =>
    rw [hm.sender, onSender_of_released ((hm.step.releases d).2 hr)] at h
    exact h
  | sender x e hm =>
    rw [hm.sender] at h
    split at h
    · exact absurd h hm.step.there.2
    · exact h
  | receiver x e hm =>
    rw [hm.sender, onSender_of_released ((hm.step.releases d).2 hr)] at h
    exact h
  | wake x hw => cases hr

/-- A sender that has not started has not after a release either. -/
theorem sender_start_stays {d : ℕ} (hm : s.Moves C a ev s') (hr : s.releases a = some d)
    (h : s.sender d = .acquire) : s'.sender d = .acquire := by
  cases hm with
  | accept fd hfd => cases hr
  | create fd launched networkId last hm => cases hr
  | handler x e hm => rw [hm.sender, onSender_of_released ((hm.step.releases d).2 hr), h]
  | sender x e hm =>
    -- it is not the sender's own release
    simp only [Server.releases, Option.ite_none_right_eq_some, Option.some.injEq] at hr
    obtain ⟨hp, rfl⟩ := hr
    rw [h] at hp
    cases hp
  | receiver x e hm => rw [hm.sender, onSender_of_released ((hm.step.releases d).2 hr), h]
  | wake x hw => cases hr

/-- A retired device whose sender is done has no references. -/
theorem RetiredAt.references (h : RetiredAt s d) (hi : Invariants s) (hs : s.sender d = .done) :
    s.references d = 0 := by
  have hended := hi.shape.left d (by rw [h.handler]; rfl)
  have h1 : s.refs d (.handler d) = 0 := by simp [Server.refs, h.handler, HandlerPc.holds]
  have h2 : s.refs d (.sender d) = 0 := by simp [Server.refs, hs, SenderPc.holds]
  have h3 : ∑ x ∈ Finset.range s.created, s.refs d (.receiver x) = 0 := by
    refine Finset.sum_eq_zero fun x _ => ?_
    have hcur : (s.receiver x).current.count d = 0 := List.count_eq_zero.2 (h.current x)
    simp only [Server.refs, hcur]
    split
    · rename_i hx
      rw [hx, h.receiver, hended]; rfl
    · rfl
  unfold Server.references
  omega

/-- A sender that is done stays done. -/
theorem sender_done_stays (hm : s.Moves C a ev s') {d : ℕ} (hs : s.sender d = .done) (hh : s.handler d = .done) :
    s'.sender d = .done := by
  cases hm with
  | accept fd hfd => exact hs
  | create fd launched networkId last hm => rw [hm.sender]; exact hs
  | @handler x e σ ev p s' hm =>
    rw [hm.sender, hs]
    cases σ <;> simp only [Stmt.onSender, reduceCtorEq, and_false, if_false]
    case createSender r =>
      obtain ⟨rfl, hp⟩ := hm.step.creates.1 r rfl
      rw [if_neg]
      rintro rfl
      rw [hh] at hp
      cases hp
  | sender x e hm =>
    rw [hm.sender]
    split
    · rename_i hx
      have hstep := hm.step
      rw [← hx, hs] at hstep
      cases hstep
    · exact hs
  | @receiver x e σ ev p s' hm =>
    rw [hm.sender, hs]
    cases σ <;> simp only [Stmt.onSender, reduceCtorEq, and_false, if_false]
    case createSender r => exact absurd rfl (hm.step.creates r)
  | wake x hw =>
    show Function.update s.sender x .woken d = _
    rw [Function.update_apply]
    split
    · rename_i hx
      rw [← hx, hs] at hw
      cases hw
    · exact hs

theorem OutlivesThreads.step (h : OutlivesThreads s) (hi : Invariants s) (hi' : Invariants s')
    (hth' : SenderThere s') (hret : Retired s) (hret' : Retired s') (hg : KeepsSender s a)
    (hm : s.Moves C a ev s') : OutlivesThreads s' := by
  refine ⟨fun d hpos => ?_, fun b d => memoryPointers_pos hi'⟩
  have hr' := hret' d hpos
  rcases deletes_step hi hm d with ⟨hl, he, t, σ, hts, hrel⟩ | ⟨hno, he | ⟨he, -⟩⟩
  · -- the deletion itself: it is the first, and the sender had started
    have hfirst : (s.device d).deletes = 0 := by
      by_contra h0
      have hp := Nat.pos_of_ne_zero h0
      have hz := (hret d hp).references hi (h.1 d hp).2.1
      have hc := hi.counted d
      rw [hl.2, hz] at hc
      omega
    rcases sender_done_of_release hi' hth' hts hrel hl.2 hr' with hd | hd
    · exact ⟨hr'.handler, hd, hr'.receiver, by omega⟩
    · exact absurd (sender_start hm hl.1 hd) (hg d hl)
  · obtain ⟨h1, h2, h3, h4⟩ := h.1 d (he ▸ hpos)
    exact ⟨hr'.handler, sender_done_stays hm h2 h1, hr'.receiver, he.trans h4⟩
  · omega

/-- **Devices outlive their threads exactly as long as `KeepsSender` holds.** In every run
whose steps keep the senders, a device is deleted once and only after all its threads; and
a step that does not, in any run, deletes a device whose sender is about to acquire it. -/
theorem outlives_threads (C : Crypto) :
    (∀ s, (relay C).ReachWhen KeepsSender s → OutlivesThreads s) ∧
      ∀ s a s', (relay C).Reach s → (relay C).step s a = some s' → ¬ KeepsSender s a →
        ¬ OutlivesThreads s' := by
  constructor
  · intro s h
    induction h with
    | @init s hi =>
      refine ⟨fun d hd => ?_, fun a d => memoryPointers_pos (.reach (C := C) (.init (G := KeepsSender) hi))⟩
      rw [(hi.device d).2.2.2.2] at hd
      exact absurd hd (Nat.lt_irrefl 0)
    | step a hr hg hs ih =>
      exact ih.step (.reach hr) (.reach (.step a hr hg hs)) (SenderThere.reach (.step a hr hg hs))
        (Retired.reach hr) (Retired.reach (.step a hr hg hs)) hg (Server.step_moves hs)
  · intro s a s' hr hs hbad hok
    simp only [KeepsSender, not_forall, not_not] at hbad
    obtain ⟨d, hl, hsend⟩ := hbad
    have hm := Server.step_moves hs
    rcases deletes_step (.reach hr) hm d with ⟨-, he, t, σ, hts, hrel⟩ | ⟨hno, -⟩
    · -- it is deleted now, and its sender still stands at its start
      have hdone := (hok.1 d (by omega)).2.1
      have hstart : s'.sender d = .acquire := sender_start_stays hm hl.1 hsend
      rw [hstart] at hdone
      cases hdone
    · exact hno hl

/-! ## Runs in which a device is deleted too early -/

/-- A server that has just started. -/
def Server.fresh : Server where
  openFds := {0, 1, 2, 3}
  connected := []
  created := 0
  device _ := ⟨0, 0, .intialization, 0, [], 0, none, 0⟩
  networkDevices _ := ∅
  networkMutex := none
  digest := []
  handler _ := .absent
  sender _ := .absent
  receiver _ := .absent

theorem Server.fresh_starts : Server.fresh.Starts where
  connected := rfl
  created := rfl
  networkDevices := rfl
  networkMutex := rfl
  handler := rfl
  sender := rfl
  receiver := rfl
  device _ := ⟨rfl, rfl, rfl, rfl, rfl⟩

/-- A client connects and disconnects at once, and its sender thread is slow to start. -/
def slowSender : List Action := List.flatten
  [[.accept 4, .create true 0 0], .replicate 3 (.handler 0 {}), .replicate 10 (.receiver 0 {}),
    .replicate 8 (.handler 0 {})]

/-- The device is deleted, and its sender has not yet taken its reference. -/
theorem sender_left_behind : ∃ s, (relay Crypto.zero).Reach s ∧
    (0 < (s.device 0).deletes ∧ s.sender 0 = .acquire) ∧ ¬ OutlivesThreads s := by
  have hrun : ((relay Crypto.zero).run Server.fresh slowSender).any
      (fun s => 0 < (s.device 0).deletes ∧ s.sender 0 = .acquire) = true := by decide +kernel
  obtain ⟨s, hr, hs⟩ := Runs.Machine.exists_reach Server.fresh_starts hrun
  have hs := of_decide_eq_true hs
  refine ⟨s, hr, hs, fun h => ?_⟩
  have hdone := (h.1 0 hs.1).2.1
  rw [hs.2] at hdone
  cases hdone

/-- A frame of network 0 with all bytes zero, and one with the marks of a ping. -/
def zeroFrame : Packed := fun _ => 0

def pingFrame : Packed := fun i => if 4 ≤ i ∧ i < 8 ∨ 16 ≤ i ∧ i < 24 then 0xFF else 0

/-- Device 0 joins with a ping, device 1 with a message. While device 1 broadcasts it, and
before it locks the buffer of device 0, device 0 disconnects and its threads finish. -/
def slowBroadcast : List Action := List.flatten
  [[.accept 4, .create true 0 0], .replicate 3 (.handler 0 {}), .replicate 3 (.sender 0 {}),
    .replicate 3 (.receiver 0 {}), [.receiver 0 { read := some pingFrame }], .replicate 11 (.receiver 0 {}),
    [.accept 5, .create true 0 0], .replicate 3 (.handler 1 {}), .replicate 3 (.receiver 1 {}),
    [.receiver 1 { read := some zeroFrame }], .replicate 10 (.receiver 1 {}),
    [.receiver 1 { pick := 0 }, .receiver 1 { pick := 1 }, .receiver 1 {}],
    .replicate 11 (.receiver 0 {}), .replicate 5 (.sender 0 {}), .replicate 8 (.handler 0 {}),
    .replicate 3 (.receiver 1 {})]

/-- Device 0 is deleted, and the broadcast of device 1 is about to signal its condition. -/
theorem recipient_deleted : ∃ s, (relay Crypto.zero).Reach s ∧
    (0 < (s.device 0).deletes ∧ (s.receiver 1).Accesses 0) ∧ ¬ RecipientsAlive s := by
  have hrun : ((relay Crypto.zero).run Server.fresh slowBroadcast).any
      (fun s => match s.receiver 1 with
        | .castSignal _ r _ => 0 < (s.device 0).deletes ∧ r = 0
        | _ => false) = true := by decide +kernel
  obtain ⟨s, hr, hs⟩ := Runs.Machine.exists_reach Server.fresh_starts hrun
  have hacc : 0 < (s.device 0).deletes ∧ (s.receiver 1).Accesses 0 := by
    split at hs
    · rename_i hp
      have hs := of_decide_eq_true hs
      rw [hp]
      exact ⟨hs.1, hs.2⟩
    · cases hs
  exact ⟨s, hr, hacc, fun h => absurd (h 1 0 hacc.2) (Nat.ne_of_gt hacc.1)⟩

end ServerRoom.Relay
