import ServerRoom.Proof.Registry

/-!
# Where the descriptors go

A descriptor that `accept` returns is closed with the device that it belongs to, when the last
reference to the device is given back. As long as no step touches a device that has been deleted:

* `Reclaimed`: the open descriptors are those of the start, those in the list, and those of the
  devices that are not deleted; and a device whose handler has started is deleted, once, exactly
  when nobody has a reference to it.
* `Server.Abandoned`: a device for which a thread could not be created. `handle_device` returns
  without a `release`, or never runs, and the device is not deleted in any run (`reclaimed`).
-/

namespace ServerRoom.Relay

variable {C : Crypto} {s s' : Server} {a : Action} {ev : Option Event} {t : Thread} {σ : Stmt} {fds : Finset ℕ} {d : ℕ}

/-- The handler has taken its reference. -/
def HandlerPc.started : HandlerPc → Bool
  | .absent | .acquire => false
  | _ => true

/-- **What has become of the descriptors**, in a run that started with `fds` open. -/
structure Reclaimed (fds : Finset ℕ) (s : Server) : Prop where
  isOpen : ∀ fd, fd ∈ s.openFds ↔ fd ∈ fds ∨ fd ∈ s.connected ∨ ∃ d, s.Live d ∧ (s.device d).sockfd = fd
  apart : ∀ fd ∈ fds, fd ∉ s.connected ∧ ∀ d, s.Live d → (s.device d).sockfd ≠ fd
  deleted : ∀ d, 0 < (s.device d).deletes → s.references d = 0 ∧ (s.device d).deletes = 1
  counted : ∀ d, (s.handler d).started = true → s.references d = 0 → 0 < (s.device d).deletes

theorem Reclaimed.starts (h : s.Starts) : Reclaimed s.openFds s := by
  have hno : ∀ d, ¬ s.Live d := by
    intro d hd
    have := hd.1
    rw [h.created] at this
    omega
  refine ⟨fun fd => ?_, fun fd _ => ?_, fun d hd => ?_, fun d hd => ?_⟩
  · rw [h.connected]
    refine ⟨.inl, fun hfd => hfd.resolve_right ?_⟩
    rintro (hfd | ⟨d, hd, -⟩)
    · exact List.not_mem_nil hfd
    · exact hno d hd
  · rw [h.connected]
    exact ⟨List.not_mem_nil, fun d hd => absurd hd (hno d)⟩
  · rw [(h.device d).2.2.2.2] at hd
    exact absurd hd (Nat.lt_irrefl 0)
  · rw [h.handler] at hd
    cases hd

/-! ## A step of a thread -/

/-- What a step of a thread does to the devices that are not deleted. -/
theorem ThreadStep.live_iff (h : ThreadStep s t σ s') (d : ℕ) :
    s'.Live d ↔ s.Live d ∧ ¬ (σ.released d = 1 ∧ (s.device d).memoryPointers = 1) := by
  have hdel := h.deletes d
  unfold Server.Live
  rw [h.created, hdel]
  split
  · rename_i hlast
    simp [hlast]
  · rename_i hlast
    simp [hlast]

/-- **The descriptor of a device is closed with it**, and no other. -/
theorem Server.Effect.mem_openFds (h : s.Effect t σ s') (fd : ℕ) :
    fd ∈ s'.openFds ↔ fd ∈ s.openFds ∧
      ∀ d, σ.released d = 1 → (s.device d).memoryPointers = 1 → (s.device d).sockfd ≠ fd := by
  rw [h.openFds]
  cases σ <;> simp only [Stmt.onFds, Stmt.released]
  case release r =>
    have hlast : (s.device r).memoryPointers - 1 = 0 ↔ (s.device r).memoryPointers = 1 := by omega
    split
    · rename_i h0
      rw [Finset.mem_erase, and_comm]
      refine and_congr_right fun _ => ⟨fun hne d hd _ he => ?_, fun hall he => ?_⟩
      · have hrd : r = d := by
          by_contra hno
          rw [if_neg hno] at hd
          cases hd
        exact hne (by rw [← he, hrd])
      · exact hall r (if_pos rfl) (hlast.1 h0) he.symm
    · rename_i h0
      refine ⟨fun hfd => ⟨hfd, fun d hd h1 => ?_⟩, fun hfd => hfd.1⟩
      have hrd : r = d := by
        by_contra hno
        rw [if_neg hno] at hd
        cases hd
      rw [← hrd] at h1
      exact absurd (hlast.2 h1) h0
  all_goals simp

/-- **A step of a thread** that releases and acquires only live devices. -/
theorem Reclaimed.of_thread (h : Reclaimed fds s) (hd : Descriptors s) (hi : Invariants s) (hi' : Invariants s')
    (he : s.Effect t σ s') (hts : ThreadStep s t σ s') (hc : ∀ x, t = .receiver x → x < s.created)
    (hlive : ∀ d, σ.released d = 1 → s.Live d) (hacq : ∀ d, σ.acquired d = 1 → (s.device d).deletes = 0)
    (hstart : ∀ d, (s'.handler d).started = true → (s.handler d).started = true ∨ σ.acquired d = 1) :
    Reclaimed fds s' := by
  have hsock : ∀ d, (s'.device d).sockfd = (s.device d).sockfd := fun d => by rw [he.device, onDevice_sockfd]
  have hone : ∀ d, σ.acquired d = 0 ∨ σ.acquired d = 1 := by
    intro d
    cases σ <;> simp only [Stmt.acquired, true_or]
    split <;> simp
  have hrel : ∀ d, σ.released d = 0 ∨ σ.released d = 1 := by
    intro d
    cases σ <;> simp only [Stmt.released, true_or]
    split <;> simp
  refine ⟨fun fd => ?_, fun fd hfd => ?_, fun d hdel => ?_, fun d hst hzero => ?_⟩
  · rw [he.mem_openFds, he.connected]
    constructor
    · rintro ⟨hfd, hno⟩
      rcases (h.isOpen fd).1 hfd with hfd | hfd | ⟨d, hl, hs⟩
      · exact .inl hfd
      · exact .inr (.inl hfd)
      · have hl' : s'.Live d := (hts.live_iff d).2 ⟨hl, fun hlast => hno d hlast.1 hlast.2 hs⟩
        exact .inr (.inr ⟨d, hl', (hsock d).trans hs⟩)
    · -- the descriptor that is closed belongs to no other device
      rintro (hfd | hfd | ⟨d, hl', hs⟩)
      · exact ⟨(h.isOpen fd).2 (.inl hfd), fun d hd _ => (h.apart fd hfd).2 d (hlive d hd)⟩
      · exact ⟨(hd.pending fd hfd).1, fun d hd1 _ => (hd.pending fd hfd).2 d (hlive d hd1)⟩
      · obtain ⟨hl, hno⟩ := (hts.live_iff d).1 hl'
        rw [hsock] at hs
        refine ⟨(h.isOpen fd).2 (.inr (.inr ⟨d, hl, hs⟩)), fun e he1 he2 hse => hno ?_⟩
        have hed : e = d := hd.distinct e d (hlive e he1) hl (hse.trans hs.symm)
        rw [← hed]
        exact ⟨he1, he2⟩
  · rw [he.connected]
    refine ⟨(h.apart fd hfd).1, fun d hl' => ?_⟩
    rw [hsock]
    exact (h.apart fd hfd).2 d ((hts.live_iff d).1 hl').1
  · rw [hts.deletes] at hdel ⊢
    split at hdel
    · rename_i hlast
      have h0 := (hlive d hlast.1).2
      rw [if_pos hlast, h0]
      exact ⟨hts.references_last hi'.counted hlast.1 hlast.2, rfl⟩
    · rename_i hlast
      rw [if_neg hlast]
      obtain ⟨hzero, hdel1⟩ := h.deleted d hdel
      have href := hts.references hc d
      -- a device that is deleted is not acquired again
      have hno : σ.acquired d = 0 := (hone d).resolve_right fun h1 => by
        have := hacq d h1
        omega
      exact ⟨by omega, hdel1⟩
  · rw [hts.deletes]
    have href := hts.references hc d
    split
    · exact Nat.succ_pos _
    · rename_i hlast
      -- if the step did not give back the last reference, there was none before it
      have hno : σ.released d = 0 := by
        refine (hrel d).resolve_right fun h1 => hlast ⟨h1, ?_⟩
        have hacq0 := acquired_of_released h1
        have hcount := hi.counted d
        omega
      have hst0 : (s.handler d).started = true := (hstart d hst).resolve_right fun h1 => by omega
      exact h.counted d hst0 (by omega)

theorem HandlerPc.Step.acquired {d : ℕ} {st : ConnectionState} {p p' : HandlerPc} (h : p.Step C d st σ ev p') :
    (∀ x, σ.acquired x = 1 → x = d) ∧ (p.started = true ∨ σ.acquired d = 1) := by
  cases h <;> simp [Stmt.acquired, HandlerPc.started]

theorem SenderPc.Step.acquired {d : ℕ} {data : DeviceData} {p p' : SenderPc} (h : p.Step d data σ ev p') (x : ℕ)
    (hx : σ.acquired x = 1) : x = d := by
  cases h <;> simp [Stmt.acquired] at hx
  exact hx.symm

/-- A receiver acquires its own device, or one that its broadcast touches. -/
theorem ReceiverPc.Step.acquired {d : ℕ} {data : DeviceData} {network : UInt32 → Finset ℕ} {p p' : ReceiverPc}
    (h : p.Step C d data network σ ev p') {x : ℕ} (hx : σ.acquired x = 1) : x ∈ insert d p.touched := by
  cases h <;> simp only [Stmt.acquired, ite_eq_left_iff, Nat.zero_ne_one, imp_false, not_not] at hx <;>
    subst hx
  case castPick m todo current hr => exact Finset.mem_insert_of_mem hr
  all_goals exact Finset.mem_insert_self _ _

/-! ## A step of the server -/

theorem Reclaimed.accept (h : Reclaimed fds s) {fd : ℕ} (hfd : fd ∉ s.openFds) :
    Reclaimed fds { s with openFds := insert fd s.openFds, connected := fd :: s.connected } := by
  refine ⟨fun x => ?_, fun x hx => ⟨fun hin => ?_, (h.apart x hx).2⟩, h.deleted, h.counted⟩
  · have hold := h.isOpen x
    simp only [Finset.mem_insert, List.mem_cons]
    rw [hold]
    constructor
    · rintro (rfl | hx | hx | hx)
      · exact .inr (.inl (.inl rfl))
      · exact .inl hx
      · exact .inr (.inl (.inr hx))
      · exact .inr (.inr hx)
    · rintro (hx | (rfl | hx) | hx)
      · exact .inr (.inl hx)
      · exact .inl rfl
      · exact .inr (.inr (.inl hx))
      · exact .inr (.inr (.inr hx))
  · rcases List.mem_cons.1 hin with rfl | hin
    · exact hfd ((h.isOpen x).2 (.inl hx))
    · exact (h.apart x hx).1 hin

theorem Reclaimed.create (h : Reclaimed fds s) (hi : Invariants s) {fd last : ℕ} {networkId : UInt32} {p : HandlerPc}
    (hm : CreateMove s fd (newDevice fd networkId last) p s') : Reclaimed fds s' := by
  -- a live device is the new one, with the descriptor that was taken, or it was live before
  have hlive : ∀ d, s'.Live d ↔ s.Live d ∨ d = s.created := by
    intro d
    unfold Server.Live
    rw [hm.created, hm.device]
    by_cases hd : d = s.created
    · rw [if_pos hd]
      simp [hd, newDevice]
    · rw [if_neg hd]
      simp only [hd, or_false]
      exact and_congr_left fun _ => by omega
  have hsock : ∀ d, s.Live d → (s'.device d).sockfd = (s.device d).sockfd := by
    intro d hd
    rw [hm.device, if_neg (Nat.ne_of_lt hd.1)]
  have hnew : (s'.device s.created).sockfd = fd := by
    rw [hm.device, if_pos rfl]
    rfl
  have hmem : ∀ x, x ∈ s.connected ↔ x = fd ∨ x ∈ s'.connected := by
    intro x
    rw [hm.connected, List.mem_cons]
  refine ⟨fun x => ?_, fun x hx => ⟨fun hin => ?_, fun d hd => ?_⟩, fun d hd => ?_, fun d hst hzero => ?_⟩
  · rw [hm.openFds, h.isOpen x, hmem]
    constructor
    · rintro (hx | (rfl | hx) | ⟨d, hd, hs⟩)
      · exact .inl hx
      · exact .inr (.inr ⟨s.created, (hlive _).2 (.inr rfl), hnew⟩)
      · exact .inr (.inl hx)
      · exact .inr (.inr ⟨d, (hlive d).2 (.inl hd), (hsock d hd).trans hs⟩)
    · rintro (hx | hx | ⟨d, hd, hs⟩)
      · exact .inl hx
      · exact .inr (.inl (.inr hx))
      · rcases (hlive d).1 hd with hd | rfl
        · exact .inr (.inr ⟨d, hd, (hsock d hd).symm.trans hs⟩)
        · exact .inr (.inl (.inl (hs.symm.trans hnew)))
  · exact (h.apart x hx).1 ((hmem x).2 (.inr hin))
  · rcases (hlive d).1 hd with hd | rfl
    · rw [hsock d hd]
      exact (h.apart x hx).2 d hd
    · rw [hnew]
      rintro rfl
      exact (h.apart fd hx).1 ((hmem fd).2 (.inl rfl))
  · rw [hm.device] at hd ⊢
    rw [hm.references hi.shape]
    by_cases hc : d = s.created
    · rw [if_pos hc] at hd
      exact absurd hd (Nat.lt_irrefl 0)
    · rw [if_neg hc] at hd ⊢
      exact h.deleted d hd
  · rw [hm.handler] at hst
    rw [hm.references hi.shape] at hzero
    rw [hm.device]
    by_cases hc : d = s.created
    · rw [if_pos hc] at hst
      -- the handler of the new device has not started
      rcases hm.start with hp | hp <;> rw [hp] at hst <;> cases hst
    · rw [if_neg hc] at hst ⊢
      exact h.counted d hst hzero

/-- Waking a sender changes nobody's references. -/
theorem references_wake {x : ℕ} (hw : s.sender x = .waiting) (d : ℕ) :
    Server.references { s with sender := Function.update s.sender x .woken } d = s.references d := by
  unfold Server.references
  simp only [Server.refs, Function.update_apply, if_true]
  split
  · rename_i hd
    rw [hd, hw]
    rfl
  · rfl

theorem Reclaimed.step (h : Reclaimed fds s) (hd : Descriptors s) (hi : Invariants s) (hi' : Invariants s')
    (hg : TouchesLive s a) (hm : s.Moves C a ev s') : Reclaimed fds s' := by
  have hlive : ∀ t σ, ThreadStep s t σ s' → (∀ d, σ.released d = 1 → s.releases a = some d) →
      ∀ d, σ.released d = 1 → s.Live d :=
    fun t σ hts hrel d hd => ⟨hts.lt_created hi hd, hg d (touched_of_releases (hrel d hd))⟩
  cases hm with
  | accept fd hfd => exact h.accept hfd
  | create fd launched networkId last hm => exact h.create hi hm
  | @handler x e σ ev p s' hm =>
    have hts := ThreadStep.of_handler hi.shape hm
    refine h.of_thread hd hi hi' hm.toEffect hts nofun (hlive _ _ hts fun d => (hm.step.releases d).1)
      (fun d hacq => ?_) (fun d hst => ?_)
    · rw [hm.step.acquired.1 d hacq]
      exact hg x (Finset.mem_singleton_self x)
    · rw [hm.handler] at hst
      by_cases hdx : d = x
      · rw [hdx]
        exact hm.step.acquired.2
      · rw [if_neg hdx] at hst
        exact .inl hst
  | @sender x e σ ev p s' hm =>
    have hts := ThreadStep.of_sender hm
    refine h.of_thread hd hi hi' hm.toEffect hts nofun (hlive _ _ hts fun d => (hm.step.releases d).1)
      (fun d hacq => ?_) (fun d hst => .inl ?_)
    · rw [hm.step.acquired d hacq]
      exact hg x (Finset.mem_singleton_self x)
    · rw [← hm.handler]
      exact hst
  | @receiver x e σ ev p s' hm =>
    have hts := ThreadStep.of_receiver hi.shape hm
    refine h.of_thread hd hi hi' hm.toEffect hts (fun y hy => ?_) (hlive _ _ hts fun d => (hm.step.releases d).1)
      (fun d hacq => hg d (hm.step.acquired hacq)) (fun d hst => .inl ?_)
    · cases hy
      refine hi.shape.lt_created fun habs => ?_
      have hstep := hm.step
      rw [habs] at hstep
      cases hstep
    · rw [← hm.handler]
      exact hst
  | wake x hw =>
    refine ⟨h.isOpen, h.apart, fun d hdel => ?_, fun d hst hzero => ?_⟩
    · rw [references_wake hw]
      exact h.deleted d hdel
    · rw [references_wake hw] at hzero
      exact h.counted d hst hzero

/-! ## Runs -/

/-- The state of a run and what is known of it, from its start. -/
theorem Reclaimed.run {s₀ : Server} {as : List Action} (hs : s₀.Starts)
    (hr : (relay C).runWhen TouchesLive s₀ as = some s) :
    (relay C).ReachWhen TouchesLive s ∧ Reclaimed s₀.openFds s := by
  let I : Server → Prop := fun s => (relay C).ReachWhen TouchesLive s ∧ Reclaimed s₀.openFds s
  have hstart : I s₀ := ⟨.init hs, Reclaimed.starts hs⟩
  have hstep : ∀ s a s', I s → TouchesLive s a → (relay C).step s a = some s' → I s' := by
    rintro s a s' ⟨hreach, hrec⟩ hg hst
    have hreach' : (relay C).ReachWhen TouchesLive s' := .step a hreach hg hst
    exact ⟨hreach', hrec.step (.reach hreach) (.reach hreach) (.reach hreach') hg (Server.step_moves hst)⟩
  have hend : I s := Runs.Machine.runWhen_induct hr hstart hstep
  exact hend

/-- The devices that exist and are not deleted. -/
def Server.live (s : Server) : Finset ℕ := (Finset.range s.created).filter fun d => (s.device d).deletes = 0

theorem Server.mem_live : d ∈ s.live ↔ s.Live d := by
  unfold Server.live Server.Live
  rw [Finset.mem_filter, Finset.mem_range]

/-- **How many descriptors are open.** -/
theorem Reclaimed.card (h : Reclaimed fds s) (hd : Descriptors s) :
    s.openFds.card = fds.card + s.connected.length + s.live.card := by
  have hset : s.openFds = (fds ∪ s.connected.toFinset) ∪ s.live.image fun d => (s.device d).sockfd := by
    ext fd
    rw [h.isOpen]
    simp only [Finset.mem_union, List.mem_toFinset, Finset.mem_image, Server.mem_live, or_assoc]
  have hlist : Disjoint fds s.connected.toFinset :=
    Finset.disjoint_left.2 fun fd hfd hin => (h.apart fd hfd).1 (List.mem_toFinset.1 hin)
  have hlive : Disjoint (fds ∪ s.connected.toFinset) (s.live.image fun d => (s.device d).sockfd) := by
    refine Finset.disjoint_left.2 fun fd hfd hin => ?_
    obtain ⟨d, hd', hs⟩ := Finset.mem_image.1 hin
    have hl := Server.mem_live.1 hd'
    rcases Finset.mem_union.1 hfd with hfd | hfd
    · exact (h.apart fd hfd).2 d hl hs
    · exact (hd.pending fd (List.mem_toFinset.1 hfd)).2 d hl hs
  have hinj : Set.InjOn (fun d => (s.device d).sockfd) s.live := by
    intro d hd1 e he1 heq
    exact hd.distinct d e (Server.mem_live.1 hd1) (Server.mem_live.1 he1) heq
  rw [hset, Finset.card_union_of_disjoint hlive, Finset.card_union_of_disjoint hlist,
    List.toFinset_card_of_nodup hd.nodup, Finset.card_image_of_injOn hinj]

/-- The threads of `d` are done and no broadcast has a reference to it. -/
structure Server.Finished (s : Server) (d : ℕ) : Prop where
  handler : s.handler d = .done
  sender : s.sender d = .done
  receiver : s.receiver d = .done
  current : ∀ x, d ∉ (s.receiver x).current

/-- When all are done, nobody has a reference. -/
theorem Server.Finished.references (h : s.Finished d) (hsh : Shape s) : s.references d = 0 := by
  have hended : (s.device d).connectionState = .ended := hsh.left d (by rw [h.handler]; rfl)
  have hrec : ∀ x, s.refs d (.receiver x) = 0 := by
    intro x
    simp only [Server.refs, List.count_eq_zero.2 (h.current x), Nat.add_zero]
    split
    · rename_i hx
      rw [hx, h.receiver, hended]
      rfl
    · rfl
  unfold Server.references
  rw [Finset.sum_congr rfl fun x _ => hrec x]
  simp [Server.refs, h.handler, h.sender, HandlerPc.holds, SenderPc.holds]

/-- A thread could not be created for `d`: `handle_device`, or one of the two that it starts. -/
def Server.Abandoned (s : Server) (d : ℕ) : Prop :=
  d < s.created ∧ (s.handler d = .absent ∨ s.handler d = .failed)

/-- `handle_device` goes on from neither. -/
theorem Server.Abandoned.step (h : s.Abandoned d) (hm : s.Moves C a ev s') : s'.Abandoned d := by
  obtain ⟨hc, hp⟩ := h
  cases hm with
  | accept fd hfd => exact ⟨hc, hp⟩
  | create fd launched networkId last hm =>
    refine ⟨by rw [hm.created]; omega, ?_⟩
    rw [hm.handler, if_neg (Nat.ne_of_lt hc)]
    exact hp
  | @handler x e σ ev p s' hm =>
    have hne : d ≠ x := by
      intro hdx
      have hstep := hm.step
      rw [← hdx] at hstep
      rcases hp with hp | hp <;> rw [hp] at hstep <;> cases hstep
    refine ⟨by rw [hm.created]; exact hc, ?_⟩
    rw [hm.handler, if_neg hne]
    exact hp
  | sender x e hm => exact ⟨by rw [hm.created]; exact hc, by rw [hm.handler]; exact hp⟩
  | receiver x e hm => exact ⟨by rw [hm.created]; exact hc, by rw [hm.handler]; exact hp⟩
  | wake x hw => exact ⟨hc, hp⟩

/-- A device is deleted only after its handler is done. -/
theorem Server.Abandoned.live (h : s.Abandoned d) (hret : Retired s) : s.Live d := by
  obtain ⟨hc, hp⟩ := h
  refine ⟨hc, Nat.eq_zero_of_not_pos fun hdel => ?_⟩
  have hdone := (hret d hdel).handler
  rcases hp with hp | hp <;> rw [hp] at hdone <;> cases hdone

/-- **What is reclaimed, and what is not.** In a run that uses no deleted device, the descriptors
that are open are those of the start, those in the list and one for each device that is not deleted. A
device whose handler has started is deleted when nobody has a reference to it, once, and not before;
so it is when its threads and all broadcasts to it are done. A device for which a thread could not be
created is never deleted, and its descriptor never closed. -/
theorem reclaimed (C : Crypto) {s₀ s : Server} {as : List Action} (hs : s₀.Starts)
    (hr : (relay C).runWhen TouchesLive s₀ as = some s) :
    ((∀ fd, fd ∈ s.openFds ↔ fd ∈ s₀.openFds ∨ fd ∈ s.connected ∨ ∃ d, s.Live d ∧ (s.device d).sockfd = fd) ∧
        s.openFds.card = s₀.openFds.card + s.connected.length + s.live.card) ∧
      (∀ d, (s.handler d).started = true → (s.device d).deletes = if s.references d = 0 then 1 else 0) ∧
      (∀ d, s.Finished d → (s.device d).deletes = 1) ∧
      ∀ d, s.Abandoned d → ∀ bs s', (relay C).runWhen TouchesLive s bs = some s' →
        s'.Live d ∧ (s'.device d).sockfd ∈ s'.openFds := by
  obtain ⟨hreach, hrec⟩ := Reclaimed.run hs hr
  have honce : ∀ d, (s.handler d).started = true → s.references d = 0 → (s.device d).deletes = 1 :=
    fun d hst hzero => (hrec.deleted d (hrec.counted d hst hzero)).2
  refine ⟨⟨hrec.isOpen, hrec.card (.reach hreach)⟩, fun d hst => ?_, fun d hfin => ?_, fun d hab bs s' hbs => ?_⟩
  · split
    · rename_i hzero
      exact honce d hst hzero
    · rename_i hpos
      exact Nat.eq_zero_of_not_pos fun hdel => hpos (hrec.deleted d hdel).1
  · exact honce d (by rw [hfin.handler]; rfl) (hfin.references (.reach hreach))
  · have hreach' : (relay C).ReachWhen TouchesLive s' := Runs.Machine.ReachWhen.runWhen hreach hbs
    let I : Server → Prop := fun s => s.Abandoned d
    have hstep : ∀ s a s', I s → TouchesLive s a → (relay C).step s a = some s' → I s' :=
      fun s a s' h _ hst => Server.Abandoned.step (C := C) h (Server.step_moves hst)
    have hab' : I s' := Runs.Machine.runWhen_induct hbs hab hstep
    have hlive := hab'.live (.reach hreach')
    exact ⟨hlive, (Descriptors.reach hreach').isOpen d hlive⟩

/-- A client comes and goes; for the second no handler can be created, for the third no sender; the
fourth is in the list. -/
def comeAndGo : List Action := List.flatten
  [[.accept 4, .create true 0 0], .replicate 3 (.handler 0 {}), .replicate 3 (.sender 0 {}),
    .replicate 10 (.receiver 0 {}), .replicate 5 (.sender 0 {}), .replicate 8 (.handler 0 {}),
    [.accept 4, .create false 0 0, .accept 5, .create true 0 0, .handler 2 {}, .handler 2 { launched := false }],
    [.accept 6]]

theorem reclaimed_comeAndGo : ∃ s, (relay Crypto.zero).runWhen TouchesLive Server.fresh comeAndGo = some s ∧
    (s.device 0).deletes = 1 ∧ s.openFds.card = 4 + 1 + 2 ∧
    ∀ bs s', (relay Crypto.zero).runWhen TouchesLive s bs = some s' → s'.Live 1 ∧ s'.Live 2 := by
  have hrun : ((relay Crypto.zero).runWhen TouchesLive Server.fresh comeAndGo).any (fun s =>
      match s.handler 1, s.handler 2 with
      | .absent, .failed => s.references 0 = 0 ∧ (s.handler 0).started ∧ s.connected.length = 1 ∧
          s.live.card = 2 ∧ s.created = 3
      | _, _ => false) = true := by
    decide +kernel
  obtain ⟨s, hr, hs⟩ := (Option.any_eq_true _ _).1 hrun
  split at hs
  case h_2 => cases hs
  rename_i h1 h2
  obtain ⟨hzero, hst, hlist, hlive, hcreated⟩ := of_decide_eq_true hs
  obtain ⟨⟨-, hcard⟩, hdel, -, hleft⟩ := reclaimed Crypto.zero Server.fresh_starts hr
  refine ⟨s, hr, (hdel 0 hst).trans (if_pos hzero), ?_, fun bs s' hbs => ⟨?_, ?_⟩⟩
  · rw [hcard, hlist, hlive]
    rfl
  · exact (hleft 1 ⟨by omega, .inl h1⟩ bs s' hbs).1
  · exact (hleft 2 ⟨by omega, .inr h2⟩ bs s' hbs).1

end ServerRoom.Relay
