import ServerRoom.Proof.Provenance

/-!
# Who is in the registry

The registry tells devices apart by their descriptors, and a descriptor is free again once
it is closed. As long as no step touches a device that has been deleted (`TouchesLive`):

* `Descriptors`: the devices that are not deleted have open descriptors, and different ones.
* `Member`: a device that is working is in the registry of network 0, from its `insert` to
  its `erase`.
-/

namespace ServerRoom.Relay

variable {C : Crypto} {s s' : Server} {a : Action} {H : History} {ev : Option Event} {t : Thread} {σ : Stmt}

/-- The recipients that the next step of a broadcast accesses. -/
def ReceiverPc.touched : ReceiverPc → Finset ℕ
  | .castCopy _ todo _ => todo
  | .castNext _ (r :: _) | .castPush _ r _ | .castRelease _ r _ | .castSignal _ r _ | .castUnlock _ r _ => {r}
  | _ => ∅

/-- The devices that a step accesses: that of its own connection, and in a broadcast the
recipients. -/
def Server.touched (s : Server) : Action → Finset ℕ
  | .handler d _ | .sender d _ | .wake d => {d}
  | .receiver d _ => insert d (s.receiver d).touched
  | _ => ∅

/-- **The step touches no device that has been deleted.** -/
def TouchesLive (s : Server) (a : Action) : Prop := ∀ d ∈ s.touched a, (s.device d).deletes = 0

instance (s : Server) (a : Action) : Decidable (TouchesLive s a) :=
  inferInstanceAs (Decidable (∀ d ∈ s.touched a, (s.device d).deletes = 0))

theorem touched_of_releases {d : ℕ} (h : s.releases a = some d) : d ∈ s.touched a := by
  cases a with
  | accept fd => exact nomatch h
  | create launched networkId last => exact nomatch h
  | wake x => exact nomatch h
  | handler x e =>
    simp only [Server.releases, Option.ite_none_right_eq_some, Option.some.injEq] at h
    rw [h.2]
    exact Finset.mem_singleton_self d
  | sender x e =>
    simp only [Server.releases, Option.ite_none_right_eq_some, Option.some.injEq] at h
    rw [h.2]
    exact Finset.mem_singleton_self d
  | receiver x e =>
    simp only [Server.releases] at h
    simp only [Server.touched]
    revert h
    cases s.receiver x <;> simp [ReceiverPc.releases, ReceiverPc.touched] <;> tauto

/-! ## Descriptors -/

/-- The device exists and has not been deleted. -/
def Server.Live (s : Server) (d : ℕ) : Prop := d < s.created ∧ (s.device d).deletes = 0

/-- **Live devices have different, open descriptors**, and none that `main` has yet to take. -/
structure Descriptors (s : Server) : Prop where
  nodup : s.connected.Nodup
  pending : ∀ fd ∈ s.connected, fd ∈ s.openFds ∧ ∀ d, s.Live d → (s.device d).sockfd ≠ fd
  isOpen : ∀ d, s.Live d → (s.device d).sockfd ∈ s.openFds
  distinct : ∀ d e, s.Live d → s.Live e → (s.device d).sockfd = (s.device e).sockfd → d = e

theorem Descriptors.starts (h : s.Starts) : Descriptors s := by
  have hno : ∀ d, ¬ s.Live d := by
    intro d hd
    have := hd.1
    rw [h.created] at this
    omega
  refine ⟨by rw [h.connected]; exact List.nodup_nil, fun fd hfd => ?_, fun d hd => absurd hd (hno d),
    fun d e hd _ _ => absurd hd (hno d)⟩
  rw [h.connected] at hfd
  cases hfd

/-- **A step of a thread** that releases only live devices. -/
theorem Descriptors.of_effect (h : Descriptors s) (he : s.Effect t σ s')
    (hlive : ∀ d, σ.released d = 1 → s.Live d) : Descriptors s' := by
  have hsock : ∀ d, (s'.device d).sockfd = (s.device d).sockfd := fun d => by rw [he.device, onDevice_sockfd]
  have hdel : ∀ d, s'.Live d → s.Live d ∧ ¬ (σ.released d = 1 ∧ (s.device d).memoryPointers - 1 = 0) := by
    intro d hd
    have hc := hd.1
    have h0 := hd.2
    rw [he.created] at hc
    rw [he.device, onDevice_deletes] at h0
    split at h0
    · omega
    · rename_i hno
      exact ⟨⟨hc, h0⟩, hno⟩
  -- what stays open: all but the descriptor of a device that is deleted by the step
  have hfds : ∀ fd, fd ∈ s.openFds → (∀ d, s.Live d → (s.device d).sockfd = fd →
      ¬ (σ.released d = 1 ∧ (s.device d).memoryPointers - 1 = 0)) → fd ∈ s'.openFds := by
    intro fd hfd hno
    rw [he.openFds]
    cases σ <;> simp only [Stmt.onFds] <;> (try exact hfd)
    case release r =>
      split
      · rename_i hlast
        have hrel : Stmt.released r (.release r) = 1 := by simp [Stmt.released]
        exact Finset.mem_erase.2 ⟨fun hr => hno r (hlive r hrel) hr.symm ⟨hrel, hlast⟩, hfd⟩
      · exact hfd
  refine ⟨by rw [he.connected]; exact h.nodup, fun fd hfd => ?_, fun d hd => ?_, fun d e hd he' heq => ?_⟩
  · rw [he.connected] at hfd
    obtain ⟨h1, h2⟩ := h.pending fd hfd
    exact ⟨hfds fd h1 fun d hd hs => absurd hs (h2 d hd), fun d hd => by rw [hsock]; exact h2 d (hdel d hd).1⟩
  · obtain ⟨hl, hno⟩ := hdel d hd
    rw [hsock]
    refine hfds _ (h.isOpen d hl) fun e hle hs => ?_
    rw [h.distinct e d hle hl hs]
    exact hno
  · rw [hsock, hsock] at heq
    exact h.distinct d e (hdel d hd).1 (hdel e he').1 heq

/-- A thread that releases a device has a reference to it, so the device exists. -/
theorem ThreadStep.lt_created (hi : Invariants s) (hts : ThreadStep s t σ s') {d : ℕ} (hrel : σ.released d = 1) :
    d < s.created := by
  refine Nat.lt_of_not_le fun hle => ?_
  have hz := refs_eq_zero hi.shape hi.known (Or.inl (hi.shape.handler d hle)) t
  have hpos := hts.refs_pos hrel
  omega

theorem Descriptors.step (h : Descriptors s) (hi : Invariants s) (hg : TouchesLive s a)
    (hm : s.Moves C a ev s') : Descriptors s' := by
  have hlive : ∀ t σ, ThreadStep s t σ s' → (∀ d, σ.released d = 1 → s.releases a = some d) →
      ∀ d, σ.released d = 1 → s.Live d :=
    fun t σ hts hrel d hd => ⟨hts.lt_created hi hd, hg d (touched_of_releases (hrel d hd))⟩
  cases hm with
  | accept fd hfd =>
    have hmem : ∀ x, x ∈ s.openFds → x ∈ insert fd s.openFds := fun x => Finset.mem_insert_of_mem
    refine ⟨List.nodup_cons.2 ⟨fun hin => hfd (h.pending fd hin).1, h.nodup⟩, fun x hx => ?_,
      fun d hd => hmem _ (h.isOpen d hd), h.distinct⟩
    rcases List.mem_cons.1 hx with rfl | hx
    · exact ⟨Finset.mem_insert_self _ _, fun d hd hs => hfd (hs ▸ h.isOpen d hd)⟩
    · exact ⟨hmem x (h.pending x hx).1, (h.pending x hx).2⟩
  | create fd launched networkId last hm =>
    have hnd := h.nodup
    rw [hm.connected] at hnd
    obtain ⟨hfd, hnd⟩ := List.nodup_cons.1 hnd
    obtain ⟨hop, hdiff⟩ := h.pending fd (by rw [hm.connected]; exact List.mem_cons_self)
    -- a live device is the new one, or it was live before
    have hcases : ∀ d, s'.Live d → d = s.created ∧ (s'.device d).sockfd = fd ∨
        s.Live d ∧ (s'.device d).sockfd = (s.device d).sockfd := by
      intro d hd
      obtain ⟨hc, h0⟩ := hd
      rw [hm.created] at hc
      rw [hm.device] at h0 ⊢
      split
      · rename_i hd
        exact Or.inl ⟨hd, rfl⟩
      · rename_i hd
        rw [if_neg hd] at h0
        exact Or.inr ⟨⟨by omega, h0⟩, rfl⟩
    refine ⟨hnd, fun x hx => ⟨?_, fun d hd => ?_⟩, fun d hd => ?_, fun d e hd he heq => ?_⟩
    · rw [hm.openFds]
      exact (h.pending x (by rw [hm.connected]; exact List.mem_cons_of_mem _ hx)).1
    · rcases hcases d hd with ⟨-, hs⟩ | ⟨hl, hs⟩
      · rw [hs]
        rintro rfl
        exact hfd hx
      · rw [hs]
        exact (h.pending x (by rw [hm.connected]; exact List.mem_cons_of_mem _ hx)).2 d hl
    · rw [hm.openFds]
      rcases hcases d hd with ⟨-, hs⟩ | ⟨hl, hs⟩ <;> rw [hs]
      · exact hop
      · exact h.isOpen d hl
    · rcases hcases d hd with ⟨h1, hs⟩ | ⟨hl, hs⟩ <;> rcases hcases e he with ⟨h2, hs'⟩ | ⟨hl', hs'⟩ <;>
        rw [hs, hs'] at heq
      · rw [h1, h2]
      · exact absurd heq.symm (hdiff e hl')
      · exact absurd heq (hdiff d hl)
      · exact h.distinct d e hl hl' heq
  | handler x e hm =>
    exact h.of_effect hm.toEffect (hlive _ _ (.of_handler hi.shape hm) fun d => (hm.step.releases d).1)
  | sender x e hm =>
    exact h.of_effect hm.toEffect (hlive _ _ (.of_sender hm) fun d => (hm.step.releases d).1)
  | receiver x e hm =>
    exact h.of_effect hm.toEffect (hlive _ _ (.of_receiver hi.shape hm) fun d => (hm.step.releases d).1)
  | wake x hw => exact ⟨h.nodup, h.pending, h.isOpen, h.distinct⟩

theorem Descriptors.reach (h : (relay C).ReachWhen TouchesLive s) : Descriptors s :=
  h.induct (fun _ => Descriptors.starts) fun _ _ _ hr hi hg hs =>
    hi.step (.reach hr) hg (Server.step_moves hs)

/-! ## Members -/

/-- **Working devices are members of network 0**, in the registry from their `insert` to
their `erase`. -/
def Members (s : Server) : Prop := ∀ d, (s.device d).connectionState = .working →
  (s.device d).networkId = 0 ∧ ((s.receiver d).listed = true → d ∈ s.networkDevices 0)

/-- How a receiver's own connection comes to be working, and listed. -/
theorem ReceiverPc.Step.member {d : ℕ} {data : DeviceData} {network : UInt32 → Finset ℕ} {p p' : ReceiverPc}
    (h : p.Step C d data network σ ev p') (hp : p.fits data.connectionState = true)
    (hw : σ.onState d data.connectionState = .working) :
    (∃ m, p = .setWorking m ∧ σ = .setWorking d m.bytes.networkId ∧ p'.listed = false) ∨
      data.connectionState = .working ∧ (∀ r n, σ ≠ .setWorking r n) ∧
        (p'.listed = true → σ = .insert d ∨ p.listed = true ∧ ∀ r, σ ≠ .erase r) := by
  generalize hst : data.connectionState = st at hp hw
  cases st <;> cases h <;> simp_all [ReceiverPc.fits, ReceiverPc.listed, Stmt.onState]

/-- A receiver erases its own device, which is working. -/
theorem ReceiverPc.Step.erases {d x : ℕ} {data : DeviceData} {network : UInt32 → Finset ℕ} {p p' : ReceiverPc}
    (h : p.Step C d data network σ ev p') (hp : p.fits data.connectionState = true) (hσ : σ = .erase x) :
    x = d ∧ data.connectionState = .working := by
  subst hσ
  generalize hst : data.connectionState = st at hp
  cases h with
  | removeErase => cases st <;> simp_all [ReceiverPc.fits]

theorem live_of_working (hi : Invariants s) (hret : Retired s) {d : ℕ}
    (hw : (s.device d).connectionState = .working) : s.Live d := by
  have hfit := hi.shape.fits d
  rw [hw] at hfit
  have hrun : s.receiver d ≠ .absent := by
    intro ha
    rw [ha] at hfit
    cases hfit
  refine ⟨hi.shape.lt_created hrun, ?_⟩
  rcases Nat.eq_zero_or_pos (s.device d).deletes with h0 | hpos
  · exact h0
  · rw [(hret d hpos).receiver] at hfit
    cases hfit

/-- A set of the registry keeps a device unless another one with its descriptor is erased. -/
theorem mem_onNetwork_of_mem {n : UInt32} {d : ℕ} (hd : d ∈ s.networkDevices n)
    (hne : ∀ r, σ = .erase r → (s.device d).sockfd ≠ (s.device r).sockfd) : d ∈ σ.onNetwork s n := by
  cases σ <;> simp only [Stmt.onNetwork] <;> (try exact hd)
  case insert r =>
    rw [Function.update_apply]
    split
    · rename_i hn
      unfold Server.insertDevice
      rw [← hn]
      split
      · exact hd
      · exact Finset.mem_insert_of_mem hd
    · exact hd
  case erase r =>
    rw [Function.update_apply]
    split
    · rename_i hn
      unfold Server.eraseDevice
      exact Finset.mem_filter.2 ⟨hn ▸ hd, hne r rfl⟩
    · exact hd

/-- **`insert` inserts**, when no other device in the set has the same descriptor. -/
theorem mem_onNetwork_insert {d : ℕ}
    (huniq : ∀ x ∈ s.networkDevices (s.device d).networkId, (s.device x).sockfd = (s.device d).sockfd → x = d) :
    d ∈ (Stmt.insert d).onNetwork s (s.device d).networkId := by
  simp only [Stmt.onNetwork, Function.update_self]
  unfold Server.insertDevice
  split
  · rename_i hex
    obtain ⟨x, hx, hs⟩ := hex
    have hxd := huniq x hx hs
    subst hxd
    exact hx
  · exact Finset.mem_insert_self _ _

theorem Members.step_receiver {d : ℕ} {p : ReceiverPc} (h : Members s) (hi : Invariants s) (hret : Retired s)
    (hd : Descriptors s) (hprov : Provenance s H) (hm : ReceiverMove C s d σ ev p s') : Members s' := by
  intro x hw
  rw [hm.connectionState] at hw
  by_cases hxd : x = d
  · subst hxd
    rw [hm.device, hm.receiver, if_pos rfl]
    rcases hm.step.member (hi.shape.fits x) hw with ⟨m, hp, rfl, hl⟩ | ⟨hwork, hno, hl⟩
    · -- it starts to work, with an authentic message of network 0 in hand
      have hc := hprov.carried x
      rw [hp] at hc
      obtain ⟨m₀, rfl, hg⟩ := hc
      rw [hl]
      exact ⟨by simp [Stmt.onDevice, hg.networkId], nofun⟩
    · obtain ⟨h1, h2⟩ := h x hwork
      rw [onDevice_networkId fun r n hr => absurd hr (hno r n)]
      refine ⟨h1, fun hlist => ?_⟩
      rw [hm.networkDevices]
      rcases hl hlist with rfl | ⟨hold, herase⟩
      · rw [← h1]
        refine mem_onNetwork_insert fun y hy hs => ?_
        exact hd.distinct y x (live_of_working hi hret (hi.listed _ y hy).working) (live_of_working hi hret hwork) hs
      · exact mem_onNetwork_of_mem (h2 hold) fun r hr => absurd hr (herase r)
  · rw [hm.step.onState hxd] at hw
    obtain ⟨h1, h2⟩ := h x hw
    obtain ⟨hwork, -⟩ := hm.step.onlyOwn
    rw [hm.device, hm.receiver, if_neg hxd, hm.networkDevices,
      onDevice_networkId fun r n hr he => hxd (he.symm.trans (hwork r n hr).1)]
    refine ⟨h1, fun hl => mem_onNetwork_of_mem (h2 hl) fun r hr hs => ?_⟩
    -- the device that is erased works, too, so its descriptor is another one
    obtain ⟨rfl, hwr⟩ := hm.step.erases (hi.shape.fits d) hr
    exact hxd (hd.distinct x r (live_of_working hi hret hw) (live_of_working hi hret hwr) hs)

theorem Members.step (h : Members s) (hi : Invariants s) (hret : Retired s) (hd : Descriptors s)
    (hprov : Provenance s H) (hm : s.Moves C a ev s') : Members s' := by
  cases hm with
  | accept fd hfd => exact h
  | create fd launched networkId last hm =>
    intro x hw
    rw [hm.device] at hw ⊢
    split at hw
    · cases hw
    · rename_i hx
      rw [if_neg hx, hm.receiver, hm.networkDevices]
      exact h x hw
  | @handler d e σ ev p s' hm =>
    intro x hw
    rw [hm.connectionState, hm.step.creates.2.2] at hw
    rw [hm.device, onDevice_networkId fun r k hk => absurd hk (hm.step.noWorking r k),
      hm.receiver_same hi.shape (hi.shape.present hw), hm.networkDevices, hm.step.onNetwork]
    exact h x hw
  | sender d e hm =>
    intro x hw
    rw [hm.connectionState, hm.step.onState] at hw
    rw [hm.device, onDevice_networkId fun r k hk => absurd hk (hm.step.noWorking r k), hm.receiver,
      hm.networkDevices, hm.step.onNetwork]
    exact h x hw
  | receiver d e hm => exact h.step_receiver hi hret hd hprov hm
  | wake d hw => exact h

theorem Members.reach (h : (observed C).ReachWhen (fun p => TouchesLive p.1) (s, H)) : Members s := by
  refine observed_induct (I := fun s _ => Members s) (fun s hi d hw => ?_) (fun s H a s' hr hs hi _ hm => ?_) h
  · rw [(hi.device d).1] at hw
    cases hw
  · exact hi.step (.reach hs) (Retired.reach hs)
      (Descriptors.reach (hr.unrecorded fun _ _ hg => hg)) (Provenance.reach hr) hm

end ServerRoom.Relay
