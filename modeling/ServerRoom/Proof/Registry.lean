import Mathlib.Algebra.BigOperators.Group.Finset.Piecewise
import ServerRoom.Proof.Membership

/-!
# The registry is well formed

`Listed` and `Counted` say what a device in the registry is like; `Descriptors` makes the
comparison by descriptor one by device. `registry_well_formed` puts them together: who is in
the registry, that `insert` and `erase` do what they are for, and that a connection that has
ended stays out.
-/

namespace ServerRoom.Relay

open Runs.Machine

variable {C : Crypto} {s s' : Server} {a : Action} {ev : Option Event} {σ : Stmt}

/-- The references to `d` that its threads and the broadcasts have. -/
def Server.held (s : Server) (d : ℕ) : ℕ :=
  (s.handler d).holds.toNat + (s.sender d).holds.toNat + (s.receiver d).holds.toNat +
    ∑ x ∈ Finset.range s.created, (s.receiver x).current.count d

/-- A device in the registry, as it should be. -/
structure Server.Registered (s : Server) (n : UInt32) (d : ℕ) : Prop where
  live : s.Live d
  networkId : (s.device d).networkId = n
  working : (s.device d).connectionState = .working
  once : ∀ m, d ∈ s.networkDevices m → m = n
  counted : (s.device d).memoryPointers = s.held d + 1

/-- **The registry has a reference** to a device that is listed. -/
theorem ListedAt.references {n : UInt32} {d : ℕ} (h : ListedAt s n d) (hc : d < s.created) :
    s.references d = s.held d + 1 := by
  have hreg : (s.receiver d).registryHolds = true := by
    have hl := h.listed
    cases hp : s.receiver d <;> rw [hp] at hl <;> first | rfl | cases hl
  have hown : ∑ x ∈ Finset.range s.created, s.refs d (.receiver x) =
      (s.receiver d).holds.toNat + 1 + ∑ x ∈ Finset.range s.created, (s.receiver x).current.count d := by
    simp only [Server.refs, Finset.sum_add_distrib, Finset.sum_ite_eq', Finset.mem_range, if_pos hc]
    unfold ReceiverPc.ownRefs
    rw [if_pos ⟨h.working, hreg⟩]
  unfold Server.references Server.held
  rw [hown]
  simp only [Server.refs, if_true]
  omega

/-! ## Entering and leaving -/

/-- The devices of a set of the registry that share a descriptor are the same. -/
theorem sockfd_inj (hi : Invariants s) (hret : Retired s) (hd : Descriptors s) {n : UInt32} {d x : ℕ}
    (hw : (s.device d).connectionState = .working) (hx : x ∈ s.networkDevices n)
    (hs : (s.device x).sockfd = (s.device d).sockfd) : x = d :=
  hd.distinct x d (live_of_working hi hret (hi.listed n x hx).working) (live_of_working hi hret hw) hs

/-- **Where a receiver is at work on the registry**, its connection is working. -/
theorem Shape.working (h : Shape s) {d : ℕ} (hp : (∃ m, s.receiver d = .addInsert m) ∨ s.receiver d = .removeErase) :
    (s.device d).connectionState = .working := by
  have hfit := h.fits d
  rcases hp with ⟨m, hp⟩ | hp <;> rw [hp] at hfit <;>
    cases hst : (s.device d).connectionState <;> rw [hst] at hfit <;> first | rfl | cases hfit

/-- **An insert inserts** a device that was not there. -/
theorem insert_inserts (hi : Invariants s) (hret : Retired s) (hd : Descriptors s) {d : ℕ} {m : NetworkMessage}
    (hp : s.receiver d = .addInsert m) (n : UInt32) :
    d ∉ s.networkDevices n ∧ s.insertDevice d (s.networkDevices n) = insert d (s.networkDevices n) := by
  -- a device whose receiver is about to insert it is not listed
  have hnot : d ∉ s.networkDevices n := by
    intro hin
    have hl := (hi.listed n d hin).listed
    rw [hp] at hl
    cases hl
  have hw := hi.shape.working (Or.inl ⟨m, hp⟩)
  refine ⟨hnot, if_neg ?_⟩
  rintro ⟨x, hx, hs⟩
  exact hnot (sockfd_inj hi hret hd hw hx hs ▸ hx)

/-- **An erase erases** its own device only. -/
theorem erase_erases (hi : Invariants s) (hret : Retired s) (hd : Descriptors s) {d : ℕ}
    (hp : s.receiver d = .removeErase) (n : UInt32) :
    s.eraseDevice d (s.networkDevices n) = (s.networkDevices n).erase d := by
  have hw := hi.shape.working (Or.inr hp)
  unfold Server.eraseDevice
  ext x
  simp only [Finset.mem_filter, Finset.mem_erase, and_comm]
  -- in the registry a descriptor tells the device
  refine and_congr_left fun hx => not_congr ⟨fun hs => sockfd_inj hi hret hd hw hx hs, fun he => by rw [he]⟩

/-- What a receiver does to the registry where it works on it. -/
theorem ReceiverPc.Step.registry {d : ℕ} {data : DeviceData} {network : UInt32 → Finset ℕ} {p p' : ReceiverPc}
    (h : p.Step C d data network σ ev p') :
    ((∃ m, p = .addInsert m) → σ = .insert d) ∧ (p = .removeErase → σ = .erase d) := by
  cases h <;> simp

/-- **A connection that has ended stays so.** -/
theorem ended_step (hsh : Shape s) (hm : s.Moves C a ev s') {d : ℕ}
    (he : (s.device d).connectionState = .ended) : (s'.device d).connectionState = .ended := by
  cases hm with
  | accept fd hfd => exact he
  | create fd launched networkId last hm =>
    -- the new device has not ended
    have hne : d ≠ s.created := by
      rintro rfl
      have hfit := hsh.fits s.created
      rw [(hsh.absent (Nat.le_refl _)).2, he] at hfit
      cases hfit
    rw [hm.device, if_neg hne]
    exact he
  | handler x e hm => rw [hm.connectionState, hm.step.creates.2.2]; exact he
  | sender x e hm => rw [hm.connectionState, hm.step.onState]; exact he
  | receiver x e hm =>
    rw [hm.connectionState]
    by_cases hxd : d = x
    · subst hxd
      have hfit := hsh.fits d
      rw [he] at hfit
      rw [he]
      exact hm.step.ended hfit d
    · rw [hm.step.onState hxd]; exact he
  | wake x hw => exact he

/-- What is in the registry at any moment is as it should be. -/
theorem registered (h : (relay C).ReachWhen TouchesLive s) {n : UInt32} {d : ℕ} (hd : d ∈ s.networkDevices n) :
    s.Registered n d := by
  have hi := Invariants.reach h
  have hl := hi.listed n d hd
  have hlive := live_of_working hi (Retired.reach h) hl.working
  refine ⟨hlive, hl.networkId, hl.working, fun m hm => ?_, ?_⟩
  · rw [← (hi.listed m d hm).networkId]; exact hl.networkId
  · have hc := hi.counted d
    rw [hl.references hlive.1] at hc
    exact_mod_cast hc

/-- **The registry is well formed.** In a run that uses no deleted device, every device in
the registry is as it should be, live devices have different descriptors, each `insert`
inserts its device and each `erase` erases its device and no other, and a connection that
has ended is in no network, then and later. -/
theorem registry_well_formed (C : Crypto) :
    (∀ s, (relay C).ReachWhen TouchesLive s → ∀ n d, d ∈ s.networkDevices n → s.Registered n d) ∧
      (∀ s, (relay C).ReachWhen TouchesLive s → ∀ d e, s.Live d → s.Live e →
        (s.device d).sockfd = (s.device e).sockfd → d = e) ∧
      (∀ s d e s', (relay C).ReachWhen TouchesLive s → (relay C).step s (.receiver d e) = some s' →
        let n := (s.device d).networkId
        ((∃ m, s.receiver d = .addInsert m) → d ∉ s.networkDevices n ∧
          s'.networkDevices = Function.update s.networkDevices n (insert d (s.networkDevices n))) ∧
        (s.receiver d = .removeErase → d ∈ s.networkDevices n ∧
          s'.networkDevices = Function.update s.networkDevices n ((s.networkDevices n).erase d))) ∧
      ∀ s d as s', (relay C).ReachWhen TouchesLive s → (s.device d).connectionState = .ended →
        (relay C).runWhen TouchesLive s as = some s' →
        (s'.device d).connectionState = .ended ∧ ∀ n, d ∉ s'.networkDevices n := by
  have hmoves : ∀ s d e s', (relay C).step s (.receiver d e) = some s' →
      ∃ ev, s.Moves C (.receiver d e) ev s' := fun s d e s' hs => ⟨_, Server.step_moves (C := C) hs⟩
  refine ⟨fun s h n d => registered h, fun s h d e => (Descriptors.reach h).distinct d e,
    fun s d e s' h hs => ⟨?_, ?_⟩, fun s d as s' h he hr => ?_⟩
  · rintro ⟨m, hp⟩
    obtain ⟨hnot, hins⟩ := insert_inserts (Invariants.reach h) (Retired.reach h) (Descriptors.reach h) hp
      (s.device d).networkId
    refine ⟨hnot, ?_⟩
    obtain ⟨ev, hm⟩ := hmoves s d e s' hs
    cases hm with
    | receiver _ _ hm =>
      rw [hm.networkDevices, hm.step.registry.1 ⟨m, hp⟩]
      simp only [Stmt.onNetwork, hins]
  · intro hp
    have hi := Invariants.reach h
    have herase := erase_erases hi (Retired.reach h) (Descriptors.reach h) hp (s.device d).networkId
    -- that it is there is an invariant of the run with its history
    obtain ⟨H, hH⟩ := h.exists_recorded History.empty History.record
    obtain ⟨hzero, hin⟩ := Members.reach hH d (hi.shape.working (Or.inr hp))
    refine ⟨by rw [hzero]; exact hin (by rw [hp]; rfl), ?_⟩
    obtain ⟨ev, hm⟩ := hmoves s d e s' hs
    cases hm with
    | receiver _ _ hm =>
      rw [hm.networkDevices, hm.step.registry.2 hp]
      simp only [Stmt.onNetwork, herase]
  · let I : Server → Prop := fun s => (relay C).ReachWhen TouchesLive s ∧ (s.device d).connectionState = .ended
    obtain ⟨h', hend⟩ : I s' := runWhen_induct hr ⟨h, he⟩ fun t a t' ht hg hst =>
      ⟨.step a ht.1 hg hst, ended_step (C := C) (Shape.reach ht.1) (Server.step_moves hst) ht.2⟩
    refine ⟨hend, fun n hin => ?_⟩
    have hw := (registered h' hin).working
    rw [hend] at hw
    cases hw

/-- Two clients are connected, and the receiver of device 0 stands before its `insert`. -/
def joining : List Action := List.flatten
  [[.accept 4, .create true 0 0, .accept 5, .create true 0 0], .replicate 3 (.handler 0 {}),
    .replicate 3 (.handler 1 {}), .replicate 3 (.receiver 0 {}), [.receiver 0 { read := some pingFrame }],
    .replicate 6 (.receiver 0 {})]

/-- Device 0 joins; after its `insert` its next read fails, and it leaves and ends its connection. -/
theorem registry_well_formed_joining : ∃ s s' s'', (relay Crypto.zero).ReachWhen TouchesLive s ∧
    (relay Crypto.zero).step s (.receiver 0 {}) = some s' ∧
    s'.networkDevices = Function.update s.networkDevices (s.device 0).networkId
      (insert 0 (s.networkDevices (s.device 0).networkId)) ∧
    s'.Registered 0 0 ∧ (s'.device 0).sockfd ≠ (s'.device 1).sockfd ∧
    (relay Crypto.zero).runWhen TouchesLive s' (.replicate 11 (.receiver 0 {})) = some s'' ∧
    0 ∉ s''.networkDevices 0 := by
  have hrun : ((relay Crypto.zero).runWhen TouchesLive Server.fresh joining).any (fun s =>
      match s.receiver 0 with
      | .addInsert _ => TouchesLive s (.receiver 0 {}) ∧ ((relay Crypto.zero).step s (.receiver 0 {})).any fun s' =>
          0 ∈ s'.networkDevices 0 ∧ s'.created = 2 ∧ (s'.device 1).deletes = 0 ∧
            ((relay Crypto.zero).runWhen TouchesLive s' (.replicate 11 (.receiver 0 {}))).any fun s'' =>
              (s''.device 0).connectionState = .ended
      | _ => false) = true := by decide +kernel
  obtain ⟨s, hr, hs⟩ := exists_reachWhen (M := relay Crypto.zero) Server.fresh_starts hrun
  split at hs
  case h_2 => cases hs
  rename_i m hp
  obtain ⟨hlive, hs⟩ := of_decide_eq_true hs
  obtain ⟨s', hstep, hs'⟩ := (Option.any_eq_true _ _).1 hs
  obtain ⟨hin, hcreated, hdel, hs'⟩ := of_decide_eq_true hs'
  obtain ⟨s'', hleaves, hended⟩ := (Option.any_eq_true _ _).1 hs'
  have hr' : (relay Crypto.zero).ReachWhen TouchesLive s' := .step _ hr hlive hstep
  have hr'' : (relay Crypto.zero).ReachWhen TouchesLive s'' := ReachWhen.runWhen hr' hleaves
  obtain ⟨hregistered, hdistinct, hsets, hends⟩ := registry_well_formed Crypto.zero
  refine ⟨s, s', s'', hr, hstep, ((hsets s 0 {} s' hr hstep).1 ⟨m, hp⟩).2, hregistered s' hr' 0 0 hin, fun hsame => ?_,
    hleaves, (hends s'' 0 [] s'' hr'' (of_decide_eq_true hended) rfl).2 0⟩
  have h01 := hdistinct s' hr' 0 1 (hregistered s' hr' 0 0 hin).live ⟨by omega, hdel⟩ hsame
  cases h01

end ServerRoom.Relay
